import SafeDecoder.Library.Interleaving
import SafeDecoder.Storage.ContractMetadata

/-! # What the tasks of the workers share

The database, Redis and the queue of messages, and what each command of a task
does to them. An insert that violates a unique key waits for the transaction it
collides with, so an insert and its commit are one step; a rollback has nothing
of its own to undo. Answers of an explorer are whatever the explorer says.
-/
namespace SafeDecoder.Worker
open Effects

/-- The database computes the hash of a document and refuses some documents. -/
structure Postgres where
  abiHash : Json → Bytes
  acceptsJson : Json → Bool

/-- A text column takes every text without a null character. -/
def acceptsText (s : String) : Bool := s.toList.all fun c => c.toNat ≠ 0

/-- The texts that addresses are sent as. -/
structure Addresses where
  /-- `HexBytes(text)` -/
  toBytes : String → Bytes
  /-- `fast_to_checksum_address` -/
  toChecksum : Bytes → String
  toBytes_toChecksum : ∀ b, toBytes (toChecksum b) = b
  toBytes_to0xHexStr : ∀ b, toBytes (to0xHexStr b) = b

abbrev ContractKey := Bytes × Int

/-- The keyword arguments that `Contract.get_or_create` is called with. -/
structure ContractValues where
  name : Option String := none
  displayName : Option String := none
  trustedForDelegateCall : Bool := false

def ContractValues.accepted (v : ContractValues) : Bool :=
  v.name.all acceptsText && v.displayName.all acceptsText

/-- The columns that a session has changed in a row; the others are not written. -/
structure ContractChanges where
  name : Option (Option String) := none
  implementation : Option Bytes := none
  fetchRetries : Option ℕ := none
  abiId : Option ℕ := none

namespace ContractChanges

def apply (changes : ContractChanges) (c : ContractRow) : ContractRow :=
  { c with
    name := changes.name.getD c.name
    implementation := changes.implementation.or c.implementation
    fetchRetries := changes.fetchRetries.getD c.fetchRetries
    abiId := changes.abiId.or c.abiId }

/-- A column that is set to the value it was loaded with is not changed. -/
def since (loaded : ContractRow) (changes : ContractChanges) : ContractChanges where
  name := changes.name.filter fun v => v ≠ loaded.name
  implementation := changes.implementation.filter fun v => some v ≠ loaded.implementation
  fetchRetries := changes.fetchRetries.filter fun v => v ≠ loaded.fetchRetries
  abiId := changes.abiId.filter fun v => some v ≠ loaded.abiId

def accepted (changes : ContractChanges) : Bool :=
  changes.name.all fun name => name.all acceptsText

@[simp] theorem apply_key (changes : ContractChanges) (c : ContractRow) :
    (changes.apply c).key = c.key := rfl

end ContractChanges

/-- A message for `get_contract_metadata_task` -/
structure Message where
  address : String
  chainId : Int
  skipAttemptDownload : Bool := false
  deriving DecidableEq

inductive RedisKey
  | shouldAttemptDownload (address : String) (chainId : Int) (maxRetries : ℕ)
  | createSafeContracts (chainId : Int)
  | contract (address : String)
  deriving DecidableEq

/-- What a task waits for. `client` is known by the source it stands for. -/
inductive Command
  | insertContract (address : Bytes) (chainId : Int) (values : ContractValues)
  | selectContract (address : Bytes) (chainId : Int)
  | updateContract (key : ContractKey) (changes : ContractChanges)
  | updateContractInfo (address : Bytes) (name displayName : String) (trusted : Bool)
  | selectContractsWithoutAbi (maxRetries : ℕ)
  | selectProxyContracts
  | insertAbi (abiJson : Json) (sourceId : ℕ) (relevance : Int)
  | selectAbi (abiJson : Json)
  | insertAbiSource (name url : String)
  | selectAbiSource (name url : String)
  | selectAbiSourceByName (name : String)
  | rollback
  | redisGet (key : RedisKey)
  | redisSet (key : RedisKey) (value : ℕ)
  | redisSetNx (key : RedisKey) (value : ℕ)
  | redisDelete (key : RedisKey)
  | fetch (client : ContractSource) (address : Bytes) (chainId : Int)
  | send (message : Message)

@[reducible] def Command.Answer : Command → Type
  | insertContract _ _ _ => ContractRow
  | selectContract _ _ => Option ContractRow
  | updateContract _ _ => Unit
  | updateContractInfo _ _ _ _ => ℕ
  | selectContractsWithoutAbi _ => List ContractRow
  | selectProxyContracts => List ContractRow
  | insertAbi _ _ _ => AbiRow
  | selectAbi _ => Option AbiRow
  | insertAbiSource _ _ => AbiSourceRow
  | selectAbiSource _ _ => Option AbiSourceRow
  | selectAbiSourceByName _ => Option AbiSourceRow
  | rollback => Unit
  | redisGet _ => Option ℕ
  | redisSet _ _ => Unit
  | redisSetNx _ _ => Bool
  | redisDelete _ => Unit
  | fetch _ _ _ => Option ContractMetadata
  | send _ => Unit

/-- After a failed flush a session only takes a rollback. -/
structure DbSession where
  failed : Bool := false
  deriving DecidableEq

def integrityError : PyError := .other "IntegrityError"
def pendingRollback : PyError := .other "PendingRollbackError"

/-- `except IntegrityError` -/
def isIntegrityError (e : PyError) : Bool := e = integrityError

structure World (pg : Postgres) where
  db : Db
  chainIdsFit : ∀ c ∈ db.contracts, fitsBigInt c.chainId
  /-- The unique index on `abi_hash`. -/
  abiHashes : (db.abis.map fun r => pg.abiHash r.abiJson).Nodup
  nextContractId : ℕ
  nextAbiId : ℕ
  nextSourceId : ℕ
  abiIdsBelow : ∀ r ∈ db.abis, r.id < nextAbiId
  redis : RedisKey → Option ℕ
  queue : List Message

theorem nodup_map_concat {α β : Type} {f : α → β} {l : List α} {a : α} (hl : (l.map f).Nodup)
    (ha : f a ∉ l.map f) : ((l ++ [a]).map f).Nodup := by
  rw [List.map_append, List.map_singleton]
  apply List.Nodup.append hl (List.nodup_singleton _)
  rw [List.disjoint_singleton]
  exact ha

namespace World
variable {pg : Postgres} (w : World pg)

def contract (k : ContractKey) : Option ContractRow := w.db.getContract k.1 k.2

/-- The row that the unique index finds for a document. -/
def abiOf (abiJson : Json) : Option AbiRow :=
  w.db.abis.find? fun r => pg.abiHash r.abiJson = pg.abiHash abiJson

def source (name url : String) : Option AbiSourceRow :=
  w.db.sources.find? fun s => s.name = name && s.url = url

/-- The unique key and the column type of the chain admit the row. -/
def Takes (row : ContractRow) : Prop :=
  row.key ∉ w.db.contracts.map ContractRow.key ∧ fitsBigInt row.chainId

instance (row : ContractRow) : Decidable (w.Takes row) := inferInstanceAs (Decidable (_ ∧ _))

def addContract (row : ContractRow) (h : w.Takes row) : World pg :=
  { w with
    db := { w.db with
      contracts := w.db.contracts ++ [row]
      contractKeys := nodup_map_concat w.db.contractKeys h.1 }
    chainIdsFit := by
      intro c hc
      rcases List.mem_append.mp hc with hc | hc
      · exact w.chainIdsFit c hc
      · rw [List.mem_singleton.mp hc]
        exact h.2
    nextContractId := w.nextContractId + 1 }

def mapContracts (f : ContractRow → ContractRow) (hf : ∀ c, (f c).key = c.key) : World pg :=
  { w with
    db := { w.db with
      contracts := w.db.contracts.map f
      contractKeys := by
        rw [List.map_map, show ContractRow.key ∘ f = ContractRow.key from funext hf]
        exact w.db.contractKeys }
    chainIdsFit := by
      intro c hc
      obtain ⟨c',hc',rfl⟩ := List.mem_map.mp hc
      rw [show (f c').chainId = c'.chainId from congrArg Prod.snd (hf c')]
      exact w.chainIdsFit c' hc' }

/-- An update writes to the row with the key of the loaded object. -/
def updateContract (key : ContractKey) (changes : ContractChanges) : World pg :=
  w.mapContracts (fun c => if c.key = key then changes.apply c else c) fun c => by
    split
    · exact changes.apply_key c
    · rfl

/-- `Contract.update_contract_info` writes to every chain. -/
def updateContractInfo (address : Bytes) (name displayName : String) (trusted : Bool) : World pg :=
  w.mapContracts (fun c =>
    if c.address = address then
      { c with name := some name, displayName := some displayName, trustedForDelegateCall := trusted }
    else c) fun c => by
      split <;> rfl

theorem fresh_abi_id (abiJson : Json) (sourceId : ℕ) (relevance : Int) :
    (⟨w.nextAbiId,relevance,abiJson,sourceId⟩ : AbiRow).id ∉ w.db.abis.map AbiRow.id := by
  intro h
  obtain ⟨r,hr,hid⟩ := List.mem_map.mp h
  exact absurd (w.abiIdsBelow r hr) (by simp only [hid]; omega)

def addAbi (abiJson : Json) (sourceId : ℕ) (relevance : Int)
    (h : pg.abiHash abiJson ∉ w.db.abis.map fun r => pg.abiHash r.abiJson) : World pg :=
  { w with
    db := { w.db with
      abis := w.db.abis ++ [⟨w.nextAbiId,relevance,abiJson,sourceId⟩]
      abiIds := nodup_map_concat w.db.abiIds (w.fresh_abi_id abiJson sourceId relevance) }
    abiHashes := nodup_map_concat w.abiHashes h
    nextAbiId := w.nextAbiId + 1
    abiIdsBelow := by
      intro r hr
      rcases List.mem_append.mp hr with hr | hr
      · exact Nat.lt_succ_of_lt (w.abiIdsBelow r hr)
      · rw [List.mem_singleton.mp hr]
        exact Nat.lt_succ_self _ }

def addSource (name url : String) : World pg :=
  { w with
    db := { w.db with sources := w.db.sources ++ [⟨w.nextSourceId,name,url⟩] }
    nextSourceId := w.nextSourceId + 1 }

def setRedis (key : RedisKey) (value : Option ℕ) : World pg :=
  { w with redis := Function.update w.redis key value }

def send (message : Message) : World pg := { w with queue := w.queue ++ [message] }

/-- A new installation. -/
def empty (pg : Postgres) : World pg where
  db := ⟨[],[],[],List.nodup_nil,contractKeys_nil⟩
  chainIdsFit := fun _ h => nomatch h
  abiHashes := List.nodup_nil
  nextContractId := 1
  nextAbiId := 1
  nextSourceId := 1
  abiIdsBelow := fun _ h => nomatch h
  redis := fun _ => none
  queue := []

/-- The row that `Contract.get_or_create` inserts. -/
def newContract (address : Bytes) (chainId : Int) (values : ContractValues) : ContractRow :=
  ⟨w.nextContractId,address,values.name,values.displayName,none,values.trustedForDelegateCall,none,
    0,none,none,chainId⟩

end World


/-- The answer to a command, with the world and the session afterwards. -/
abbrev Response (pg : Postgres) (c : Command) := Except PyError c.Answer × World pg × DbSession


variable {pg : Postgres}

/-- What the database, Redis and the queue do. The answers of the explorers come first. -/
def respond (answers : ContractSource → Bytes → Int → Except PyError (Option ContractMetadata))
    (w : World pg) (l : DbSession) : (c : Command) → Response pg c
  | .insertContract address chainId values =>
    let row := w.newContract address chainId values
    if l.failed then (.error pendingRollback,w,l)
    else if fitsBigInt chainId && values.accepted then
      if h : w.Takes row then (.ok row,w.addContract row h,l)
      else (.error integrityError,w,⟨true⟩)
    else (.error .dbApiError,w,⟨true⟩)
  | .selectContract address chainId =>
    if l.failed then (.error pendingRollback,w,l)
    else if fitsBigInt chainId then (.ok (w.contract (address,chainId)),w,l)
    else (.error .dbApiError,w,l)
  | .updateContract key changes =>
    if l.failed then (.error pendingRollback,w,l)
    else if changes.accepted then (.ok (),w.updateContract key changes,l)
    else (.error .dbApiError,w,⟨true⟩)
  | .updateContractInfo address name displayName trusted =>
    if l.failed then (.error pendingRollback,w,l)
    else if acceptsText name && acceptsText displayName then
      (.ok (w.db.contracts.countP fun c => c.address = address),
        w.updateContractInfo address name displayName trusted,l)
    else (.error .dbApiError,w,l)
  | .selectContractsWithoutAbi maxRetries =>
    if l.failed then (.error pendingRollback,w,l)
    else (.ok (w.db.contracts.filter fun c => c.abiId = none && c.fetchRetries ≤ maxRetries),w,l)
  | .selectProxyContracts =>
    if l.failed then (.error pendingRollback,w,l)
    else (.ok (w.db.contracts.filter fun c => c.implementation.isSome),w,l)
  | .insertAbi abiJson sourceId relevance =>
    if l.failed then (.error pendingRollback,w,l)
    else if pg.acceptsJson abiJson then
      if h : pg.abiHash abiJson ∈ w.db.abis.map fun r => pg.abiHash r.abiJson then
        (.error integrityError,w,⟨true⟩)
      else (.ok ⟨w.nextAbiId,relevance,abiJson,sourceId⟩,w.addAbi abiJson sourceId relevance h,l)
    else (.error .dbApiError,w,⟨true⟩)
  | .selectAbi abiJson =>
    if l.failed then (.error pendingRollback,w,l)
    else if pg.acceptsJson abiJson then (.ok (w.abiOf abiJson),w,l)
    else (.error .dbApiError,w,l)
  | .insertAbiSource name url =>
    if l.failed then (.error pendingRollback,w,l)
    else (.ok ⟨w.nextSourceId,name,url⟩,w.addSource name url,l)
  | .selectAbiSource name url =>
    if l.failed then (.error pendingRollback,w,l) else (.ok (w.source name url),w,l)
  | .selectAbiSourceByName name =>
    if l.failed then (.error pendingRollback,w,l) else (.ok (w.db.getAbiSource name),w,l)
  | .rollback => (.ok (),w,⟨false⟩)
  | .redisGet key => (.ok (w.redis key),w,l)
  | .redisSet key value => (.ok (),w.setRedis key (some value),l)
  | .redisSetNx key value =>
    match w.redis key with
    | some _ => (.ok false,w,l)
    | none => (.ok true,w.setRedis key (some value),l)
  | .redisDelete key => (.ok (),w.setRedis key none,l)
  | .fetch client address chainId => (answers client address chainId,w,l)
  | .send message => (.ok (),w.send message,l)

/-- What a command may do to the world, whatever it is answered. -/
inductive Effect : Command → World pg → World pg → Prop
  | idle (c : Command) (w : World pg) : Effect c w w
  | insertContract {address chainId values} {w : World pg}
      (h : w.Takes (w.newContract address chainId values)) :
      Effect (.insertContract address chainId values) w (w.addContract _ h)
  | updateContract (key changes) (w : World pg) :
      Effect (.updateContract key changes) w (w.updateContract key changes)
  | updateContractInfo (address name displayName trusted) (w : World pg) :
      Effect (.updateContractInfo address name displayName trusted) w
        (w.updateContractInfo address name displayName trusted)
  | insertAbi {abiJson sourceId relevance} {w : World pg}
      (h : pg.abiHash abiJson ∉ w.db.abis.map fun r => pg.abiHash r.abiJson) :
      Effect (.insertAbi abiJson sourceId relevance) w (w.addAbi abiJson sourceId relevance h)
  | insertAbiSource (name url) (w : World pg) : Effect (.insertAbiSource name url) w (w.addSource name url)
  | redisSet (key value) (w : World pg) : Effect (.redisSet key value) w (w.setRedis key (some value))
  | redisSetNx (key value) (w : World pg) : Effect (.redisSetNx key value) w (w.setRedis key (some value))
  | redisDelete (key) (w : World pg) : Effect (.redisDelete key) w (w.setRedis key none)
  | send (message) (w : World pg) : Effect (.send message) w (w.send message)

theorem respond_effect {c : Command} {w w' : World pg} {l l' : DbSession}
    {answers : ContractSource → Bytes → Int → Except PyError (Option ContractMetadata)}
    {r : Except PyError c.Answer} (h : respond answers w l c = (r,w',l')) : Effect c w w' := by
  cases c with
  | insertContract address chainId values =>
    simp only [respond] at h
    split_ifs at h <;> cases h
    · exact .idle _ w
    · exact .insertContract _
    · exact .idle _ w
    · exact .idle _ w
  | updateContract key changes =>
    simp only [respond] at h
    split_ifs at h <;> cases h
    · exact .idle _ w
    · exact .updateContract key changes w
    · exact .idle _ w
  | updateContractInfo address name displayName trusted =>
    simp only [respond] at h
    split_ifs at h <;> cases h
    · exact .idle _ w
    · exact .updateContractInfo address name displayName trusted w
    · exact .idle _ w
  | insertAbi abiJson sourceId relevance =>
    simp only [respond] at h
    split_ifs at h <;> cases h
    · exact .idle _ w
    · exact .idle _ w
    · exact .insertAbi _
    · exact .idle _ w
  | insertAbiSource name url =>
    simp only [respond] at h
    split_ifs at h <;> cases h
    · exact .idle _ w
    · exact .insertAbiSource name url w
  | redisSetNx key value =>
    simp only [respond] at h
    split at h <;> cases h
    · exact .idle _ w
    · exact .redisSetNx key value w
  | redisSet key value => cases h; exact .redisSet key value w
  | redisDelete key => cases h; exact .redisDelete key w
  | send message => cases h; exact .send message w
  | rollback => cases h; exact .idle _ w
  | redisGet key => cases h; exact .idle _ w
  | fetch client address chainId => cases h; exact .idle _ w
  | _ =>
    simp only [respond] at h
    split_ifs at h <;> cases h <;> exact .idle _ w

/-- A document that the explorers may answer at any time, or an exception of their clients. -/
abbrev Explorers := ContractSource → Bytes → Int → Except PyError (Option ContractMetadata) → Prop

def Exec (explorers : Explorers) (w : World pg) (l : DbSession) (c : Command)
    (r : Except PyError c.Answer) (w' : World pg) (l' : DbSession) : Prop :=
  ∃ answers, respond answers w l c = (r,w',l') ∧
    ∀ client address chainId, c = .fetch client address chainId →
      explorers client address chainId (answers client address chainId)

theorem exec_respond {explorers : Explorers}
    {answers : ContractSource → Bytes → Int → Except PyError (Option ContractMetadata)}
    (h : ∀ client address chainId, explorers client address chainId (answers client address chainId))
    (w : World pg) (l : DbSession) (c : Command) :
    Exec explorers w l c (respond answers w l c).1 (respond answers w l c).2.1
      (respond answers w l c).2.2 :=
  ⟨answers,rfl,fun client address chainId _ => h client address chainId⟩

/-- What is answered when no explorer is asked. -/
def unasked : ContractSource → Bytes → Int → Except PyError (Option ContractMetadata) :=
  fun _ _ _ => .ok none

/-- A command that asks no explorer is settled by the database, Redis and the queue. -/
theorem exec_iff {explorers : Explorers} {w w' : World pg} {l l' : DbSession} {c : Command}
    {r : Except PyError c.Answer} (hc : ∀ client address chainId, c ≠ .fetch client address chainId) :
    Exec explorers w l c r w' l' ↔ respond unasked w l c = (r,w',l') := by
  have hsame : ∀ answers, respond answers w l c = respond unasked w l c := by
    intro answers
    cases c <;> first | rfl | exact absurd rfl (hc _ _ _)
  constructor
  · rintro ⟨answers,hr,_⟩
    rwa [← hsame answers]
  · exact fun hr => ⟨unasked,hr,fun client address chainId hf => absurd hf (hc client address chainId)⟩

section Rows
variable (w : World pg)

theorem contract_eq_find (k : ContractKey) :
    w.contract k = w.db.contracts.find? fun c => c.key = k := by
  unfold World.contract Db.getContract
  congr 1
  funext c
  rw [ContractRow.key, Bool.eq_iff_iff]
  simp [Prod.ext_iff]

theorem contract_key {k : ContractKey} {c : ContractRow} (h : w.contract k = some c) :
    c.key = k := by
  rw [contract_eq_find] at h
  simpa using List.find?_some h

theorem mem_of_contract {k : ContractKey} {c : ContractRow} (h : w.contract k = some c) :
    c ∈ w.db.contracts := by
  rw [contract_eq_find] at h
  exact List.mem_of_find?_eq_some h

theorem contract_of_mem {c : ContractRow} (h : c ∈ w.db.contracts) :
    w.contract c.key = some c := by
  cases hc : w.contract c.key with
  | none =>
    rw [contract_eq_find, List.find?_eq_none] at hc
    exact absurd (decide_eq_true rfl) (hc c h)
  | some d =>
    have hkey := contract_key w hc
    rw [List.inj_on_of_nodup_map w.db.contractKeys (mem_of_contract w hc) h hkey]

theorem contract_eq_none {k : ContractKey} :
    w.contract k = none ↔ k ∉ w.db.contracts.map ContractRow.key := by
  rw [contract_eq_find, List.find?_eq_none]
  simp

theorem contract_addContract {row : ContractRow} (h : w.Takes row) (k : ContractKey) :
    (w.addContract row h).contract k = if k = row.key then some row else w.contract k := by
  have hnone := (contract_eq_none w).mpr h.1
  rw [contract_eq_find] at hnone
  by_cases hk : k = row.key
  · subst hk
    simp [contract_eq_find, World.addContract, List.find?_append, hnone]
  · simp [contract_eq_find, World.addContract, List.find?_append, hk, Ne.symm hk]

theorem contract_mapContracts {f : ContractRow → ContractRow} (hf : ∀ c, (f c).key = c.key)
    (k : ContractKey) : (w.mapContracts f hf).contract k = (w.contract k).map f := by
  simp only [contract_eq_find, World.mapContracts, List.find?_map, Function.comp_def, hf]

theorem contract_updateContract (key k : ContractKey) (changes : ContractChanges) :
    (w.updateContract key changes).contract k =
      if k = key then (w.contract key).map changes.apply else w.contract k := by
  rw [World.updateContract, contract_mapContracts]
  by_cases hk : k = key
  · subst hk
    rw [if_pos rfl]
    cases hc : w.contract k with
    | none => rfl
    | some c => simp [contract_key w hc]
  · rw [if_neg hk]
    cases hc : w.contract k with
    | none => rfl
    | some c => simp [contract_key w hc, hk]

theorem contract_updateContractInfo (address : Bytes) (name displayName : String) (trusted : Bool)
    (k : ContractKey) :
    (w.updateContractInfo address name displayName trusted).contract k =
      if k.1 = address then
        (w.contract k).map fun c => { c with
          name := some name, displayName := some displayName, trustedForDelegateCall := trusted }
      else w.contract k := by
  rw [World.updateContractInfo, contract_mapContracts]
  cases hc : w.contract k with
  | none => simp
  | some c =>
    have haddress : c.address = k.1 := congrArg Prod.fst (contract_key w hc)
    by_cases hk : k.1 = address
    · simp [haddress, hk]
    · simp [haddress, hk]

theorem abiOf_hash {abiJson : Json} {r : AbiRow} (h : w.abiOf abiJson = some r) :
    r ∈ w.db.abis ∧ pg.abiHash r.abiJson = pg.abiHash abiJson :=
  ⟨List.mem_of_find?_eq_some h,by simpa using List.find?_some h⟩

theorem abiOf_eq_none {abiJson : Json} :
    w.abiOf abiJson = none ↔
      pg.abiHash abiJson ∉ w.db.abis.map fun r => pg.abiHash r.abiJson := by
  rw [World.abiOf, List.find?_eq_none]
  simp

theorem abiOf_addAbi (abiJson : Json) (sourceId : ℕ) (relevance : Int)
    (h : pg.abiHash abiJson ∉ w.db.abis.map fun r => pg.abiHash r.abiJson) (j : Json) :
    (w.addAbi abiJson sourceId relevance h).abiOf j =
      if pg.abiHash j = pg.abiHash abiJson then some ⟨w.nextAbiId,relevance,abiJson,sourceId⟩
      else w.abiOf j := by
  have hnone := (abiOf_eq_none w).mpr h
  by_cases hj : pg.abiHash j = pg.abiHash abiJson
  · rw [World.abiOf] at hnone
    simp [World.abiOf, World.addAbi, List.find?_append, hj, hnone]
  · simp [World.abiOf, World.addAbi, List.find?_append, hj, Ne.symm hj]

/-- Rows stay, and so do the documents. -/
structure Persists (w w' : World pg) : Prop where
  contract : ∀ k, w.contract k ≠ none → w'.contract k ≠ none
  abi : ∀ j r, w.abiOf j = some r → w'.abiOf j = some r

namespace Persists
variable {w}

theorem refl (w : World pg) : Persists w w := ⟨fun _ h => h,fun _ _ h => h⟩

theorem trans {w' w'' : World pg} (h : Persists w w') (h' : Persists w' w'') : Persists w w'' :=
  ⟨fun k hk => h'.contract k (h.contract k hk),fun j r hr => h'.abi j r (h.abi j r hr)⟩

theorem addContract {row : ContractRow} (h : w.Takes row) :
    Persists w (w.addContract row h) := by
  refine ⟨fun k hk => ?_,fun _ _ hr => hr⟩
  rw [contract_addContract]
  split
  · simp
  · exact hk

theorem mapContracts {f : ContractRow → ContractRow} (hf : ∀ c, (f c).key = c.key) :
    Persists w (w.mapContracts f hf) := by
  refine ⟨fun k hk => ?_,fun _ _ hr => hr⟩
  rw [contract_mapContracts]
  simpa using hk

theorem updateContract (key : ContractKey) (changes : ContractChanges) :
    Persists w (w.updateContract key changes) := mapContracts _

theorem addAbi {abiJson : Json} {sourceId : ℕ} {relevance : Int}
    (h : pg.abiHash abiJson ∉ w.db.abis.map fun r => pg.abiHash r.abiJson) :
    Persists w (w.addAbi abiJson sourceId relevance h) := by
  refine ⟨fun _ hk => hk,fun j r hr => ?_⟩
  rw [abiOf_addAbi]
  by_cases hj : pg.abiHash j = pg.abiHash abiJson
  · obtain ⟨hmem,hhash⟩ := abiOf_hash w hr
    refine absurd ?_ h
    rw [← hj, ← hhash]
    exact List.mem_map_of_mem (f := fun r => pg.abiHash r.abiJson) hmem
  · rwa [if_neg hj]

end Persists

end Rows
end SafeDecoder.Worker
