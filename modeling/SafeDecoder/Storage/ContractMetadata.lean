import SafeDecoder.Library.Effects
import SafeDecoder.Storage.Tables

/-! # Storing what an explorer returned

`process_contract_metadata` creates the contract row when it is missing, then
either records a failed attempt or stores the ABI and points the contract to it.
The hash that the database computes of a document decides whether a row for it
exists already, so it is a parameter here.
-/
namespace SafeDecoder
open Effects

inductive ContractSource
  | etherscan | sourcify | blockscout
  deriving DecidableEq, Repr

/-- `ContractSource.value` -/
def ContractSource.value : ContractSource → String
  | etherscan => "Etherscan"
  | sourcify => "Sourcify"
  | blockscout => "Blockscout"

/-- `ContractMetadata` of an explorer client; the addresses are kept as bytes. -/
structure ContractMetadata where
  name : Option String
  abi : Json
  implementation : Option Bytes

structure EnhancedContractMetadata where
  address : Bytes
  metadata : Option ContractMetadata
  source : Option ContractSource
  chainId : Int

def nullAddress : Bytes := List.replicate 20 0

namespace Db

/-- An inserted row needs an id of its own; a conflict is an `IntegrityError`. -/
def insertAbi (db : Db) (row : AbiRow) : Except PyError Db :=
  if h : row.id ∈ db.abis.map AbiRow.id then .error (.other "IntegrityError")
  else .ok { db with
    abis := db.abis ++ [row]
    abiIds := by
      rw [List.map_append, List.nodup_append]
      refine ⟨db.abiIds,List.nodup_singleton _,?_⟩
      intro a ha b hb
      rw [List.map_singleton, List.mem_singleton] at hb
      rintro rfl
      exact h (hb ▸ ha) }

def insertContract (db : Db) (row : ContractRow) : Except PyError Db :=
  if h : row.key ∈ db.contracts.map ContractRow.key then .error (.other "IntegrityError")
  else .ok { db with
    contracts := db.contracts ++ [row]
    contractKeys := by
      rw [List.map_append, List.nodup_append]
      refine ⟨db.contractKeys,List.nodup_singleton _,?_⟩
      intro a ha b hb
      rw [List.map_singleton, List.mem_singleton] at hb
      rintro rfl
      exact h (hb ▸ ha) }

/-- `update`: the row with the same address and chain is replaced. -/
def updateContract (db : Db) (row : ContractRow) : Db :=
  { db with
    contracts := db.contracts.map fun c => if c.key = row.key then row else c
    contractKeys := by
      have hkeys : (db.contracts.map fun c => if c.key = row.key then row else c).map
          ContractRow.key = db.contracts.map ContractRow.key := by
        rw [List.map_map]
        apply List.map_congr_left
        intro c _
        by_cases hc : c.key = row.key
        · rw [Function.comp_apply, if_pos hc, hc]
        · rw [Function.comp_apply, if_neg hc]
      rw [hkeys]
      exact db.contractKeys }

/-- `Contract.get_or_create` with the next id of the sequence. -/
def getOrCreateContract (db : Db) (newId : ℕ) (address : Bytes) (chainId : Int) :
    Except PyError (Db × ContractRow) :=
  if fitsBigInt chainId then
    match db.getContract address chainId with
    | some contract => .ok (db,contract)
    | none =>
      let contract : ContractRow :=
        ⟨newId,address,none,none,none,false,none,0,none,none,chainId⟩
      (fun db => (db,contract)) <$> db.insertContract contract
  else .error .dbApiError

/-- `AbiSource.get_abi_source` -/
def getAbiSource (db : Db) (name : String) : Option AbiSourceRow :=
  db.sources.find? fun source => source.name = name

/-- `Abi.get_or_create_abi`: the unique index on the hash finds an equal document. -/
def getOrCreateAbi (abiHash : Json → Bytes) (db : Db) (newId : ℕ) (abiJson : Json) (sourceId : ℕ)
    (relevance : Int) : Except PyError (Db × AbiRow) :=
  match db.abis.find? fun r => abiHash r.abiJson = abiHash abiJson with
  | some r => .ok (db,r)
  | none =>
    let row : AbiRow := ⟨newId,relevance,abiJson,sourceId⟩
    (fun db => (db,row)) <$> db.insertAbi row

end Db

section Processing
variable (abiHash : Json → Bytes)

def ContractRow.withFailedFetch (c : ContractRow) : ContractRow :=
  { c with fetchRetries := c.fetchRetries + 1 }

/-- `contract.implementation` is set only to an address that is given and not null. -/
def ContractRow.withMetadata (c : ContractRow) (abiId : ℕ) (m : ContractMetadata) : ContractRow :=
  { c with
    abiId := some abiId
    name := m.name
    implementation := (m.implementation.filter fun i => i ≠ nullAddress).or c.implementation }

/-- The document that is going to be stored: the metadata and its source are
there, the source is known and the ABI is not empty. -/
def acceptedAbi (db : Db) (m : EnhancedContractMetadata) : Option (ContractMetadata × AbiSourceRow) := do
  let metadata ← m.metadata
  let source ← m.source
  let row ← db.getAbiSource source.value
  if metadata.abi.truthy then some (metadata,row) else none

/-- `process_contract_metadata`, given the next ids of the two sequences. -/
def processContractMetadata (db : Db) (contractId abiId : ℕ) (m : EnhancedContractMetadata) :
    Except PyError (Db × Bool) := do
  let created ← db.getOrCreateContract contractId m.address m.chainId
  match acceptedAbi created.1 m with
  | none => return (created.1.updateContract created.2.withFailedFetch,false)
  | some accepted => do
    let stored ← created.1.getOrCreateAbi abiHash abiId accepted.1.abi accepted.2.id 0
    return (stored.1.updateContract (created.2.withMetadata stored.2.id accepted.1),true)

variable {abiHash}

@[simp] theorem updateContract_abis (db : Db) (row : ContractRow) :
    (db.updateContract row).abis = db.abis := rfl

theorem acceptedAbi_eq_some {db : Db} {m : EnhancedContractMetadata} {metadata : ContractMetadata}
    {row : AbiSourceRow} (h : acceptedAbi db m = some (metadata,row)) :
    m.metadata = some metadata ∧ metadata.abi.truthy ∧
      ∃ source, m.source = some source ∧ db.getAbiSource source.value = some row := by
  simp only [acceptedAbi, Option.bind_eq_bind, Option.bind_eq_some_iff] at h
  obtain ⟨metadata',hm,source,hs,row',hrow,h⟩ := h
  by_cases ht : metadata'.abi.truthy
  · rw [if_pos ht] at h
    cases h
    exact ⟨hm,ht,source,hs,hrow⟩
  · rw [if_neg ht] at h
    cases h

/-- A call that is not handed anything to store counts a failed attempt. -/
theorem processContractMetadata_failed {db created : Db} {contractId abiId : ℕ}
    {m : EnhancedContractMetadata} {c : ContractRow}
    (hc : db.getOrCreateContract contractId m.address m.chainId = .ok (created,c))
    (hnone : acceptedAbi created m = none) :
    processContractMetadata abiHash db contractId abiId m =
      .ok (created.updateContract c.withFailedFetch,false) := by
  refine bind_eq_ok_iff.mpr ⟨_,hc,?_⟩
  dsimp only
  rw [hnone]
  rfl

theorem processContractMetadata_stored {db created stored : Db} {contractId abiId : ℕ}
    {m : EnhancedContractMetadata} {c : ContractRow} {metadata : ContractMetadata}
    {source : AbiSourceRow} {abi : AbiRow}
    (hc : db.getOrCreateContract contractId m.address m.chainId = .ok (created,c))
    (haccepted : acceptedAbi created m = some (metadata,source))
    (hstored : created.getOrCreateAbi abiHash abiId metadata.abi source.id 0 = .ok (stored,abi)) :
    processContractMetadata abiHash db contractId abiId m =
      .ok (stored.updateContract (c.withMetadata abi.id metadata),true) := by
  refine bind_eq_ok_iff.mpr ⟨_,hc,?_⟩
  dsimp only
  rw [haccepted]
  exact bind_eq_ok_iff.mpr ⟨_,hstored,rfl⟩

theorem getOrCreateContract_tables {db db' : Db} {newId : ℕ} {address : Bytes} {chainId : Int}
    {c : ContractRow} (h : db.getOrCreateContract newId address chainId = .ok (db',c)) :
    db'.abis = db.abis ∧ db'.sources = db.sources := by
  unfold Db.getOrCreateContract at h
  split at h
  · cases hc : db.getContract address chainId with
    | some contract =>
      rw [hc] at h
      cases h
      exact ⟨rfl,rfl⟩
    | none =>
      rw [hc] at h
      simp only [Db.insertContract] at h
      split at h
      · cases h
      · cases h
        exact ⟨rfl,rfl⟩
  · cases h

/-- The table of ABIs gains the document, or has a row with its hash already. -/
theorem getOrCreateAbi_abis {db db' : Db} {newId : ℕ} {abi : Json} {sourceId : ℕ} {relevance : Int}
    {r : AbiRow} (h : db.getOrCreateAbi abiHash newId abi sourceId relevance = .ok (db',r)) :
    ((∃ q ∈ db.abis, abiHash q.abiJson = abiHash abi) ∧ db'.abis = db.abis) ∨
      ((∀ q ∈ db.abis, abiHash q.abiJson ≠ abiHash abi) ∧
        db'.abis = db.abis ++ [⟨newId,relevance,abi,sourceId⟩]) := by
  unfold Db.getOrCreateAbi at h
  cases hq : db.abis.find? fun r => abiHash r.abiJson = abiHash abi with
  | some q =>
    rw [hq] at h
    cases h
    exact Or.inl ⟨⟨_,List.mem_of_find?_eq_some hq,by simpa using List.find?_some hq⟩,rfl⟩
  | none =>
    rw [hq] at h
    simp only [Db.insertAbi] at h
    split at h
    · cases h
    · cases h
      exact Or.inr ⟨fun q hm => by simpa using List.find?_eq_none.mp hq q hm,rfl⟩

/-- The call adds a row to the table of ABIs: it accepts a document whose hash is new. -/
def AddsAbi (abiHash : Json → Bytes) (db : Db) (m : EnhancedContractMetadata) (abi : Json) : Prop :=
  (∃ source metadata, acceptedAbi db m = some (metadata,source) ∧ metadata.abi = abi) ∧
    ∀ q ∈ db.abis, abiHash q.abiJson ≠ abiHash abi

/-- What the call does to the table of ABIs. -/
theorem processContractMetadata_abis {db db' : Db} {contractId abiId : ℕ}
    {m : EnhancedContractMetadata} {done : Bool}
    (h : processContractMetadata abiHash db contractId abiId m = .ok (db',done)) :
    ((∀ abi, ¬ AddsAbi abiHash db m abi) ∧ db'.abis = db.abis) ∨
      ∃ abi sourceId, AddsAbi abiHash db m abi ∧
        db'.abis = db.abis ++ [⟨abiId,0,abi,sourceId⟩] := by
  obtain ⟨⟨created,contract⟩,hc,h⟩ := bind_eq_ok_iff.mp h
  obtain ⟨habis,hsources⟩ := getOrCreateContract_tables hc
  have haccepted : acceptedAbi created m = acceptedAbi db m := by
    simp only [acceptedAbi, Db.getAbiSource, hsources]
  dsimp only at h
  rw [haccepted] at h
  cases ha : acceptedAbi db m with
  | none =>
    rw [ha] at h
    cases h
    refine Or.inl ⟨?_,habis⟩
    rintro abi ⟨⟨_,_,hs,_⟩,_⟩
    rw [ha] at hs
    cases hs
  | some accepted =>
    obtain ⟨metadata,source⟩ := accepted
    rw [ha] at h
    obtain ⟨⟨stored,row⟩,hst,h⟩ := bind_eq_ok_iff.mp h
    cases h
    rw [updateContract_abis, ← habis]
    rcases getOrCreateAbi_abis hst with ⟨⟨q,hq,he⟩,hsame⟩ | ⟨hnew,happ⟩
    · refine Or.inl ⟨?_,hsame⟩
      rintro abi ⟨⟨_,_,hs,rfl⟩,hno⟩
      rw [ha] at hs
      cases hs
      rw [← habis] at hno
      exact hno q hq he
    · refine Or.inr ⟨metadata.abi,source.id,⟨⟨source,metadata,ha,rfl⟩,?_⟩,happ⟩
      rw [← habis]
      exact hnew

end Processing
end SafeDecoder
