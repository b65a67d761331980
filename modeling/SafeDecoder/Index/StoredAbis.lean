import SafeDecoder.Data.ReferencePackages
import SafeDecoder.Decoder.Reload
import SafeDecoder.Storage.ContractMetadata
import SafeDecoder.Storage.JsonbReading

/-! # What the downloader stores and what the decoder can load

The downloader refuses only empty documents. The decoder reads every entry of
every stored document, so one document that it cannot read stops it from
starting, and it starts exactly when all of them are readable.
-/
namespace SafeDecoder.StoredAbis
open Effects SelectorIndex
variable {L : Externals} {C : Caches} {db db' : Db}

/-- A list of entries that all have a type and whose functions all have a selector. -/
def Readable (L : Externals) (abi : Json) : Prop :=
  ∃ entries, abi.iter = .ok entries ∧ (∀ e ∈ entries, ∃ t, e.getItem "type" = .ok t) ∧
    ∀ e ∈ entries, isFunctionEntry e → ∃ k, L.functionAbiTo4byteSelector e = .ok k

/-- Every function of the documents that has a selector is in the index under it. -/
def Registers (L : Externals) (abis : List Json) (index : Dict Bytes Json) : Prop :=
  ∀ abi ∈ abis, ∀ entries, abi.iter = .ok entries → ∀ f ∈ entries, isFunctionEntry f →
    ∀ k, L.functionAbiTo4byteSelector f = .ok k → k ∈ index

/-- The documents in the cache of contract ABIs are stored ones. -/
def CachesStored (db : Db) (s : Service C) : Prop :=
  ∀ k abi, C.abi.find s.contractAbi k = some (some abi) → ∃ r ∈ db.abis, r.abiJson = abi

/-- The three readers of stored documents return, and the two that fill the index
register every function. -/
structure DecoderLoads (L : Externals) (C : Caches) (db : Db) : Prop where
  init : ∀ order, IsRelevanceOrder db.abis order → ∃ s : Service C,
    init L (getLastInsertedId db.abis) (order.map AbiRow.abiJson) = .ok s ∧
      Registers L (db.abis.map AbiRow.abiJson) s.fnSelectorsWithAbis
  loadNewAbis : ∀ (s : Service C) (order : List AbiRow), s.lockLoadNewAbis = false →
    IsRelevanceOrder db.abis order → ∃ k t,
      loadNewAbis L none (AbiQueries.ofTable db.abis order) s = .ok k t ∧
        Registers L (pendingAbis (AbiQueries.ofTable db.abis order) s.lastAbiId)
          t.fnSelectorsWithAbis
  contractSelectors : ∀ (s : Service C) (address : AddressKey) (chainId : Option Int) (b : Bytes),
    CachesStored db s → L.addressBytes address = .ok b →
      (∀ c, chainId = some c → fitsBigInt c) →
        ∃ r t, getContractAbiSelectorsWithFunctions L db address chainId s = .ok r t

theorem registers_of_loadable {abis : List Json} {index : Dict Bytes Json}
    (hall : ∀ abi ∈ abis, Loadable L abi) (h : ∀ abi ∈ abis, ∀ k ∈ selectors L abi, k ∈ index) :
    Registers L abis index := by
  intro abi ha entries he f hf hfn k hk
  exact h abi ha k ((hall abi ha).mem_selectors he hf hfn hk)

theorem mem_pendingAbis {abis order : List AbiRow} (ho : IsRelevanceOrder abis order)
    {last : Option ℕ} {abi : Json} (h : abi ∈ pendingAbis (AbiQueries.ofTable abis order) last) :
    ∃ r ∈ abis, r.abiJson = abi := by
  cases last with
  | none =>
    obtain ⟨r,hr,hj⟩ := List.mem_map.mp h
    exact ⟨r,ho.1.mem_iff.mp hr,hj⟩
  | some n =>
    simp only [pendingAbis] at h
    split at h
    · obtain ⟨r,hr,hj⟩ := List.mem_map.mp h
      exact ⟨r,(mem_getAbisWithIdGreaterThan.mp hr).1,hj⟩
    · cases h

section Readers
variable (hall : ∀ r ∈ db.abis, Loadable L r.abiJson)
include hall

theorem init_loads (hmulti : Loadable L L.multiSendAbi) {order : List AbiRow}
    (ho : IsRelevanceOrder db.abis order) : ∃ s : Service C,
      init L (getLastInsertedId db.abis) (order.map AbiRow.abiJson) = .ok s ∧
        Registers L (db.abis.map AbiRow.abiJson) s.fnSelectorsWithAbis := by
  have hdocs : ∀ abi ∈ db.abis.map AbiRow.abiJson, Loadable L abi := by
    intro abi ha
    obtain ⟨r,hr,rfl⟩ := List.mem_map.mp ha
    exact hall r hr
  have hsame : ∀ abi, abi ∈ order.map AbiRow.abiJson ↔ abi ∈ db.abis.map AbiRow.abiJson :=
    fun abi => (ho.1.map AbiRow.abiJson).mem_iff
  refine ⟨_,init_eq_ok_iff.mpr ⟨fun abi ha => hdocs abi ((hsame abi).mp ha),hmulti,rfl⟩,?_⟩
  apply registers_of_loadable hdocs
  intro abi ha k hk
  exact (Dict.mem_mergeLast (selectors L)).mpr (Or.inr ⟨abi,(hsame abi).mpr ha,hk⟩)

theorem loadNewAbis_loads {s : Service C} {order : List AbiRow} (hlock : s.lockLoadNewAbis = false)
    (ho : IsRelevanceOrder db.abis order) : ∃ k t,
      loadNewAbis L none (AbiQueries.ofTable db.abis order) s = .ok k t ∧
        Registers L (pendingAbis (AbiQueries.ofTable db.abis order) s.lastAbiId)
          t.fnSelectorsWithAbis := by
  have hpending : ∀ abi ∈ pendingAbis (AbiQueries.ofTable db.abis order) s.lastAbiId,
      Loadable L abi := by
    intro abi ha
    obtain ⟨r,hr,rfl⟩ := mem_pendingAbis ho ha
    exact hall r hr
  have hdone := completes_iff.mpr ⟨hlock,hpending,rfl⟩
  obtain ⟨k,hk⟩ := hdone.loadNewAbis
  refine ⟨k,_,hk,registers_of_loadable hpending fun abi ha k hk => ?_⟩
  exact hdone.mem.mpr (Or.inr ⟨abi,ha,hk⟩)

/-- A lookup of a contract ABI returns a stored document, fresh or cached. -/
theorem getContractAbi_returns (style : CallStyle) {address : AddressKey} {b : Bytes}
    (hb : L.addressBytes address = .ok b) {chainId : Option Int}
    (hc : ∀ c, chainId = some c → fitsBigInt c) :
    Triple (CachesStored (C := C) db) (getContractAbi L db style address chainId)
      (fun r => ∀ abi, r = some abi → Loadable L abi) fun _ => False := by
  have hcall : Triple (CachesStored (C := C) db) (getContractAbi L db style address chainId)
      (fun r => ∀ abi, r = some abi → ∃ q ∈ db.abis, q.abiJson = abi) fun _ => False := by
    refine MemoTable.call_triple ?_ ?_ ?_ ?_
    · rintro s v hs hf abi rfl
      exact hs _ abi hf
    · intro s hs k abi hf
      exact hs k abi ((C.abi.find_touch _ _ _).symm.trans hf)
    · intro s v hs hv k abi hf
      rcases C.abi.find_store _ _ _ _ _ hf with ⟨_,hv'⟩ | hold
      · exact hv abi hv'.symm
      · exact hs k abi hold
    · obtain ⟨r,hr⟩ := db.getAbiByContractAddress_isOk b chainId hc
      have hq : queryContractAbi L db address chainId = .ok r := by
        rw [queryContractAbi, hb]
        exact hr
      rw [hq]
      apply Triple.pure
      rintro abi rfl
      exact db.getAbiByContractAddress_stored hr
  refine hcall.mono (fun r h abi hr => ?_) fun _ h => h
  obtain ⟨q,hq,rfl⟩ := h abi hr
  exact hall q hq

theorem contractSelectors_loads {address : AddressKey} {b : Bytes}
    (hb : L.addressBytes address = .ok b) {chainId : Option Int}
    (hc : ∀ c, chainId = some c → fitsBigInt c) :
    Triple (CachesStored (C := C) db) (getContractAbiSelectorsWithFunctions L db address chainId)
      (fun _ => True) fun _ => False := by
  apply MemoTable.call_triple (fun _ _ _ _ => trivial) (fun s hs => hs) (fun s v hs _ => hs)
  apply (getContractAbi_returns hall .positional hb hc).bind
  intro abi habi
  have hother := getContractAbi_returns (C := C) hall .positional hb
    fun c (h : none = some c) => nomatch h
  apply (Triple.ite hother (Triple.pure habi)).bind
  intro abi habi
  cases hf : abi.filter Json.truthy with
  | none => exact Triple.pure trivial
  | some doc =>
    have hdoc := habi doc (Option.filter_eq_some_iff.mp hf).1
    simp only [hdoc.generate]
    exact Triple.pure trivial

end Readers

/-- The decoder can load a table exactly when every document of it is readable. -/
theorem decoderLoads_iff_readable (hmulti : Loadable L L.multiSendAbi) :
    DecoderLoads L C db ↔ ∀ r ∈ db.abis, Readable L r.abiJson := by
  constructor
  · intro h r hr
    obtain ⟨order,ho⟩ := RankedStream.exists_isOrder AbiRow.relevance db.abis
    obtain ⟨s,hs,_⟩ := h.init order ho
    have hload := (init_eq_ok_iff.mp hs).1 r.abiJson
      (List.mem_map_of_mem (ho.1.mem_iff.mpr hr))
    exact loadable_iff.mp hload
  · intro h
    have hall : ∀ r ∈ db.abis, Loadable L r.abiJson := fun r hr => loadable_iff.mpr (h r hr)
    refine ⟨fun order ho => init_loads hall hmulti ho,
      fun s order hlock ho => loadNewAbis_loads hall hlock ho,?_⟩
    intro s address chainId b hs hb hc
    obtain ⟨r,t,ht,_⟩ := (contractSelectors_loads hall hb hc).returns hs
    exact ⟨r,t,ht⟩

/-- After a download the decoder can load the table exactly when the documents
that were there and the one that was added are readable. -/
theorem decoderLoads_after_download_iff (hmulti : Loadable L L.multiSendAbi)
    {abiHash : Json → Bytes} {contractId abiId : ℕ} {m : EnhancedContractMetadata} {done : Bool}
    (h : processContractMetadata abiHash db contractId abiId m = .ok (db',done)) :
    DecoderLoads L C db' ↔ (∀ r ∈ db.abis, Readable L r.abiJson) ∧
      ∀ abi, AddsAbi abiHash db m abi → Readable L abi := by
  rw [decoderLoads_iff_readable hmulti]
  rcases processContractMetadata_abis h with ⟨hno,hsame⟩ | ⟨abi,sourceId,hadds,happ⟩
  · rw [hsame]
    exact ⟨fun hr => ⟨hr,fun abi ha => absurd ha (hno abi)⟩,fun hr => hr.1⟩
  · rw [happ]
    constructor
    · intro hr
      refine ⟨fun r hm => hr r (List.mem_append_left _ hm),?_⟩
      rintro abi' ⟨⟨source',metadata',ha',rfl⟩,_⟩
      obtain ⟨⟨source,metadata,ha,rfl⟩,_⟩ := hadds
      rw [ha] at ha'
      cases ha'
      exact hr _ (List.mem_append_right _ (List.mem_singleton_self _))
    · rintro ⟨hold,hnew⟩ r hr
      rcases List.mem_append.mp hr with hr | hr
      · exact hold r hr
      · rw [List.mem_singleton.mp hr]
        exact hnew abi hadds

section Downloads
open Reference

/-- The text that is hashed stands for its hash. -/
def hashedText (abi : Json) : Bytes := (Jsonb.hashInput abi).getD []

/-- One source, and one ABI that was stored before. -/
def explorerDb : Db :=
  ⟨[⟨1,"Etherscan",""⟩],[⟨1,50,.arr [approveErc20],1⟩],[],List.nodup_singleton _,contractKeys_nil⟩

def downloaded (abi : Json) : EnhancedContractMetadata :=
  ⟨List.replicate 20 1,some ⟨some "Token",abi,none⟩,some .etherscan,1⟩

def untyped : Json := .arr [.obj [("name",.str "transfer")]]

/-- The tables after a document was stored that none of the others is. -/
theorem downloaded_stored (abi : Json) (ht : abi.truthy)
    (hnew : hashedText (.arr [approveErc20]) ≠ hashedText abi) : ∃ db',
    processContractMetadata hashedText explorerDb 1 2 (downloaded abi) = .ok (db',true) ∧
      db'.abis = [⟨1,50,.arr [approveErc20],1⟩, ⟨2,0,abi,1⟩] := by
  have haccepted : ∀ db : Db, db.sources = explorerDb.sources →
      acceptedAbi db (downloaded abi) = some (⟨some "Token",abi,none⟩,⟨1,"Etherscan",""⟩) := by
    intro db hdb
    simp [acceptedAbi, downloaded, Db.getAbiSource, hdb, explorerDb, ContractSource.value, ht]
  have hstored : ∀ db : Db, db.abis = explorerDb.abis → ∃ stored row,
      db.getOrCreateAbi hashedText 2 abi 1 0 = .ok (stored,row) ∧
        stored.abis = [⟨1,50,.arr [approveErc20],1⟩, ⟨2,0,abi,1⟩] := by
    intro db hdb
    simp [Db.getOrCreateAbi, Db.insertAbi, hdb, explorerDb, hnew]
  obtain ⟨created,c,hc⟩ : ∃ created c, explorerDb.getOrCreateContract 1 (downloaded abi).address
      (downloaded abi).chainId = .ok (created,c) := ⟨_,_,rfl⟩
  obtain ⟨hkept,hsources⟩ := getOrCreateContract_tables hc
  obtain ⟨stored,row,hrow,habis⟩ := hstored created hkept
  exact ⟨_,processContractMetadata_stored hc (haccepted created hsources) hrow,habis⟩

/-- An entry without a type is stored, and the decoder does not start any more. -/
theorem not_decoderLoads_untyped_entry : ∃ db',
    processContractMetadata hashedText explorerDb 1 2 (downloaded untyped) = .ok (db',true) ∧
      ¬ DecoderLoads packages Caches.leastRecentlyUsed db' := by
  obtain ⟨db',hrun,habis⟩ := downloaded_stored untyped rfl (by decide +kernel)
  have horder : IsRelevanceOrder db'.abis [⟨2,0,untyped,1⟩, ⟨1,50,.arr [approveErc20],1⟩] := by
    rw [habis]
    exact ⟨List.Perm.swap _ _ _,List.pairwise_pair.mpr (by decide)⟩
  refine ⟨db',hrun,fun h => ?_⟩
  obtain ⟨s,hs,_⟩ := h.init _ horder
  obtain ⟨d,hd⟩ := (init_eq_ok_iff.mp hs).1 untyped List.mem_cons_self
  cases hd

theorem decoderLoads_transfer : ∃ db',
    processContractMetadata hashedText explorerDb 1 2 (downloaded (.arr [transferFunction])) =
        .ok (db',true) ∧
      DecoderLoads packages Caches.leastRecentlyUsed db' := by
  have hmulti : Loadable packages packages.multiSendAbi := ⟨_,rfl⟩
  obtain ⟨db',hrun,habis⟩ := downloaded_stored (.arr [transferFunction]) rfl (by decide +kernel)
  refine ⟨db',hrun,(decoderLoads_after_download_iff hmulti hrun).mpr ⟨fun r hr => ?_,?_⟩⟩
  · rw [List.mem_singleton.mp hr]
    exact loadable_iff.mp ⟨_,rfl⟩
  · rintro abi ⟨⟨source,metadata,ha,rfl⟩,_⟩
    cases ha
    exact loadable_iff.mp ⟨_,rfl⟩

end Downloads
end SafeDecoder.StoredAbis
