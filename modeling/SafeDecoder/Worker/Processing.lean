import SafeDecoder.Worker.Sequential

/-! # The two outcomes of a call

A call of `process_contract_metadata` that returns has either pointed the contract to
its ABI or counted one failed attempt. Nothing else changes.
-/
namespace SafeDecoder.Processing
open Worker Machine Redelivery

variable {pg : Postgres} {m : EnhancedContractMetadata} {w w' : World pg} {r : Bool}

section Outcome

/-- The row that the call starts from: the one that is there, or a new one. -/
def loaded (w : World pg) (m : EnhancedContractMetadata) : ContractRow :=
  (w.contract (m.address,m.chainId)).getD (w.newContract m.address m.chainId {})

/-- The metadata is there, its source is set and known, and its ABI is not empty. -/
def Complete (w : World pg) (m : EnhancedContractMetadata) : Prop :=
  ∃ metadata source row, m.metadata = some metadata ∧ m.source = some source ∧
    w.db.getAbiSource source.value = some row ∧ metadata.abi.truthy

/-- The one row of the document with the hash of `abiJson`; documents are compared by their hashes only. -/
def HoldsAlone (w : World pg) (abiJson : Json) (abi : AbiRow) : Prop :=
  ∀ q, q ∈ w.db.abis ∧ pg.abiHash q.abiJson = pg.abiHash abiJson ↔ q = abi

structure Processed (m : EnhancedContractMetadata) (w : World pg) (r : Bool) (w' : World pg) : Prop where
  result : r = true ↔ Complete w m
  stored : r = true → ∃ metadata abi c, m.metadata = some metadata ∧
    HoldsAlone w' metadata.abi abi ∧ w'.contract (m.address,m.chainId) = some c ∧
    c.abiId = some abi.id ∧ c.name = metadata.name ∧ c.fetchRetries = (loaded w m).fetchRetries
  failed : r = false → w'.db.abis = w.db.abis ∧ w'.contract (m.address,m.chainId) =
    some { loaded w m with fetchRetries := (loaded w m).fetchRetries + 1 }
  otherContracts : ∀ k, k ≠ (m.address,m.chainId) → w'.contract k = w.contract k
  abis : w.db.abis <+: w'.db.abis

end Outcome

section Writes
variable {metadata : ContractMetadata} {source : AbiSourceRow}

theorem complete_iff :
    Complete w m ↔ ∃ metadata row, acceptedAbi w.db m = some (metadata,row) := by
  constructor
  · rintro ⟨metadata,source,row,hm,hs,hrow,ht⟩
    exact ⟨metadata,row,by simp [acceptedAbi, hm, hs, hrow, ht]⟩
  · rintro ⟨metadata,row,h⟩
    obtain ⟨hm,ht,source,hs,hrow⟩ := acceptedAbi_eq_some h
    exact ⟨metadata,source,row,hm,hs,hrow,ht⟩

@[simp] theorem loaded_key : (loaded w m).key = (m.address,m.chainId) := by
  unfold loaded
  cases hc : w.contract (m.address,m.chainId) with
  | none => rfl
  | some c => exact contract_key w hc

theorem contract_withContract_eq (hfits : fitsBigInt m.chainId) (k : ContractKey) :
    (withContract m w).contract k =
      if k = (m.address,m.chainId) then some (loaded w m) else w.contract k := by
  have hkey : (w.newContract m.address m.chainId {}).key = (m.address,m.chainId) := rfl
  cases hc : w.contract (m.address,m.chainId) with
  | none =>
    have htakes : w.Takes (w.newContract m.address m.chainId {}) := contract_none_takes hfits hc
    rw [withContract, dif_pos htakes, contract_addContract, hkey, loaded, hc]
    rfl
  | some c =>
    rw [withContract_of_row (by simp [hc]), loaded, hc]
    by_cases hk : k = (m.address,m.chainId)
    · rw [if_pos hk, hk, hc]
      rfl
    · rw [if_neg hk]

@[simp] theorem withContract_abis : (withContract m w).db.abis = w.db.abis := by
  unfold withContract
  split <;> rfl

@[simp] theorem withContract_sources : (withContract m w).db.sources = w.db.sources := by
  unfold withContract
  split <;> rfl

theorem acceptedAbi_withContract : acceptedAbi (withContract m w).db m = acceptedAbi w.db m := by
  simp only [acceptedAbi, Db.getAbiSource, withContract_sources]

/-- A document is stored at the end of the table, or it is there already. -/
theorem withAbi_prefix : w.db.abis <+: (withAbi metadata source w).db.abis := by
  unfold withAbi
  split
  · exact List.prefix_rfl
  · exact List.prefix_append _ _

@[simp] theorem contract_withAbi (k : ContractKey) :
    (withAbi metadata source w).contract k = w.contract k := by
  unfold withAbi
  split <;> rfl

theorem holdsAlone_of_abiOf {abiJson : Json} {abi : AbiRow} (h : w.abiOf abiJson = some abi) :
    HoldsAlone w abiJson abi := by
  obtain ⟨hmem,hhash⟩ := abiOf_hash w h
  intro q
  constructor
  · rintro ⟨hq,hqhash⟩
    exact List.inj_on_of_nodup_map w.abiHashes hq hmem (hqhash.trans hhash.symm)
  · rintro rfl
    exact ⟨hmem,hhash⟩

/-- What the last write leaves. -/
theorem contract_withMetadata {abi : AbiRow} (habi : w.abiOf metadata.abi = some abi) (k : ContractKey) :
    (withMetadata m metadata w).contract k =
      if k = (m.address,m.chainId) then
        (w.contract k).map (metadataChanges abi.id metadata).apply
      else w.contract k := by
  rw [withMetadata, habi, Option.elim_some, contract_updateContract]
  by_cases hk : k = (m.address,m.chainId)
  · rw [if_pos hk, if_pos hk, hk]
  · rw [if_neg hk, if_neg hk]

end Writes

section Main

/-- A call ends without a row, or as it ends once the row is there. -/
theorem completes_cases {r : Except PyError Bool} (h : Redelivery.Completes m w r w') :
    (¬fitsBigInt m.chainId ∧ r = .error .dbApiError ∧ w' = w) ∨
      (fitsBigInt m.chainId ∧ Ends m (loaded w m) (withContract m w) r w') := by
  obtain ⟨l,h⟩ := completes_iff_evaluate.mp h
  by_cases hfits : fitsBigInt m.chainId
  · refine .inr ⟨hfits,?_⟩
    have hload : evaluate (Worker.processContractMetadata m) w active =
        evaluate (processLoaded m (loaded w m)) (withContract m w) active := by
      cases hc : w.contract (m.address,m.chainId) with
      | none =>
        have htakes : w.Takes (w.newContract m.address m.chainId {}) := contract_none_takes hfits hc
        rw [withContract, dif_pos htakes, loaded, hc]
        exact getOrCreate_new rfl htakes
      | some c =>
        rw [withContract_of_row (by simp [hc]), loaded, hc]
        exact getOrCreate_old hfits (by rfl) hc
    have hrow : (withContract m w).contract (loaded w m).key = some (loaded w m) := by
      rw [loaded_key, contract_withContract_eq hfits, if_pos rfl]
    exact evaluate_processLoaded loaded_key hrow (hload.symm.trans h)
  · cases (getOrCreate_refused fun hno => hfits hno.1).symm.trans h
    exact .inl ⟨hfits,rfl,rfl⟩

theorem processed_failed (hfits : fitsBigInt m.chainId) (hnone : acceptedAbi w.db m = none) :
    Processed m w false ((withContract m w).updateContract (m.address,m.chainId)
      { fetchRetries := some ((loaded w m).fetchRetries + 1) }) where
  result := by
    rw [complete_iff, hnone]
    simp
  stored := nofun
  failed := fun _ => by
    refine ⟨withContract_abis,?_⟩
    rw [contract_updateContract, if_pos rfl, contract_withContract_eq hfits, if_pos rfl]
    rfl
  otherContracts := fun k hk => by
    rw [contract_updateContract, if_neg hk, contract_withContract_eq hfits, if_neg hk]
  abis := withContract_abis ▸ List.prefix_rfl

/-- What a stored document leaves of the contracts. -/
theorem contract_stored (metadata : ContractMetadata) (source : AbiSourceRow) (w : World pg)
    (hfits : fitsBigInt m.chainId) :
    ∃ abi, (stored m metadata source w).abiOf metadata.abi = some abi ∧
      ∀ k, (stored m metadata source w).contract k =
        if k = (m.address,m.chainId) then some ((metadataChanges abi.id metadata).apply (loaded w m))
        else w.contract k := by
  obtain ⟨abi,habi⟩ : ∃ abi, (withAbi metadata source (withContract m w)).abiOf metadata.abi = some abi :=
    Option.ne_none_iff_exists'.mp (abiOf_withAbi _)
  refine ⟨abi,?_,fun k => ?_⟩
  · rw [stored, abiOf_withMetadata]
    exact habi
  · rw [stored, withBoth, contract_withMetadata habi, contract_withAbi, contract_withContract_eq hfits]
    by_cases hk : k = (m.address,m.chainId)
    · rw [if_pos hk, if_pos hk, if_pos hk]
      rfl
    · rw [if_neg hk, if_neg hk, if_neg hk]

theorem abis_stored (metadata : ContractMetadata) (source : AbiSourceRow) (w : World pg) :
    w.db.abis <+: (stored m metadata source w).db.abis := by
  have habis : (stored m metadata source w).db.abis = (withBoth m metadata source w).db.abis := by
    rw [stored, withMetadata]
    cases (withBoth m metadata source w).abiOf metadata.abi <;> rfl
  rw [habis, ← withContract_abis (m := m)]
  exact withAbi_prefix

theorem processed_stored (hfits : fitsBigInt m.chainId) {metadata : ContractMetadata}
    {source : AbiSourceRow} (haccepted : acceptedAbi w.db m = some (metadata,source)) :
    Processed m w true (stored m metadata source w) := by
  obtain ⟨abi,habi,hcontract⟩ := contract_stored metadata source w hfits
  refine
    { result := ?_
      stored := fun _ => ?_
      failed := nofun
      otherContracts := fun k hk => ?_
      abis := abis_stored metadata source w }
  · rw [complete_iff, haccepted]
    simp
  · refine ⟨metadata,abi,(metadataChanges abi.id metadata).apply (loaded w m),
      (acceptedAbi_eq_some haccepted).1,holdsAlone_of_abiOf habi,?_,rfl,rfl,rfl⟩
    rw [hcontract, if_pos rfl]
  · rw [hcontract, if_neg hk]

/-- A call that returns stores the document or counts a failed attempt, and nothing else. -/
theorem completes_processed (h : Redelivery.Completes m w (.ok r) w') : Processed m w r w' := by
  rcases completes_cases h with ⟨_,hr,_⟩ | ⟨hfits,hends⟩
  · cases hr
  cases hends with
  | failed hnone =>
    rw [acceptedAbi_withContract] at hnone
    rw [loaded_key]
    exact processed_failed hfits hnone
  | stored haccepted =>
    rw [acceptedAbi_withContract] at haccepted
    exact processed_stored hfits haccepted

theorem found_processed : Processed found withSource true
    (evaluate (Worker.processContractMetadata found) withSource active).2.1 :=
  completes_processed (completes_iff_evaluate.mpr ⟨active,rfl⟩)

/-- The explorers have nothing. -/
example : (evaluate (Worker.processContractMetadata { found with metadata := none }) withSource active).1 =
    .ok false := rfl

end Main

/-! ## The call as a function of the tables -/

section Tables
variable {metadata : ContractMetadata} {source : AbiSourceRow}

theorem withContract_nextAbiId : (withContract m w).nextAbiId = w.nextAbiId := by
  unfold withContract
  split <;> rfl

theorem getOrCreateContract_eq (hfits : fitsBigInt m.chainId) :
    w.db.getOrCreateContract w.nextContractId m.address m.chainId =
      .ok ((withContract m w).db,loaded w m) := by
  unfold Db.getOrCreateContract
  rw [if_pos hfits]
  cases hc : w.contract (m.address,m.chainId) with
  | some c =>
    rw [withContract_of_row (by simp [hc]), loaded, hc]
    rw [World.contract] at hc
    rw [hc]
    rfl
  | none =>
    have htakes : w.Takes (w.newContract m.address m.chainId {}) := contract_none_takes hfits hc
    rw [withContract, dif_pos htakes, loaded, hc]
    rw [World.contract] at hc
    have hinsert : w.db.insertContract (w.newContract m.address m.chainId {}) =
        .ok (w.addContract _ htakes).db := dif_neg htakes.1
    rw [hc]
    exact congrArg (Except.map fun db => (db,w.newContract m.address m.chainId {})) hinsert

theorem getOrCreateAbi_eq {abi : AbiRow}
    (habi : (withAbi metadata source w).abiOf metadata.abi = some abi) :
    w.db.getOrCreateAbi pg.abiHash w.nextAbiId metadata.abi source.id 0 =
      .ok ((withAbi metadata source w).db,abi) := by
  unfold Db.getOrCreateAbi
  cases hq : w.abiOf metadata.abi with
  | some q =>
    rw [withAbi_of_abi (by simp [hq]), hq] at habi
    cases habi
    rw [withAbi_of_abi (by simp [hq])]
    rw [World.abiOf] at hq
    rw [hq]
  | none =>
    have hfresh := (abiOf_eq_none w).mp hq
    have hnew : withAbi metadata source w = w.addAbi metadata.abi source.id 0 hfresh := dif_neg hfresh
    rw [hnew, abiOf_addAbi, if_pos rfl] at habi
    cases habi
    rw [World.abiOf] at hq
    have hinsert : w.db.insertAbi ⟨w.nextAbiId,0,metadata.abi,source.id⟩ =
        .ok (w.addAbi metadata.abi source.id 0 hfresh).db :=
      dif_neg (w.fresh_abi_id metadata.abi source.id 0)
    rw [hnew, hq]
    dsimp only
    rw [hinsert]
    rfl

theorem updateContract_db {k : ContractKey} {changes : ContractChanges} {c : ContractRow}
    (hc : w.contract k = some c) :
    w.db.updateContract (changes.apply c) = (w.updateContract k changes).db := by
  have hrows : (w.db.contracts.map fun d =>
      if d.key = (changes.apply c).key then changes.apply c else d) =
        w.db.contracts.map fun d => if d.key = k then changes.apply d else d := by
    apply List.map_congr_left
    intro d hd
    rw [ContractChanges.apply_key, contract_key w hc]
    by_cases hk : d.key = k
    · have hsame := contract_of_mem w hd
      rw [hk, hc] at hsame
      rw [if_pos hk, if_pos hk, Option.some.inj hsame]
    · rw [if_neg hk, if_neg hk]
  simp only [Db.updateContract, World.updateContract, World.mapContracts, hrows]

/-- A call of the task that returns is the function of the tables with the next two ids. -/
theorem completes_processContractMetadata (h : Redelivery.Completes m w (.ok r) w') :
    processContractMetadata pg.abiHash w.db w.nextContractId w.nextAbiId m = .ok (w'.db,r) := by
  rcases completes_cases h with ⟨_,hr,_⟩ | ⟨hfits,hends⟩
  · cases hr
  have hrow : (withContract m w).contract (m.address,m.chainId) = some (loaded w m) := by
    rw [contract_withContract_eq hfits, if_pos rfl]
  cases hends with
  | failed hnone =>
    rw [loaded_key, ← updateContract_db hrow]
    exact processContractMetadata_failed (getOrCreateContract_eq hfits) hnone
  | @stored metadata source haccepted =>
    obtain ⟨abi,habi⟩ := Option.ne_none_iff_exists'.mp
      (@abiOf_withAbi _ metadata source (withContract m w))
    have hkept : (withAbi metadata source (withContract m w)).contract (m.address,m.chainId) =
        some (loaded w m) := (contract_withAbi _).trans hrow
    have hstored := getOrCreateAbi_eq habi
    rw [withContract_nextAbiId] at hstored
    rw [withMetadata, habi, Option.elim_some, ← updateContract_db hkept]
    exact processContractMetadata_stored (getOrCreateContract_eq hfits) haccepted hstored

end Tables
end SafeDecoder.Processing
