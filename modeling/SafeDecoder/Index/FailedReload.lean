import SafeDecoder.Data.ReferencePackages
import SafeDecoder.Decoder.Reload

/-! # What a reload that ends early leaves to the next one

The cursor moves before the rows are read. A reload that is interrupted after
that point leaves nothing pending, so the rows it had not read come back only if
their selectors are in the index already.
-/
namespace SafeDecoder.FailedReload
open Effects SelectorIndex
variable {L : Externals} {C : Caches} {abis order : List AbiRow} {failure : Option Failure}
  {s : Service C}

/-- Whatever the interrupted reload was about to load is in the index after
every later reload of the same table that completes. -/
def Recovers (L : Externals) (abis order : List AbiRow) (failure : Option Failure) (s : Service C) :
    Prop :=
  ∀ order', IsRelevanceOrder abis order' → ∀ t,
    Completes L (AbiQueries.ofTable abis order')
        (finalState (loadNewAbis L failure (AbiQueries.ofTable abis order) s)) t →
      ∀ abi ∈ pendingAbis (AbiQueries.ofTable abis order) s.lastAbiId, ∀ k ∈ selectors L abi,
        k ∈ t.fnSelectorsWithAbis

/-- Every selector that was pending is in the index or among the ABIs that were
added before the end. -/
def Covered (L : Externals) (abis order : List AbiRow) (failure : Option Failure) (s : Service C) :
    Prop :=
  ∀ abi ∈ pendingAbis (AbiQueries.ofTable abis order) s.lastAbiId, ∀ k ∈ selectors L abi,
    k ∈ s.fnSelectorsWithAbis ∨
      ∃ added ∈ loadedAbis L failure 0 (pendingAbis (AbiQueries.ofTable abis order) s.lastAbiId),
        k ∈ selectors L added

/-- The order of a stream does not change what is pending. -/
theorem mem_pendingAbis_of_orders {order' : List AbiRow} (ho : IsRelevanceOrder abis order)
    (ho' : IsRelevanceOrder abis order') (last : Option ℕ) (abi : Json) :
    abi ∈ pendingAbis (AbiQueries.ofTable abis order') last ↔
      abi ∈ pendingAbis (AbiQueries.ofTable abis order) last := by
  cases last with
  | none => exact (((ho'.1.trans ho.1.symm).map AbiRow.abiJson).mem_iff)
  | some n => exact Iff.rfl

/-- Once the cursor is at the last id of a table nothing of that table is pending. -/
theorem pendingAbis_getLastInsertedId (ho : IsRelevanceOrder abis order) :
    pendingAbis (AbiQueries.ofTable abis order) (getLastInsertedId abis) = [] := by
  cases h : getLastInsertedId abis with
  | none =>
    have hempty : order = [] := by
      have hp := ho.1
      rw [getLastInsertedId_eq_none.mp h] at hp
      exact hp.eq_nil
    simp only [pendingAbis, AbiQueries.ofTable, hempty, List.map_nil]
  | some n => simp [pendingAbis, AbiQueries.ofTable, h]

/-- After an interrupted reload that had moved the cursor, a later reload of the
same table completes and changes nothing. -/
theorem completes_after_failure {order' : List AbiRow} (ho' : IsRelevanceOrder abis order')
    (hlock : s.lockLoadNewAbis = false) (t : Service C) :
    Completes L (AbiQueries.ofTable abis order')
        (s.reloaded L failure (AbiQueries.ofTable abis order)) t ↔
      t = s.reloaded L failure (AbiQueries.ofTable abis order) := by
  have hnone : pendingAbis (AbiQueries.ofTable abis order')
      (s.reloaded L failure (AbiQueries.ofTable abis order)).lastAbiId = [] :=
    pendingAbis_getLastInsertedId ho'
  have hsame : (s.reloaded L failure (AbiQueries.ofTable abis order)).reloaded L none
      (AbiQueries.ofTable abis order') = s.reloaded L failure (AbiQueries.ofTable abis order) := by
    rw [Service.reloaded, hnone]
    rfl
  rw [completes_iff, hnone, hsame]
  constructor
  · exact fun h => h.2.2
  · exact fun h => ⟨hlock,fun abi ha => absurd ha List.not_mem_nil,h⟩

/-- An interrupted reload is made up for exactly when the cursor had not moved
or nothing of what was left out is missing from the index. -/
theorem recovers_iff (ho : IsRelevanceOrder abis order) (hlock : s.lockLoadNewAbis = false) :
    Recovers L abis order failure s ↔
      failsEarly failure = true ∨ Covered L abis order failure s := by
  have hstate : finalState (loadNewAbis L failure (AbiQueries.ofTable abis order) s) = _ :=
    loadNewAbis_finalState (AbiQueries.ofTable abis order) hlock
  by_cases hearly : failsEarly failure = true
  · rw [if_pos hearly] at hstate
    refine ⟨fun _ => Or.inl hearly,fun _ order' ho' t ht abi ha k hk => ?_⟩
    rw [hstate] at ht
    exact ht.mem.mpr (Or.inr ⟨abi,(mem_pendingAbis_of_orders ho ho' _ abi).mpr ha,hk⟩)
  · rw [if_neg hearly] at hstate
    have hmem : ∀ k, k ∈ (s.reloaded L failure (AbiQueries.ofTable abis order)).fnSelectorsWithAbis ↔
        k ∈ s.fnSelectorsWithAbis ∨ ∃ added ∈ loadedAbis L failure 0
          (pendingAbis (AbiQueries.ofTable abis order) s.lastAbiId), k ∈ selectors L added :=
      fun k => Dict.mem_mergeFirst (selectors L)
    constructor
    · intro h
      refine Or.inr fun abi ha k hk => (hmem k).mp (h order ho _ ?_ abi ha k hk)
      rw [hstate]
      exact (completes_after_failure ho hlock _).mpr rfl
    · rintro (he | hcov) order' ho' t ht abi ha k hk
      · exact absurd he hearly
      · rw [hstate] at ht
        rw [(completes_after_failure ho' hlock t).mp ht]
        exact (hmem k).mpr (hcov abi ha k hk)

section Runs
open Reference

/-- One ABI is in the table when a service that started on an empty table reloads. -/
def oneAbi : List AbiRow := [⟨1,0,.arr [approveErc20],1⟩]

def startedEmpty : Service Caches.leastRecentlyUsed := Service.fresh ∅ ∅ none

theorem oneAbi_order : IsRelevanceOrder oneAbi oneAbi := ⟨List.Perm.refl _,List.pairwise_singleton _ _⟩

/-- The database raises before the first row: the ABI stays out of the index for good. -/
theorem not_recovers_stream_failure :
    ¬ Recovers packages oneAbi oneAbi (some ⟨.stream 0,.dbApiError⟩) startedEmpty := by
  intro h
  have hstate : finalState (loadNewAbis packages (some ⟨.stream 0,.dbApiError⟩)
      (AbiQueries.ofTable oneAbi oneAbi) startedEmpty) = Service.fresh ∅ ∅ (some 1) := rfl
  have hlater : Completes packages (AbiQueries.ofTable oneAbi oneAbi)
      (Service.fresh ∅ ∅ (some 1) : Service Caches.leastRecentlyUsed)
      (Service.fresh ∅ ∅ (some 1)) := ⟨0,rfl⟩
  rw [← hstate] at hlater
  have hk : ([0x09, 0x5e, 0xa7, 0xb3] : Bytes) ∈ selectors packages (.arr [approveErc20]) := by
    decide
  have hlost := h oneAbi oneAbi_order _ hlater _ (List.mem_singleton_self _) _ hk
  exact absurd hlost (AList.notMem_empty _)

/-- Two ABIs that define one selector. -/
def twoAbis : List AbiRow := [⟨1,5,.arr [approveErc20],1⟩, ⟨2,10,.arr [approveErc721],1⟩]

theorem twoAbis_order : IsRelevanceOrder twoAbis twoAbis :=
  ⟨List.Perm.refl _,List.pairwise_pair.mpr (by decide)⟩

theorem selectors_approve : (selectors packages (.arr [approveErc721])).keys =
    (selectors packages (.arr [approveErc20])).keys := by decide

/-- The database raises after the first row. The reload goes through again, and the second ABI has
nothing that the first one did not bring. -/
theorem recovers_stream_failure :
    finalState (loadNewAbis packages (some ⟨.stream 1,.dbApiError⟩)
      (AbiQueries.ofTable twoAbis twoAbis) startedEmpty) ≠ startedEmpty ∧
    Recovers packages twoAbis twoAbis (some ⟨.stream 1,.dbApiError⟩) startedEmpty := by
  refine ⟨fun hsame => ?_,(recovers_iff twoAbis_order rfl).mpr (.inr fun abi ha k hk => .inr ?_)⟩
  · have hcursor : (finalState (loadNewAbis packages (some ⟨.stream 1,.dbApiError⟩)
        (AbiQueries.ofTable twoAbis twoAbis) startedEmpty)).lastAbiId = some 2 := rfl
    rw [hsame] at hcursor
    cases hcursor
  · refine ⟨.arr [approveErc20],List.mem_cons_self,?_⟩
    rcases List.mem_pair.mp ha with rfl | rfl
    · exact hk
    · have hkeys : k ∈ (selectors packages (.arr [approveErc721])).keys := AList.mem_keys.mp hk
      rw [selectors_approve] at hkeys
      exact AList.mem_keys.mpr hkeys

end Runs
end SafeDecoder.FailedReload
