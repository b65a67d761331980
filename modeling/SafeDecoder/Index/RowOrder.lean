import SafeDecoder.Data.ReferencePackages
import SafeDecoder.Decoder.Reload

/-! # Which row answers for a selector after one pass over the table

`init` lets the last row of the stream answer and a first load lets the first
one answer. Both read the same stream, sorted by relevance only, so they differ
when rows collide, and `init` itself depends on how rows of one relevance are
arranged.
-/
namespace SafeDecoder.RowOrder
open SelectorIndex RankedStream
variable {L : Externals} {C : Caches} {abis order : List AbiRow}

/-- The function that a row gives for a selector. -/
def definition (L : Externals) (k : Bytes) (r : AbiRow) : Option Json :=
  (selectors L r.abiJson).lookup k

/-- The functions of an index come from rows of greatest relevance. -/
def MostRelevant (L : Externals) (abis : List AbiRow) (index : Dict Bytes Json) : Prop :=
  ∀ k v, index.lookup k = some v → Top AbiRow.relevance (definition L k) abis v

theorem definition_isSome {k : Bytes} {r : AbiRow} :
    (definition L k r).isSome ↔ k ∈ selectors L r.abiJson := AList.lookup_isSome

theorem init_exists (hall : ∀ r ∈ abis, Loadable L r.abiJson) (hmulti : Loadable L L.multiSendAbi)
    (ho : IsRelevanceOrder abis order) (last : Option ℕ) :
    ∃ s : Service C, init L last (order.map AbiRow.abiJson) = .ok s := by
  refine ⟨_,init_eq_ok_iff.mpr ⟨?_,hmulti,rfl⟩⟩
  intro abi ha
  obtain ⟨r,hr,rfl⟩ := List.mem_map.mp ha
  exact hall r (ho.1.mem_iff.mp hr)

/-- After `init` the last row of the stream answers. -/
theorem init_lookup {last : Option ℕ} {s : Service C}
    (h : init L last (order.map AbiRow.abiJson) = .ok s) (k : Bytes) :
    s.fnSelectorsWithAbis.lookup k = order.reverse.findSome? (definition L k) := by
  obtain ⟨_,_,rfl⟩ := init_eq_ok_iff.mp h
  change (Dict.mergeLast (selectors L) ∅ (order.map AbiRow.abiJson)).lookup k = _
  rw [Dict.lookup_mergeLast, AList.lookup_empty, Option.or_none, ← List.map_reverse,
    List.findSome?_map]
  rfl

theorem init_mostRelevant (ho : IsRelevanceOrder abis order) {last : Option ℕ} {s : Service C}
    (h : init L last (order.map AbiRow.abiJson) = .ok s) :
    MostRelevant L abis s.fnSelectorsWithAbis := by
  intro k v hv
  rw [init_lookup h] at hv
  exact (top_of_last ho.2 hv).of_perm ho.1

section FirstLoad

/-- A service that started on the empty table and then loaded this one has the
index of a service that started on it, with the most relevant functions. -/
def FirstLoadAgrees (L : Externals) (C : Caches) (abis order : List AbiRow) : Prop :=
  ∀ started loaded initialised : Service C, init L none [] = .ok started →
    Completes L (AbiQueries.ofTable abis order) started loaded →
    init L (getLastInsertedId abis) (order.map AbiRow.abiJson) = .ok initialised →
      (∀ k, loaded.fnSelectorsWithAbis.lookup k = initialised.fnSelectorsWithAbis.lookup k) ∧
        MostRelevant L abis loaded.fnSelectorsWithAbis ∧
        MostRelevant L abis initialised.fnSelectorsWithAbis

/-- After a first load the first row of the stream answers. -/
theorem firstLoad_lookup {started loaded : Service C} (hs : init L none [] = .ok started)
    (hl : Completes L (AbiQueries.ofTable abis order) started loaded) (k : Bytes) :
    loaded.fnSelectorsWithAbis.lookup k = order.findSome? (definition L k) := by
  obtain ⟨_,_,rfl⟩ := init_eq_ok_iff.mp hs
  rw [hl.lookup]
  change (AList.lookup k (∅ : Dict Bytes Json)).or
    ((order.map AbiRow.abiJson).findSome? fun abi => (selectors L abi).lookup k) = _
  rw [AList.lookup_empty, Option.none_or, List.findSome?_map]
  rfl

theorem firstLoad_exists (hall : ∀ r ∈ abis, Loadable L r.abiJson)
    (hmulti : Loadable L L.multiSendAbi) (ho : IsRelevanceOrder abis order) :
    ∃ started loaded : Service C, init L none [] = .ok started ∧
      Completes L (AbiQueries.ofTable abis order) started loaded := by
  refine ⟨_,_,init_eq_ok_iff.mpr ⟨fun abi h => absurd h List.not_mem_nil,hmulti,rfl⟩,
    completes_iff.mpr ⟨rfl,?_,rfl⟩⟩
  intro abi ha
  obtain ⟨r,hr,rfl⟩ := List.mem_map.mp ha
  exact hall r (ho.1.mem_iff.mp hr)

/-- The first load agrees with `init` exactly when, for every selector, the first
and the last row of the stream that define it give one function. -/
theorem firstLoadAgrees_iff (hall : ∀ r ∈ abis, Loadable L r.abiJson)
    (hmulti : Loadable L L.multiSendAbi) (ho : IsRelevanceOrder abis order) :
    FirstLoadAgrees L C abis order ↔
      ∀ k, order.findSome? (definition L k) = order.reverse.findSome? (definition L k) := by
  constructor
  · intro h k
    obtain ⟨started,loaded,hs,hl⟩ := firstLoad_exists (C := C) hall hmulti ho
    obtain ⟨initialised,hi⟩ := init_exists (C := C) hall hmulti ho (getLastInsertedId abis)
    rw [← firstLoad_lookup hs hl, ← init_lookup hi]
    exact (h started loaded initialised hs hl hi).1 k
  · intro h started loaded initialised hs hl hi
    have hsame : ∀ k, loaded.fnSelectorsWithAbis.lookup k =
        initialised.fnSelectorsWithAbis.lookup k := by
      intro k
      rw [firstLoad_lookup hs hl, init_lookup hi, h k]
    have htop := init_mostRelevant ho hi
    refine ⟨hsame,fun k v hv => ?_,htop⟩
    rw [hsame k] at hv
    exact htop k v hv

end FirstLoad

section Ties

/-- Every order that the database may return gives the same index. -/
def InitDeterministic (L : Externals) (C : Caches) (abis : List AbiRow) : Prop :=
  ∀ order order', IsRelevanceOrder abis order → IsRelevanceOrder abis order' →
    ∀ s s' : Service C, init L (getLastInsertedId abis) (order.map AbiRow.abiJson) = .ok s →
      init L (getLastInsertedId abis) (order'.map AbiRow.abiJson) = .ok s' →
        ∀ k, s.fnSelectorsWithAbis.lookup k = s'.fnSelectorsWithAbis.lookup k

/-- `init` is independent of the order exactly when, for every selector, all the
most relevant rows that define it give one function. -/
theorem initDeterministic_iff (hall : ∀ r ∈ abis, Loadable L r.abiJson)
    (hmulti : Loadable L L.multiSendAbi) :
    InitDeterministic L C abis ↔
      ∀ k v v', Top AbiRow.relevance (definition L k) abis v →
        Top AbiRow.relevance (definition L k) abis v' → v = v' := by
  constructor
  · intro h k
    apply (last_order_independent_iff abis).mp
    intro order order' ho ho'
    obtain ⟨s,hs⟩ := init_exists (C := C) hall hmulti ho (getLastInsertedId abis)
    obtain ⟨s',hs'⟩ := init_exists (C := C) hall hmulti ho' (getLastInsertedId abis)
    rw [← init_lookup hs, ← init_lookup hs']
    exact h order order' ho ho' s s' hs hs' k
  · intro h order order' ho ho' s s' hs hs' k
    rw [init_lookup hs, init_lookup hs']
    exact (last_order_independent_iff abis).mpr (h k) order order' ho ho'

end Ties

section Tables
open Reference

/-- The selector of `approve`, which both token standards define. -/
def approveSelector : Bytes := [0x09, 0x5e, 0xa7, 0xb3]

def erc721Row (relevance : Int) : AbiRow := ⟨1,relevance,.arr [approveErc721],1⟩
def erc20Row (relevance : Int) : AbiRow := ⟨2,relevance,.arr [approveErc20],1⟩

theorem definition_erc20 (n : Int) :
    definition packages approveSelector (erc20Row n) = some approveErc20 := rfl

theorem loadable_rows (m n : Int) :
    ∀ r ∈ [erc721Row m, erc20Row n], Loadable packages r.abiJson := by
  intro r hr
  rcases List.mem_cons.mp hr with rfl | hr
  · exact ⟨_,rfl⟩
  · rw [List.mem_singleton.mp hr]
    exact ⟨_,rfl⟩

theorem loadable_multiSendAbi : Loadable packages packages.multiSendAbi := ⟨_,rfl⟩

theorem rows_order {m n : Int} (h : m ≤ n) :
    IsRelevanceOrder [erc721Row m, erc20Row n] [erc721Row m, erc20Row n] :=
  ⟨List.Perm.refl _,List.pairwise_pair.mpr h⟩

/-- The most relevant row defines `approve`, and a first load takes the other one. -/
theorem not_firstLoadAgrees_collision :
    ¬ FirstLoadAgrees packages Caches.leastRecentlyUsed [erc721Row 0, erc20Row 100]
      [erc721Row 0, erc20Row 100] := by
  intro h
  have ho := rows_order (show (0 : Int) ≤ 100 by decide)
  obtain ⟨started,loaded,hs,hl⟩ :=
    firstLoad_exists (C := Caches.leastRecentlyUsed) (loadable_rows 0 100) loadable_multiSendAbi ho
  obtain ⟨initialised,hi⟩ := init_exists (C := Caches.leastRecentlyUsed) (loadable_rows 0 100)
    loadable_multiSendAbi ho (getLastInsertedId [erc721Row 0, erc20Row 100])
  have hk := (h started loaded initialised hs hl hi).1 approveSelector
  rw [firstLoad_lookup hs hl, init_lookup hi] at hk
  exact approveErc721_ne (Option.some.inj hk)

/-- A third row defines `approve` like the second one, and a function of its own. -/
def pausableRow (relevance : Int) : AbiRow := ⟨3,relevance,.arr [approveErc20, pauseFunction],1⟩

theorem keys_rows (n : Int) : (selectors packages (erc721Row n).abiJson).keys = [approveSelector] ∧
    (selectors packages (erc20Row n).abiJson).keys = [approveSelector] ∧
    (selectors packages (pausableRow n).abiJson).keys = [[0x84, 0x56, 0xcb, 0x59],approveSelector] :=
  ⟨rfl,rfl,rfl⟩

/-- No other selector is defined. -/
theorem definition_unknown {k : Bytes} (happrove : k ≠ approveSelector)
    (hpause : k ≠ [0x84, 0x56, 0xcb, 0x59]) (n : Int) : definition packages k (erc721Row n) = none ∧
      definition packages k (erc20Row n) = none ∧ definition packages k (pausableRow n) = none := by
  obtain ⟨h721,h20,hpausable⟩ := keys_rows n
  refine ⟨?_,?_,?_⟩
  · exact AList.lookup_eq_none.mpr (by simp [AList.mem_keys, h721, happrove])
  · exact AList.lookup_eq_none.mpr (by simp [AList.mem_keys, h20, happrove])
  · exact AList.lookup_eq_none.mpr (by simp [AList.mem_keys, hpausable, happrove, hpause])

theorem loadable_pausable (n : Int) : Loadable packages (pausableRow n).abiJson := ⟨_,rfl⟩

/-- The rows at both ends define `approve` alike, and the one between them does not. -/
theorem firstLoadAgrees_collision :
    FirstLoadAgrees packages Caches.leastRecentlyUsed [pausableRow 0, erc721Row 50, erc20Row 100]
      [pausableRow 0, erc721Row 50, erc20Row 100] := by
  have horder : IsRelevanceOrder [pausableRow 0, erc721Row 50, erc20Row 100]
      [pausableRow 0, erc721Row 50, erc20Row 100] := by
    refine ⟨List.Perm.refl _,List.pairwise_cons.mpr ⟨fun r hr => ?_,List.pairwise_pair.mpr ?_⟩⟩
    · rcases List.mem_pair.mp hr with rfl | rfl <;> decide
    · decide
  have hall : ∀ r ∈ [pausableRow 0, erc721Row 50, erc20Row 100], Loadable packages r.abiJson :=
    List.forall_mem_cons.mpr ⟨loadable_pausable 0,loadable_rows 50 100⟩
  refine (firstLoadAgrees_iff hall loadable_multiSendAbi horder).mpr fun k => ?_
  by_cases happrove : k = approveSelector
  · subst happrove
    rfl
  by_cases hpause : k = [0x84, 0x56, 0xcb, 0x59]
  · subst hpause
    rfl
  simp [definition_unknown happrove hpause]

/-- Two rows of one relevance: each of the two orders is admissible. -/
theorem not_initDeterministic_tie :
    ¬ InitDeterministic packages Caches.leastRecentlyUsed [erc721Row 90, erc20Row 90] := by
  intro h
  have ho := rows_order (le_refl (90 : Int))
  have ho' : IsRelevanceOrder [erc721Row 90, erc20Row 90] [erc20Row 90, erc721Row 90] :=
    ⟨List.Perm.swap _ _ _,List.pairwise_pair.mpr (le_refl (90 : Int))⟩
  have hall := loadable_rows 90 90
  obtain ⟨s,hs⟩ := init_exists (C := Caches.leastRecentlyUsed) hall loadable_multiSendAbi ho
    (getLastInsertedId [erc721Row 90, erc20Row 90])
  obtain ⟨s',hs'⟩ := init_exists (C := Caches.leastRecentlyUsed) hall loadable_multiSendAbi ho'
    (getLastInsertedId [erc721Row 90, erc20Row 90])
  have hk := h _ _ ho ho' s s' hs hs' approveSelector
  rw [init_lookup hs, init_lookup hs'] at hk
  exact approveErc721_ne (Option.some.inj hk).symm

/-- Two rows of one relevance define `approve` alike, and outrank the one that does not. -/
theorem initDeterministic_tie :
    InitDeterministic packages Caches.leastRecentlyUsed [erc721Row 0, erc20Row 90, pausableRow 90] := by
  have hall : ∀ r ∈ [erc721Row 0, erc20Row 90, pausableRow 90], Loadable packages r.abiJson := by
    intro r hr
    rcases List.mem_cons.mp hr with rfl | hr
    · exact loadable_rows 0 90 _ (List.mem_cons_self ..)
    · rcases List.mem_pair.mp hr with rfl | rfl
      · exact loadable_rows 0 90 _ (by simp)
      · exact loadable_pausable 90
  refine (initDeterministic_iff hall loadable_multiSendAbi).mpr ?_
  -- whatever tops the table is what the second or the third row says
  have htop : ∀ k v, Top AbiRow.relevance (definition packages k)
      [erc721Row 0, erc20Row 90, pausableRow 90] v → definition packages k (pausableRow 90) = some v := by
    rintro k v ⟨r,hr,hv,hmax⟩
    by_cases happrove : k = approveSelector
    · subst happrove
      have hle := hmax (erc20Row 90) (by simp) rfl
      rcases List.mem_cons.mp hr with rfl | hr
      · exact absurd hle (by decide)
      · rcases List.mem_pair.mp hr with rfl | rfl
        · exact hv
        · exact hv
    by_cases hpause : k = [0x84, 0x56, 0xcb, 0x59]
    · subst hpause
      rcases List.mem_cons.mp hr with rfl | hr
      · cases hv
      · rcases List.mem_pair.mp hr with rfl | rfl
        · cases hv
        · exact hv
    · have hnone := definition_unknown happrove hpause
      rcases List.mem_cons.mp hr with rfl | hr
      · rw [(hnone 0).1] at hv
        cases hv
      · rcases List.mem_pair.mp hr with rfl | rfl
        · rw [(hnone 90).2.1] at hv
          cases hv
        · exact hv
  intro k v v' h h'
  exact Option.some.inj ((htop k v h).symm.trans (htop k v' h'))

end Tables
end SafeDecoder.RowOrder
