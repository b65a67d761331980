import Mathlib.Data.List.Sort
import Mathlib.Order.Basic

/-! # Which element of a ranked stream answers

`ask` is a question that some elements of a stream answer. A stream sorted by
rank is read from either end: the last element that answers has the greatest
rank among those that do, the first one the least. When ranks tie, the sorted
streams of one multiset disagree exactly when the elements of greatest rank do.
-/
namespace SafeDecoder.RankedStream
variable {R V ρ : Type*} [LinearOrder ρ]

/-- A stream whose ranks never decrease. -/
def Sorted (rank : R → ρ) (l : List R) : Prop := l.Pairwise fun a b => rank a ≤ rank b

/-- The orders in which a table may be streamed when it is sorted by rank only. -/
def IsOrder (rank : R → ρ) (rows order : List R) : Prop := order.Perm rows ∧ Sorted rank order

/-- `v` is the answer of an element whose rank no other answering element exceeds. -/
def Top (rank : R → ρ) (ask : R → Option V) (rows : List R) (v : V) : Prop :=
  ∃ r ∈ rows, ask r = some v ∧ ∀ r' ∈ rows, (ask r').isSome → rank r' ≤ rank r

variable {rank : R → ρ} {ask : R → Option V}

theorem Top.of_perm {rows rows' : List R} (hp : rows.Perm rows') {v : V}
    (h : Top rank ask rows v) : Top rank ask rows' v := by
  obtain ⟨r,hr,hv,hmax⟩ := h
  exact ⟨r,hp.mem_iff.mp hr,hv,fun r' hr' => hmax r' (hp.mem_iff.mpr hr')⟩

/-- Every table has an admissible order. -/
theorem exists_isOrder (rank : R → ρ) (rows : List R) : ∃ order, IsOrder rank rows order := by
  have : Std.Total (fun a b : R => rank a ≤ rank b) := ⟨fun a b => le_total _ _⟩
  have : IsTrans R (fun a b => rank a ≤ rank b) := ⟨fun a b c => le_trans⟩
  exact ⟨_,List.perm_insertionSort (fun a b => rank a ≤ rank b) rows,
    List.pairwise_insertionSort _ _⟩

/-- A new element that some answering element matches in rank leaves the top answers at the top. -/
theorem Top.append {rows : List R} {v : V} {r : R} (h : Top rank ask rows v)
    (hr : (ask r).isSome → ∃ r' ∈ rows, (ask r').isSome ∧ rank r ≤ rank r') :
    Top rank ask (rows ++ [r]) v := by
  obtain ⟨r₀,hr₀,hv,hmax⟩ := h
  refine ⟨r₀,List.mem_append_left _ hr₀,hv,?_⟩
  intro r' hr' hsome
  rcases List.mem_append.mp hr' with hold | hnew
  · exact hmax r' hold hsome
  · rw [List.mem_singleton.mp hnew] at hsome ⊢
    obtain ⟨q,hq,hqsome,hle⟩ := hr hsome
    exact hle.trans (hmax q hq hqsome)

/-- Two top answers come from elements of one rank. -/
theorem Top.rank_eq {rows : List R} {v v' : V} (h : Top rank ask rows v)
    (h' : Top rank ask rows v') :
    ∃ r ∈ rows, ∃ r' ∈ rows, ask r = some v ∧ ask r' = some v' ∧ rank r = rank r' := by
  obtain ⟨r,hr,hv,hmax⟩ := h
  obtain ⟨r',hr',hv',hmax'⟩ := h'
  exact ⟨r,hr,r',hr',hv,hv',le_antisymm (hmax' r hr (Option.isSome_of_eq_some hv))
    (hmax r' hr' (Option.isSome_of_eq_some hv'))⟩

/-- The last element of a sorted stream that answers has the greatest rank. -/
theorem top_of_last {l : List R} (hs : Sorted rank l) {v : V}
    (h : l.reverse.findSome? ask = some v) : Top rank ask l v := by
  obtain ⟨after,r,before,hl,hv,hnone⟩ := List.findSome?_eq_some_iff.mp h
  have hsplit : l = before.reverse ++ r :: after.reverse := by
    rw [← List.reverse_reverse l, hl]
    simp
  subst hsplit
  refine ⟨r,by simp,hv,?_⟩
  intro r' hr' hsome
  rcases List.mem_append.mp hr' with hb | ha
  · exact (List.pairwise_append.mp hs).2.2 r' hb r (List.mem_cons_self ..)
  · rcases List.mem_cons.mp ha with rfl | ha
    · exact le_rfl
    · rw [hnone r' (List.mem_reverse.mp ha)] at hsome
      cases hsome

/-- The first element of a sorted stream that answers has the least rank. -/
theorem least_of_first {l : List R} (hs : Sorted rank l) {v : V} (h : l.findSome? ask = some v) :
    ∃ r ∈ l, ask r = some v ∧ ∀ r' ∈ l, (ask r').isSome → rank r ≤ rank r' := by
  obtain ⟨before,r,after,rfl,hv,hnone⟩ := List.findSome?_eq_some_iff.mp h
  refine ⟨r,by simp,hv,?_⟩
  intro r' hr' hsome
  rcases List.mem_append.mp hr' with hb | ha
  · rw [hnone r' hb] at hsome
    cases hsome
  · rcases List.mem_cons.mp ha with rfl | ha
    · exact le_rfl
    · exact (List.pairwise_cons.mp (List.pairwise_append.mp hs).2.1).1 r' ha

theorem exists_last_of_isSome {l : List R} {r : R} (hr : r ∈ l) (h : (ask r).isSome) :
    ∃ v, l.reverse.findSome? ask = some v := by
  have hs : (l.reverse.findSome? ask).isSome :=
    List.findSome?_isSome_iff.mpr ⟨r,List.mem_reverse.mpr hr,h⟩
  exact Option.isSome_iff_exists.mp hs

/-- Every answer of greatest rank is the last one in some admissible order. -/
theorem exists_order_of_top {rows : List R} {v : V} (h : Top rank ask rows v) :
    ∃ order, IsOrder rank rows order ∧ order.reverse.findSome? ask = some v := by
  obtain ⟨r,hr,hv,hmax⟩ := h
  obtain ⟨front,back,rfl⟩ := List.append_of_mem hr
  let low := (front ++ back).filter fun r' => decide (rank r' ≤ rank r)
  let high := (front ++ back).filter fun r' => !decide (rank r' ≤ rank r)
  let sort := List.insertionSort fun a b => rank a ≤ rank b
  have hsort : ∀ l, Sorted rank (sort l) := fun l =>
    haveI : Std.Total (fun a b : R => rank a ≤ rank b) := ⟨fun a b => le_total _ _⟩
    haveI : IsTrans R (fun a b => rank a ≤ rank b) := ⟨fun a b c => le_trans⟩
    List.pairwise_insertionSort _ l
  have hmem : ∀ l r', r' ∈ sort l ↔ r' ∈ l := fun l r' => (List.perm_insertionSort _ l).mem_iff
  have hlow : ∀ r' ∈ sort low, rank r' ≤ rank r := by
    intro r' hr'
    simpa using (List.mem_filter.mp ((hmem _ _).mp hr')).2
  have hhigh : ∀ r' ∈ sort high, r' ∈ front ++ back ∧ rank r < rank r' := by
    intro r' hr'
    have h := List.mem_filter.mp ((hmem _ _).mp hr')
    exact ⟨h.1,by simpa using h.2⟩
  have hperm : (sort low ++ r :: sort high).Perm (front ++ r :: back) := by
    have hparts : (sort low ++ sort high).Perm (front ++ back) :=
      ((List.perm_insertionSort _ low).append (List.perm_insertionSort _ high)).trans
        (List.filter_append_perm _ (front ++ back))
    exact (List.perm_middle.trans (hparts.cons r)).trans List.perm_middle.symm
  refine ⟨sort low ++ r :: sort high,⟨hperm,?_⟩,?_⟩
  · refine List.pairwise_append.mpr ⟨hsort low,List.pairwise_cons.mpr ⟨?_,hsort high⟩,?_⟩
    · intro r' hr'
      exact (hhigh r' hr').2.le
    · intro a ha b hb
      rcases List.mem_cons.mp hb with rfl | hb
      · exact hlow a ha
      · exact (hlow a ha).trans (hhigh b hb).2.le
  · have hnone : (sort high).reverse.findSome? ask = none := by
      rw [List.findSome?_eq_none_iff]
      intro r' hr'
      obtain ⟨hin,hlt⟩ := hhigh r' (List.mem_reverse.mp hr')
      by_contra hne
      have hle := hmax r' (by
        rcases List.mem_append.mp hin with h | h <;> simp [h]) (Option.isSome_iff_ne_none.mpr hne)
      exact absurd hlt (not_lt.mpr hle)
    rw [List.reverse_append, List.reverse_cons, List.append_assoc, List.findSome?_append, hnone]
    simp [hv]

/-- All admissible orders give one answer exactly when all the answers of
greatest rank are equal. -/
theorem last_order_independent_iff (rows : List R) :
    (∀ o o', IsOrder rank rows o → IsOrder rank rows o' →
        o.reverse.findSome? ask = o'.reverse.findSome? ask) ↔
      ∀ v v', Top rank ask rows v → Top rank ask rows v' → v = v' := by
  constructor
  · intro h v v' hv hv'
    obtain ⟨o,ho,he⟩ := exists_order_of_top hv
    obtain ⟨o',ho',he'⟩ := exists_order_of_top hv'
    exact Option.some.inj (he.symm.trans ((h o o' ho ho').trans he'))
  · intro h o o' ho ho'
    cases he : o.reverse.findSome? ask with
    | none =>
      rw [eq_comm, List.findSome?_eq_none_iff]
      intro r hr
      rw [List.findSome?_eq_none_iff] at he
      apply he r
      rw [List.mem_reverse, ho.1.mem_iff]
      rw [List.mem_reverse, ho'.1.mem_iff] at hr
      exact hr
    | some v =>
      have hv := (top_of_last ho.2 he).of_perm ho.1
      have htop := hv
      obtain ⟨r,hr,hrv,_⟩ := htop
      have hsome : (ask r).isSome := Option.isSome_of_eq_some hrv
      obtain ⟨v',he'⟩ := exists_last_of_isSome (ho'.1.mem_iff.mpr hr) hsome
      have hv' := (top_of_last ho'.2 he').of_perm ho'.1
      rw [he', h v v' hv hv']

end SafeDecoder.RankedStream
