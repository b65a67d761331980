import Mathlib.Data.List.AList

/-! # Dictionaries and the two policies for a repeated key

A dictionary is a finite map with one entry for each key. A stream of pairs can
be read into it in two ways: `update` lets a later pair replace an earlier one,
`fillMissing` keeps whatever is already there. The two lookup laws below say
which pair of the stream answers for a key, and everything else about merged
dictionaries is derived from them.
-/
namespace SafeDecoder

/-- A finite map with one entry for each key. -/
abbrev Dict (K V : Type*) := AList (fun _ : K => V)

namespace Dict
variable {K V R : Type*} [DecidableEq K]

def items (d : Dict K V) : List (K × V) := d.entries.map fun e => (e.1, e.2)

/-- Read a stream of pairs into `d`: a later pair replaces an earlier one. -/
def update (d : Dict K V) (l : List (K × V)) : Dict K V :=
  l.foldl (fun d p => d.insert p.1 p.2) d

/-- The dictionary of a stream of pairs. -/
def ofList (l : List (K × V)) : Dict K V := update ∅ l

/-- Add one pair only if its key is new. -/
def setMissing (d : Dict K V) (p : K × V) : Dict K V :=
  if p.1 ∈ d then d else d.insert p.1 p.2

/-- Read a stream of pairs into `d`: a key that is present keeps its value. -/
def fillMissing (d : Dict K V) (l : List (K × V)) : Dict K V := l.foldl setMissing d

theorem lookup_cons_ite (p : K × V) (l : List (K × V)) (k : K) :
    (p :: l).lookup k = if k = p.1 then some p.2 else l.lookup k := by
  rcases p with ⟨j,v⟩
  by_cases h : k = j
  · simp [h]
  · rw [List.lookup_cons, beq_eq_false_iff_ne.mpr h, if_neg h]

theorem lookup_items (d : Dict K V) (k : K) : d.items.lookup k = d.lookup k := by
  rcases d with ⟨entries,hn⟩
  change (entries.map fun e => (e.1, e.2)).lookup k = entries.dlookup k
  clear hn
  induction entries with
  | nil => rfl
  | cons e rest ih =>
    rcases e with ⟨j,v⟩
    rw [List.map_cons, lookup_cons_ite, ih]
    by_cases h : k = j
    · subst h
      simp
    · simp [h]

theorem lookup_insert' (d : Dict K V) (j k : K) (v : V) :
    (d.insert j v).lookup k = if k = j then some v else d.lookup k := by
  by_cases h : k = j
  · subst h
    simp
  · simp [h, AList.lookup_insert_ne h]

/-- Under `update` the last pair of the stream answers. -/
theorem lookup_update (d : Dict K V) (l : List (K × V)) (k : K) :
    (update d l).lookup k = (l.reverse.lookup k).or (d.lookup k) := by
  induction l generalizing d with
  | nil => rfl
  | cons p rest ih =>
    have hstep := ih (d.insert p.1 p.2)
    rw [lookup_insert'] at hstep
    change (update (d.insert p.1 p.2) rest).lookup k = _
    rw [hstep, List.reverse_cons, List.lookup_append, Option.or_assoc, lookup_cons_ite]
    by_cases h : k = p.1 <;> simp [h]

theorem lookup_ofList (l : List (K × V)) (k : K) : (ofList l).lookup k = l.reverse.lookup k := by
  rw [ofList, lookup_update, AList.lookup_empty, Option.or_none]

theorem mem_of_lookup {l : List (K × V)} {k : K} {v : V} (h : l.lookup k = some v) : (k,v) ∈ l := by
  obtain ⟨front,back,rfl,_⟩ := List.lookup_eq_some_iff.mp h
  exact List.mem_append_right _ (List.mem_cons_self ..)

theorem mem_of_lookup_ofList {l : List (K × V)} {k : K} {v : V}
    (h : (ofList l).lookup k = some v) : (k,v) ∈ l := by
  rw [lookup_ofList] at h
  obtain ⟨front,back,hl,_⟩ := List.lookup_eq_some_iff.mp h
  rw [← List.mem_reverse, hl]
  simp

theorem mem_ofList {l : List (K × V)} {k : K} : k ∈ ofList l ↔ ∃ p ∈ l, p.1 = k := by
  rw [← AList.lookup_isSome, lookup_ofList, List.lookup_isSome_iff]
  simp only [List.mem_reverse, beq_iff_eq, @eq_comm _ k]

theorem lookup_setMissing (d : Dict K V) (p : K × V) (k : K) :
    (setMissing d p).lookup k = (d.lookup k).or (if k = p.1 then some p.2 else none) := by
  unfold setMissing
  by_cases hp : p.1 ∈ d
  · rw [if_pos hp]
    by_cases h : k = p.1
    · subst h
      obtain ⟨v,hv⟩ := Option.isSome_iff_exists.mp (AList.lookup_isSome.mpr hp)
      simp [hv]
    · simp [h]
  · rw [if_neg hp, lookup_insert']
    by_cases h : k = p.1
    · subst h
      simp [AList.lookup_eq_none.mpr hp]
    · simp [h]

/-- Under `fillMissing` the old entry answers, and after it the first pair. -/
theorem lookup_fillMissing (d : Dict K V) (l : List (K × V)) (k : K) :
    (fillMissing d l).lookup k = (d.lookup k).or (l.lookup k) := by
  induction l generalizing d with
  | nil => simp [fillMissing]
  | cons p rest ih =>
    have hstep := ih (setMissing d p)
    rw [lookup_setMissing, Option.or_assoc] at hstep
    change (fillMissing (setMissing d p) rest).lookup k = _
    rw [hstep, lookup_cons_ite]
    by_cases h : k = p.1 <;> simp [h]

theorem mem_fillMissing_items {d e : Dict K V} {k : K} :
    k ∈ fillMissing d e.items ↔ k ∈ d ∨ k ∈ e := by
  rw [← AList.lookup_isSome, lookup_fillMissing, lookup_items, Option.isSome_or, Bool.or_eq_true,
    AList.lookup_isSome, AList.lookup_isSome]

/-- A dictionary has one entry for a key, so its items may be read from either end. -/
theorem lookup_items_reverse (d : Dict K V) (k : K) : d.items.reverse.lookup k = d.lookup k := by
  rw [← lookup_ofList]
  have hkeys : (d.items.map Prod.fst).Nodup := by
    have h := d.keys_nodup
    simpa [items, AList.keys, List.keys, Function.comp_def] using h
  rw [← lookup_items d]
  generalize d.items = l at hkeys
  induction l with
  | nil => rfl
  | cons p rest ih =>
    rw [List.map_cons, List.nodup_cons] at hkeys
    rw [lookup_ofList, List.reverse_cons, List.lookup_append, ← lookup_ofList, ih hkeys.2,
      lookup_cons_ite, lookup_cons_ite]
    by_cases h : k = p.1
    · subst h
      have hnone : rest.lookup p.1 = none := by
        rw [List.lookup_eq_none_iff]
        intro q hq
        rw [bne_iff_ne]
        intro he
        exact hkeys.1 (List.mem_map.mpr ⟨q,hq,he.symm⟩)
      simp [hnone]
    · simp [h]

section Streams
variable (entries : R → Dict K V)

/-- Merge the dictionaries of a stream, the last one with a key answering for it. -/
def mergeLast (d : Dict K V) (l : List R) : Dict K V :=
  l.foldl (fun d r => update d (entries r).items) d

/-- Merge the dictionaries of a stream, the first one with a key answering for it. -/
def mergeFirst (d : Dict K V) (l : List R) : Dict K V :=
  l.foldl (fun d r => fillMissing d (entries r).items) d

theorem lookup_mergeLast (d : Dict K V) (l : List R) (k : K) :
    (mergeLast entries d l).lookup k =
      (l.reverse.findSome? fun r => (entries r).lookup k).or (d.lookup k) := by
  induction l generalizing d with
  | nil => rfl
  | cons r rest ih =>
    change (mergeLast entries (update d (entries r).items) rest).lookup k = _
    rw [ih, lookup_update, lookup_items_reverse, List.reverse_cons, List.findSome?_append,
      Option.or_assoc]
    simp

theorem lookup_mergeFirst (d : Dict K V) (l : List R) (k : K) :
    (mergeFirst entries d l).lookup k =
      (d.lookup k).or (l.findSome? fun r => (entries r).lookup k) := by
  induction l generalizing d with
  | nil => simp [mergeFirst]
  | cons r rest ih =>
    change (mergeFirst entries (fillMissing d (entries r).items) rest).lookup k = _
    rw [ih, lookup_fillMissing, lookup_items, Option.or_assoc, List.findSome?_cons]
    cases h : (entries r).lookup k <;> simp

theorem mem_mergeFirst {d : Dict K V} {l : List R} {k : K} :
    k ∈ mergeFirst entries d l ↔ k ∈ d ∨ ∃ r ∈ l, k ∈ entries r := by
  rw [← AList.lookup_isSome, lookup_mergeFirst, Option.isSome_or, Bool.or_eq_true,
    List.findSome?_isSome_iff]
  simp only [AList.lookup_isSome]

theorem mem_mergeLast {d : Dict K V} {l : List R} {k : K} :
    k ∈ mergeLast entries d l ↔ k ∈ d ∨ ∃ r ∈ l, k ∈ entries r := by
  rw [← AList.lookup_isSome, lookup_mergeLast, Option.isSome_or, Bool.or_eq_true,
    List.findSome?_isSome_iff]
  simp only [AList.lookup_isSome, List.mem_reverse]
  exact or_comm

theorem mergeFirst_append (d : Dict K V) (l l' : List R) :
    mergeFirst entries d (l ++ l') = mergeFirst entries (mergeFirst entries d l) l' :=
  List.foldl_append

end Streams
end Dict

section Folds
variable {S A K V : Type*} {f : S → A → S} {key : A → K} (get : K → S → V)

/-- Steps that write under one key each leave the other keys as they are. -/
theorem foldl_frame (hframe : ∀ s a k, k ≠ key a → get k (f s a) = get k s) {l : List A} {k : K}
    (hk : k ∉ l.map key) (s : S) : get k (l.foldl f s) = get k s := by
  induction l generalizing s with
  | nil => rfl
  | cons a l ih =>
    rw [List.map_cons, List.mem_cons, not_or] at hk
    rw [List.foldl_cons, ih hk.2, hframe s a k hk.1]

/-- When the keys are distinct, what is there under one of them was left by its own step. -/
theorem foldl_of_mem (hframe : ∀ s a k, k ≠ key a → get k (f s a) = get k s) {l : List A}
    (hdistinct : (l.map key).Nodup) {a : A} (ha : a ∈ l) (s : S) :
    ∃ t, get (key a) t = get (key a) s ∧ get (key a) (l.foldl f s) = get (key a) (f t a) := by
  induction l generalizing s with
  | nil => cases ha
  | cons b l ih =>
    rw [List.map_cons, List.nodup_cons] at hdistinct
    rcases List.mem_cons.mp ha with rfl | ha
    · exact ⟨s,rfl,foldl_frame get hframe hdistinct.1 _⟩
    · obtain ⟨t,ht,hfold⟩ := ih hdistinct.2 ha (f s b)
      refine ⟨t,ht.trans (hframe s b (key a) fun h => ?_),hfold⟩
      exact hdistinct.1 (h ▸ List.mem_map_of_mem ha)

end Folds
end SafeDecoder
