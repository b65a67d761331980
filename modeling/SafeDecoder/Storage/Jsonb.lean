import SafeDecoder.Data.Json
import Mathlib.Data.List.Sort
import Mathlib.Data.String.Basic

/-! # Documents as jsonb keeps them

A jsonb value has the keys of its objects in one order and its numbers without exponents.
Two documents are kept as the same value if they differ in the order of keys alone.
-/
namespace SafeDecoder

namespace Json

theorem induction {P : Json → Prop} (null : P null) (bool : ∀ b, P (bool b))
    (num : ∀ m e, P (num m e)) (str : ∀ s, P (str s))
    (arr : ∀ elems, (∀ e ∈ elems, P e) → P (arr elems))
    (obj : ∀ fields, (∀ f ∈ fields, P f.2) → P (obj fields)) (j : Json) : P j :=
  @Json.rec P (fun elems => ∀ e ∈ elems, P e) (fun fields => ∀ f ∈ fields, P f.2) (fun f => P f.2)
    null bool num str arr obj (fun _ h => nomatch h)
    (fun _ _ hhead htail => List.forall_mem_cons.mpr ⟨hhead,htail⟩) (fun _ h => nomatch h)
    (fun _ _ hhead htail => List.forall_mem_cons.mpr ⟨hhead,htail⟩) (fun _ _ h => h) j

mutual

/-- The document and everything in it satisfies `p`. -/
def all (p : Json → Bool) : Json → Bool
  | null => p null
  | bool b => p (bool b)
  | num m e => p (num m e)
  | str s => p (str s)
  | arr elems => p (arr elems) && allElems p elems
  | obj fields => p (obj fields) && allFields p fields

def allElems (p : Json → Bool) : List Json → Bool
  | [] => true
  | x :: rest => all p x && allElems p rest

def allFields (p : Json → Bool) : List (String × Json) → Bool
  | [] => true
  | (_,v) :: rest => all p v && allFields p rest

end

variable {p : Json → Bool}

theorem all_arr {elems : List Json} :
    (arr elems).all p = true ↔ p (arr elems) = true ∧ ∀ e ∈ elems, e.all p = true := by
  have helems : ∀ elems : List Json, allElems p elems = true ↔ ∀ e ∈ elems, e.all p = true := by
    intro elems
    induction elems with
    | nil => simp [allElems]
    | cons x rest ih => simp [allElems, ih]
  rw [all, Bool.and_eq_true, helems]

theorem all_obj {fields : List (String × Json)} :
    (obj fields).all p = true ↔ p (obj fields) = true ∧ ∀ f ∈ fields, f.2.all p = true := by
  have hfields : ∀ fields : List (String × Json),
      allFields p fields = true ↔ ∀ f ∈ fields, f.2.all p = true := by
    intro fields
    induction fields with
    | nil => simp [allFields]
    | cons f rest ih => simp [allFields, ih]
  rw [all, Bool.and_eq_true, hfields]

/-- An object has no key twice. -/
def keysDistinct : Json → Bool
  | obj fields => (fields.map Prod.fst).Nodup
  | _ => true

end Json

namespace Jsonb

section Canonical

/-- Keys are ordered by their lengths in bytes and then byte by byte, which is the order of
their code points. -/
def keyLE (f g : String × Json) : Prop :=
  f.1.utf8ByteSize < g.1.utf8ByteSize ∨ f.1.utf8ByteSize = g.1.utf8ByteSize ∧ f.1 ≤ g.1

instance : DecidableRel keyLE := fun _ _ => inferInstanceAs (Decidable (_ ∨ _ ∧ _))

instance : IsTrans (String × Json) keyLE := by
  refine ⟨fun f g h hfg hgh => ?_⟩
  unfold keyLE at *
  rcases hfg with hfg | ⟨hfg,hle⟩
  · left
    omega
  · rcases hgh with hgh | ⟨hgh,hle'⟩
    · left
      omega
    · exact .inr ⟨hfg.trans hgh,hle.trans hle'⟩

instance : Std.Total keyLE := by
  refine ⟨fun f g => ?_⟩
  unfold keyLE
  rcases lt_trichotomy f.1.utf8ByteSize g.1.utf8ByteSize with h | h | h
  · exact .inl (.inl h)
  · rcases le_total f.1 g.1 with hle | hle
    · exact .inl (.inr ⟨h,hle⟩)
    · exact .inr (.inr ⟨h.symm,hle⟩)
  · exact .inr (.inl h)

theorem key_eq_of_keyLE {f g : String × Json} (hfg : keyLE f g) (hgf : keyLE g f) : f.1 = g.1 := by
  unfold keyLE at hfg hgf
  rcases hfg with hfg | ⟨_,hle⟩
  · omega
  · rcases hgf with hgf | ⟨_,hle'⟩
    · omega
    · exact le_antisymm hle hle'

mutual

/-- The value that is kept for a document: a number has as many digits after the point as
it was given with. -/
def canon : Json → Json
  | .null => .null
  | .bool b => .bool b
  | .num m e => .num (m * 10 ^ e.toNat) (min e 0)
  | .str s => .str s
  | .arr elems => .arr (canonElems elems)
  | .obj fields => .obj ((canonFields fields).insertionSort keyLE)

def canonElems : List Json → List Json
  | [] => []
  | x :: rest => canon x :: canonElems rest

def canonFields : List (String × Json) → List (String × Json)
  | [] => []
  | (k,v) :: rest => (k,canon v) :: canonFields rest

end

@[simp] theorem canonElems_eq (elems : List Json) : canonElems elems = elems.map canon := by
  induction elems with
  | nil => rfl
  | cons x rest ih => simp [canonElems, ih]

@[simp] theorem canonFields_eq (fields : List (String × Json)) :
    canonFields fields = fields.map (Prod.map id canon) := by
  induction fields with
  | nil => rfl
  | cons f rest ih =>
    rw [canonFields, ih]
    rfl

theorem canon_arr (elems : List Json) : canon (.arr elems) = .arr (elems.map canon) := by
  rw [canon, canonElems_eq]

theorem canon_obj (fields : List (String × Json)) :
    canon (.obj fields) = .obj ((fields.map (Prod.map id canon)).insertionSort keyLE) := by
  rw [canon, canonFields_eq]

end Canonical

section Order

/-- Two documents that differ in the order of their keys alone. Numbers are the same if
they have the same digits and the point at the same place. -/
inductive Reordered : Json → Json → Prop
  | refl (a : Json) : Reordered a a
  | trans {a b c : Json} (h : Reordered a b) (h' : Reordered b c) : Reordered a c
  | num {m m' e e' : Int} (h : m * 10 ^ e.toNat = m' * 10 ^ e'.toNat) (hpoint : min e 0 = min e' 0) :
      Reordered (.num m e) (.num m' e')
  | elem {xs ys : List Json} {a b : Json} (h : Reordered a b) :
      Reordered (.arr (xs ++ a :: ys)) (.arr (xs ++ b :: ys))
  | value {fs gs : List (String × Json)} {k : String} {a b : Json} (h : Reordered a b) :
      Reordered (.obj (fs ++ (k,a) :: gs)) (.obj (fs ++ (k,b) :: gs))
  | keys {fs gs : List (String × Json)} (h : fs.Perm gs) : Reordered (.obj fs) (.obj gs)

namespace Reordered
variable {a b : Json}

theorem symm (h : Reordered a b) : Reordered b a := by
  induction h with
  | refl a => exact .refl a
  | trans _ _ ih ih' => exact ih'.trans ih
  | num h hpoint => exact .num h.symm hpoint.symm
  | elem _ ih => exact .elem ih
  | value _ ih => exact .value ih
  | keys h => exact .keys h.symm

theorem arr {xs ys : List Json} (h : List.Forall₂ Reordered xs ys) : Reordered (.arr xs) (.arr ys) := by
  have hstep : ∀ pre : List Json, Reordered (.arr (pre ++ xs)) (.arr (pre ++ ys)) := by
    induction h with
    | nil => exact fun _ => .refl _
    | @cons x y xs ys hxy _ ih =>
      intro pre
      have hrest := ih (pre ++ [y])
      rw [List.append_assoc, List.append_assoc] at hrest
      exact (Reordered.elem hxy).trans hrest
  exact hstep []

theorem obj {fs gs : List (String × Json)}
    (h : List.Forall₂ (fun f g => f.1 = g.1 ∧ Reordered f.2 g.2) fs gs) : Reordered (.obj fs) (.obj gs) := by
  have hstep : ∀ pre : List (String × Json), Reordered (.obj (pre ++ fs)) (.obj (pre ++ gs)) := by
    induction h with
    | nil => exact fun _ => .refl _
    | @cons f g fs gs hfg _ ih =>
      intro pre
      obtain ⟨k,v⟩ := f
      obtain ⟨k',v'⟩ := g
      obtain ⟨rfl,hvalue⟩ := hfg
      have hrest := ih (pre ++ [(k,v')])
      rw [List.append_assoc, List.append_assoc] at hrest
      exact (Reordered.value hvalue).trans hrest
  exact hstep []

end Reordered

theorem reordered_canon (a : Json) : Reordered a (canon a) := by
  induction a using Json.induction with
  | null => exact .refl _
  | bool b => exact .refl _
  | num m e =>
    have hzero : (min e 0).toNat = 0 := by omega
    have hpoint : min e 0 = min (min e 0) 0 := by omega
    exact .num (by rw [hzero, Int.pow_zero, Int.mul_one]) hpoint
  | str s => exact .refl _
  | arr elems ih =>
    rw [canon_arr]
    refine .arr ?_
    rw [List.forall₂_map_right_iff, List.forall₂_same]
    exact ih
  | obj fields ih =>
    rw [canon_obj]
    have hvalues : Reordered (.obj fields) (.obj (fields.map (Prod.map id canon))) := by
      apply Reordered.obj
      rw [List.forall₂_map_right_iff, List.forall₂_same]
      exact fun f hf => ⟨rfl,ih f hf⟩
    exact hvalues.trans (.keys (List.perm_insertionSort _ _).symm)

/-- Sorted by distinct keys, fields have one order. -/
theorem insertionSort_eq_of_perm {fs gs : List (String × Json)} (h : fs.Perm gs)
    (hnodup : (fs.map Prod.fst).Nodup) : fs.insertionSort keyLE = gs.insertionSort keyLE := by
  have hfs := List.perm_insertionSort keyLE fs
  have hgs := List.perm_insertionSort keyLE gs
  refine List.Perm.eq_of_pairwise ?_ (List.pairwise_insertionSort _ _)
    (List.pairwise_insertionSort _ _) ((hfs.trans h).trans hgs.symm)
  intro f g hf hg hfg hgf
  have hf := hfs.subset hf
  have hg := h.symm.subset (hgs.subset hg)
  exact List.inj_on_of_nodup_map hnodup hf hg (key_eq_of_keyLE hfg hgf)

theorem map_canon_keys (fields : List (String × Json)) :
    (fields.map (Prod.map id canon)).map Prod.fst = fields.map Prod.fst := by
  rw [List.map_map]
  rfl

theorem Reordered.canon_eq {a b : Json} (h : Reordered a b) (ha : a.all Json.keysDistinct) :
    canon a = canon b ∧ b.all Json.keysDistinct := by
  induction h with
  | refl a => exact ⟨rfl,ha⟩
  | trans _ _ ih ih' =>
    obtain ⟨hab,hb⟩ := ih ha
    obtain ⟨hbc,hc⟩ := ih' hb
    exact ⟨hab.trans hbc,hc⟩
  | num h hpoint =>
    rw [canon, canon, h, hpoint]
    exact ⟨rfl,rfl⟩
  | elem _ ih =>
    rw [Json.all_arr] at ha ⊢
    obtain ⟨hab,hb⟩ := ih (ha.2 _ (by simp))
    refine ⟨by simp [canon_arr, hab],rfl,fun e he => ?_⟩
    rcases List.mem_append.mp he with he | he
    · exact ha.2 e (List.mem_append_left _ he)
    · rcases List.mem_cons.mp he with rfl | he
      · exact hb
      · exact ha.2 e (by simp [he])
  | @value fs gs k a b _ ih =>
    rw [Json.all_obj] at ha ⊢
    obtain ⟨hab,hb⟩ := ih (ha.2 (k,a) (by simp))
    refine ⟨by simp [canon_obj, hab],by simpa [Json.keysDistinct] using ha.1,fun f hf => ?_⟩
    rcases List.mem_append.mp hf with hf | hf
    · exact ha.2 f (List.mem_append_left _ hf)
    · rcases List.mem_cons.mp hf with rfl | hf
      · exact hb
      · exact ha.2 f (by simp [hf])
  | @keys fs gs h =>
    rw [Json.all_obj] at ha ⊢
    have hnodup : (fs.map Prod.fst).Nodup := by simpa [Json.keysDistinct] using ha.1
    refine ⟨?_,?_,fun f hf => ha.2 f (h.symm.subset hf)⟩
    · rw [canon_obj, canon_obj]
      rw [← map_canon_keys] at hnodup
      rw [insertionSort_eq_of_perm (h.map _) hnodup]
    · have hkeys := (h.map Prod.fst).nodup_iff.mp hnodup
      simpa [Json.keysDistinct] using hkeys

/-- Two documents are kept as the same value if they differ in the order of keys alone. -/
theorem canon_eq_iff {a b : Json} (ha : a.all Json.keysDistinct) :
    canon a = canon b ↔ Reordered a b := by
  constructor
  · intro h
    have hcanon := reordered_canon a
    rw [h] at hcanon
    exact hcanon.trans (reordered_canon b).symm
  · exact fun h => (h.canon_eq ha).1

end Order
end Jsonb
end SafeDecoder
