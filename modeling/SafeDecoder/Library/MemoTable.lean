import SafeDecoder.Library.ProgramLogic
import Mathlib.Data.List.Basic

/-! # Memo tables with any eviction policy

A memo table answers a call from its entries or computes and stores the answer.
What is dropped to make room is left open: the only law is that an entry found
after a store was either found before it or is the stored one. A table is
coherent with an oracle on a set of keys when every entry under such a key is
what the oracle gives, and then a memoised call agrees with the oracle whatever
was evicted.
-/
namespace SafeDecoder

/-- A table of results. `store` may drop entries and `touch` may reorder them. -/
structure MemoTable (K V : Type) where
  State : Type
  empty : State
  find : State → K → Option V
  store : State → K → V → State
  touch : State → K → State
  find_empty : ∀ k, find empty k = none
  find_touch : ∀ t j k, find (touch t j) k = find t k
  find_store : ∀ t j v k w, find (store t j v) k = some w → (k = j ∧ w = v) ∨ find t k = some w

namespace MemoTable
open Effects
variable {K V ε σ : Type} (T : MemoTable K V)

/-- A field of the state that holds a table. -/
structure Slot (σ : Type) where
  get : σ → T.State
  set : T.State → σ → σ

variable {T}

/-- Answer from the table, or compute and store. A computation that raises stores nothing. -/
def call (slot : T.Slot σ) (k : K) (compute : EStateM ε σ V) : EStateM ε σ V := fun s =>
  match T.find (slot.get s) k with
  | some v => .ok v (slot.set (T.touch (slot.get s) k) s)
  | none =>
    match compute s with
    | .ok v t => .ok v (slot.set (T.store (slot.get t) k v) t)
    | .error e t => .error e t

theorem call_hit {slot : T.Slot σ} {k : K} {compute : EStateM ε σ V} {s : σ} {v : V}
    (h : T.find (slot.get s) k = some v) :
    call slot k compute s = .ok v (slot.set (T.touch (slot.get s) k) s) := by
  simp only [call, h]

theorem call_miss {slot : T.Slot σ} {k : K} {compute : EStateM ε σ V} {s t : σ} {v : V}
    (h : T.find (slot.get s) k = none) (hc : compute s = .ok v t) :
    call slot k compute s = .ok v (slot.set (T.store (slot.get t) k v) t) := by
  simp only [call, h, hc]

theorem call_raise {slot : T.Slot σ} {k : K} {compute : EStateM ε σ V} {s t : σ} {e : ε}
    (h : T.find (slot.get s) k = none) (hc : compute s = .error e t) :
    call slot k compute s = .error e t := by
  simp only [call, h, hc]

/-- Every entry under a key of `P` is what the oracle gives. -/
def Coherent (P : K → Prop) (oracle : K → Except ε V) (t : T.State) : Prop :=
  ∀ k v, P k → T.find t k = some v → oracle k = .ok v

variable {P : K → Prop} {oracle : K → Except ε V}

theorem Coherent.empty (P : K → Prop) (oracle : K → Except ε V) : T.Coherent P oracle T.empty := by
  intro k v _ h
  rw [T.find_empty] at h
  cases h

theorem Coherent.touch {t : T.State} (h : T.Coherent P oracle t) (j : K) :
    T.Coherent P oracle (T.touch t j) := by
  intro k v hk hv
  rw [T.find_touch] at hv
  exact h k v hk hv

theorem Coherent.store {t : T.State} (h : T.Coherent P oracle t) {j : K} {v : V}
    (hv : P j → oracle j = .ok v) : T.Coherent P oracle (T.store t j v) := by
  intro k w hk hw
  rcases T.find_store t j v k w hw with ⟨rfl,rfl⟩ | hold
  · exact hv hk
  · exact h k w hk hold

/-- A memoised call has the triple that its entries and its computation have,
whatever the table has dropped. -/
theorem call_triple {I : σ → Prop} {Q : V → Prop} {E : ε → Prop} {slot : T.Slot σ} {k : K}
    {compute : EStateM ε σ V} (hfind : ∀ s v, I s → T.find (slot.get s) k = some v → Q v)
    (htouch : ∀ s, I s → I (slot.set (T.touch (slot.get s) k) s))
    (hstore : ∀ s v, I s → Q v → I (slot.set (T.store (slot.get s) k v) s))
    (hc : Triple I compute Q E) : Triple I (call slot k compute) Q E := by
  intro s hs
  cases hf : T.find (slot.get s) k with
  | some v =>
    rw [call_hit hf]
    refine ⟨fun w t h => ?_,fun e t h => ?_⟩
    · cases h
      exact ⟨htouch s hs,hfind s v hs hf⟩
    · cases h
  | none =>
    cases hr : compute s with
    | ok v t =>
      obtain ⟨ht,hv⟩ := (hc s hs).1 v t hr
      rw [call_miss hf hr]
      refine ⟨fun w u h => ?_,fun e u h => ?_⟩
      · cases h
        exact ⟨hstore t v ht hv,hv⟩
      · cases h
    | error e t =>
      have he := (hc s hs).2 e t hr
      rw [call_raise hf hr]
      refine ⟨fun w u h => ?_,fun e' u h => ?_⟩
      · cases h
      · cases h
        exact he

variable (P oracle) in
/-- A memoised call agrees with its oracle, for a key of `P`, as long as the
invariant keeps the table coherent and the computation agrees on a miss. -/
theorem call_agrees {I : σ → Prop} {slot : T.Slot σ} {k : K} {compute : EStateM ε σ V}
    (hI : ∀ s, I s → T.Coherent P oracle (slot.get s))
    (hset : ∀ s t, I s → T.Coherent P oracle t → I (slot.set t s))
    (hc : Agrees (P k) I compute (oracle k)) : Agrees (P k) I (call slot k compute) (oracle k) := by
  refine call_triple (fun s v hs hf hk => hI s hs k v hk hf) (fun s hs => ?_) (fun s v hs hv => ?_)
    hc
  · exact hset s _ hs ((hI s hs).touch k)
  · exact hset s _ hs ((hI s hs).store hv)

section LeastRecentlyUsed
variable (K V) [DecidableEq K]

private theorem lookup_filter_ne (l : List (K × V)) (j k : K) :
    (l.filter fun p => p.1 ≠ j).lookup k = if k = j then none else l.lookup k := by
  induction l with
  | nil => simp
  | cons p l ih =>
    rcases p with ⟨i,v⟩
    by_cases hi : i = j
    · subst hi
      rw [List.filter_cons_of_neg (by simp), ih]
      by_cases hk : k = i
      · simp [hk]
      · rw [if_neg hk, if_neg hk, List.lookup_cons, beq_eq_false_iff_ne.mpr hk]
    · rw [List.filter_cons_of_pos (by simpa using hi), List.lookup_cons, List.lookup_cons, ih]
      by_cases hk : k = i
      · subst hk
        simp [hi]
      · rw [beq_eq_false_iff_ne.mpr hk]

private theorem lookup_take {l : List (K × V)} {n : ℕ} {k : K} {v : V}
    (h : (l.take n).lookup k = some v) : l.lookup k = some v := by
  rw [← List.take_append_drop n l, List.lookup_append, h, Option.some_or]

/-- The bounded table that keeps the `size` most recently used entries, newest first. -/
def leastRecentlyUsed (size : ℕ) : MemoTable K V where
  State := List (K × V)
  empty := []
  find l k := l.lookup k
  store l k v := ((k,v) :: l.filter fun p => p.1 ≠ k).take size
  touch l k :=
    match l.lookup k with
    | some v => (k,v) :: l.filter fun p => p.1 ≠ k
    | none => l
  find_empty _ := rfl
  find_touch l j k := by
    cases hj : l.lookup j with
    | none => rfl
    | some v =>
      simp only
      by_cases hk : k = j
      · subst hk
        rw [List.lookup_cons_self, hj]
      · rw [List.lookup_cons, beq_eq_false_iff_ne.mpr hk, lookup_filter_ne, if_neg hk]
  find_store l j v k w h := by
    have h' := lookup_take K V h
    by_cases hk : k = j
    · subst hk
      rw [List.lookup_cons_self] at h'
      exact Or.inl ⟨rfl,(Option.some.inj h').symm⟩
    · rw [List.lookup_cons, beq_eq_false_iff_ne.mpr hk, lookup_filter_ne, if_neg hk] at h'
      exact Or.inr h'

end LeastRecentlyUsed
end MemoTable
end SafeDecoder
