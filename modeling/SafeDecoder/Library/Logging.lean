import Mathlib.Algebra.GroupWithZero.Nat
import SafeDecoder.Library.ProgramLogic

/-! # Computations that keep a log

A log stands beside the state and only grows: how many entries a computation adds,
and of which kind, follows from its parts. Leaving the log out gives back the
computation that keeps none.
-/
namespace SafeDecoder.Effects
variable {ε σ ω α β : Type}

/-- A computation that leaves the log as it is. -/
def silent (x : EStateM ε σ α) : EStateM ε (σ × List ω) α := fun s =>
  match x s.1 with
  | .ok a t => .ok a (t,s.2)
  | .error e t => .error e (t,s.2)

def record (entry : ω) : EStateM ε (σ × List ω) Unit := modify fun s => (s.1,s.2 ++ [entry])

/-- Leave the log out. -/
def erase : EStateM.Result ε (σ × List ω) α → EStateM.Result ε σ α
  | .ok a t => .ok a t.1
  | .error e t => .error e t.1

/-- However the computation ends, it has added at most `k` entries, each of them in `R`. -/
def Adds (k : ℕ) (R : ω → Prop) (x : EStateM ε (σ × List ω) α) : Prop :=
  ∀ s, ∃ l, (finalState (x s)).2 = s.2 ++ l ∧ l.length ≤ k ∧ ∀ p ∈ l, R p

section Growth
variable {k k' : ℕ} {R R' : ω → Prop} {x : EStateM ε (σ × List ω) α}

theorem Adds.none (h : ∀ s, (finalState (x s)).2 = s.2) : Adds 0 R x := by
  intro s
  refine ⟨[],?_,Nat.le_refl _,fun _ hp => absurd hp List.not_mem_nil⟩
  rw [h, List.append_nil]

theorem Adds.pure (a : α) : Adds 0 R (pure a : EStateM ε (σ × List ω) α) := .none fun _ => rfl

theorem Adds.throw (e : ε) : Adds 0 R (throw e : EStateM ε (σ × List ω) α) := .none fun _ => rfl

theorem Adds.lift (y : Except ε α) : Adds 0 R (fromExcept y : EStateM ε (σ × List ω) α) := by
  cases y with
  | ok a => exact .pure a
  | error e => exact .throw e

theorem Adds.silent (y : EStateM ε σ α) : Adds 0 R (silent y : EStateM ε (σ × List ω) α) := by
  refine .none fun s => ?_
  unfold Effects.silent
  cases y s.1 <;> rfl

theorem Adds.record {entry : ω} (h : R entry) :
    Adds 1 R (record entry : EStateM ε (σ × List ω) Unit) := by
  refine fun s => ⟨[entry],rfl,Nat.le_refl _,fun p hp => ?_⟩
  rw [List.mem_singleton.mp hp]
  exact h

/-- The second part only has to be bounded after results that the first can have. -/
theorem Adds.bind_of {Q : α → Prop} {f : α → EStateM ε (σ × List ω) β} (hx : Adds k R x)
    (hq : Triple (fun _ => True) x Q fun _ => True) (hf : ∀ a, Q a → Adds k' R (f a)) :
    Adds (k + k') R (x >>= f) := by
  intro s
  obtain ⟨l,hfinal,hk,hl⟩ := hx s
  cases hr : x s with
  | ok a t =>
    rw [finalState_of_ok hr] at hfinal
    obtain ⟨l',hfinal',hk',hl'⟩ := hf a ((hq s trivial).1 a t hr).2 t
    rw [run_bind_ok hr]
    refine ⟨l ++ l',?_,?_,?_⟩
    · rw [hfinal', hfinal, List.append_assoc]
    · rw [List.length_append]
      omega
    · intro p hp
      rcases List.mem_append.mp hp with hp | hp
      · exact hl p hp
      · exact hl' p hp
  | error e t =>
    have hfail : (x >>= f) s = .error e t := run_bind_error hr
    rw [hr] at hfinal
    rw [hfail]
    exact ⟨l,hfinal,by omega,hl⟩

theorem Adds.bind {f : α → EStateM ε (σ × List ω) β} (hx : Adds k R x)
    (hf : ∀ a, Adds k' R (f a)) : Adds (k + k') R (x >>= f) :=
  hx.bind_of (Triple.trivial x) fun a _ => hf a

/-- After a first part that adds nothing. -/
theorem Adds.after_of {Q : α → Prop} {f : α → EStateM ε (σ × List ω) β} (hx : Adds 0 R x)
    (hq : Triple (fun _ => True) x Q fun _ => True) (hf : ∀ a, Q a → Adds k R (f a)) :
    Adds k R (x >>= f) := by
  have h := hx.bind_of hq hf
  rwa [Nat.zero_add] at h

theorem Adds.after {f : α → EStateM ε (σ × List ω) β} (hx : Adds 0 R x)
    (hf : ∀ a, Adds k R (f a)) : Adds k R (x >>= f) :=
  hx.after_of (Triple.trivial x) fun a _ => hf a

theorem Adds.lift_bind {y : Except ε α} {f : α → EStateM ε (σ × List ω) β}
    (hf : ∀ a, y = .ok a → Adds k R (f a)) : Adds k R (fromExcept y >>= f) :=
  (Adds.lift y).after_of (Triple.lift (fun _ ha => ha) fun _ _ => trivial) hf

theorem Adds.mono (hx : Adds k R x) (hk : k ≤ k') (hR : ∀ p, R p → R' p) : Adds k' R' x := by
  intro s
  obtain ⟨l,hfinal,hl,hr⟩ := hx s
  exact ⟨l,hfinal,Nat.le_trans hl hk,fun p hp => hR p (hr p hp)⟩

theorem Adds.ite {c : Prop} {_ : Decidable c} {x' : EStateM ε (σ × List ω) α}
    (hx : c → Adds k R x) (hx' : ¬c → Adds k R x') : Adds k R (if c then x else x') := by
  split
  · exact hx ‹_›
  · exact hx' ‹_›

/-- A handler that adds no entry. -/
theorem Adds.catchOnly {caught : ε → Bool} {handler : ε → EStateM ε (σ × List ω) α}
    (hx : Adds k R x) (hh : ∀ e, Adds 0 R (handler e)) :
    Adds k R (catchOnly caught x handler) := by
  intro s
  obtain ⟨l,hfinal,hk,hl⟩ := hx s
  cases hr : x s with
  | ok a t =>
    rw [run_catchOnly_ok hr]
    rw [hr] at hfinal
    exact ⟨l,hfinal,hk,hl⟩
  | error e t =>
    rw [run_catchOnly_error hr]
    rw [hr] at hfinal
    split
    · obtain ⟨l',hfinal',hk',_⟩ := hh e t
      obtain rfl := List.length_eq_zero_iff.mp (Nat.le_zero.mp hk')
      rw [List.append_nil] at hfinal'
      exact ⟨l,hfinal'.trans hfinal,hk,hl⟩
    · exact ⟨l,hfinal,hk,hl⟩

/-- The bounds of the elements of a list add up. -/
theorem Adds.mapM {f : α → EStateM ε (σ × List ω) β} {size : α → ℕ} {as : List α}
    (h : ∀ a ∈ as, Adds (size a) R (f a)) : Adds (as.map size).sum R (as.mapM f) := by
  induction as with
  | nil =>
    rw [List.mapM_nil]
    exact .pure []
  | cons a as ih =>
    rw [List.mapM_cons, List.map_cons, List.sum_cons]
    have hrest := ih fun b hb => h b (List.mem_cons_of_mem _ hb)
    apply (h a (List.mem_cons_self ..)).bind
    intro b
    exact hrest.bind fun bs => .pure _

end Growth

section Erasure

theorem erase_silent (x : EStateM ε σ α) (s : σ × List ω) : erase (silent x s) = x s.1 := by
  unfold silent
  cases x s.1 <;> rfl

/-- With and without a log: the same result and the same state. -/
def Erases (x : EStateM ε (σ × List ω) α) (y : EStateM ε σ α) : Prop :=
  ∀ s, erase (x s) = y s.1

theorem Erases.bind {x : EStateM ε (σ × List ω) α} {y : EStateM ε σ α}
    {f : α → EStateM ε (σ × List ω) β} {g : α → EStateM ε σ β} (hx : Erases x y)
    (hf : ∀ a, Erases (f a) (g a)) : Erases (x >>= f) (y >>= g) := by
  intro s
  have h := hx s
  cases hr : x s with
  | ok a t =>
    rw [hr] at h
    rw [run_bind_ok hr, run_bind_ok h.symm]
    exact hf a t
  | error e t =>
    have hfail : (x >>= f) s = .error e t := run_bind_error hr
    rw [hr] at h
    rw [hfail, run_bind_error h.symm]
    rfl

theorem Erases.catchOnly (caught : ε → Bool) {x : EStateM ε (σ × List ω) α} {y : EStateM ε σ α}
    {h : ε → EStateM ε (σ × List ω) α} {k : ε → EStateM ε σ α} (hx : Erases x y)
    (hh : ∀ e, Erases (h e) (k e)) : Erases (catchOnly caught x h) (catchOnly caught y k) := by
  intro s
  have hs := hx s
  cases hr : x s with
  | ok a t =>
    rw [hr] at hs
    rw [run_catchOnly_ok hr, run_catchOnly_ok hs.symm]
    rfl
  | error e t =>
    rw [hr] at hs
    rw [run_catchOnly_error hr, run_catchOnly_error hs.symm]
    split
    · exact hh e t
    · rfl

def erasesRel (ε σ ω : Type) : MonadRel ε (EStateM ε (σ × List ω)) (EStateM ε σ) where
  Rel := Erases
  pure _ _ := rfl
  throw _ _ := rfl
  bind := Erases.bind
  throw_bind _ _ _ _ := rfl
  catchOnly := Erases.catchOnly

theorem Erases.record {entry : ω} {x : EStateM ε (σ × List ω) α} {y : EStateM ε σ α}
    (h : Erases x y) : Erases (do record entry; x) y := fun s => h (s.1,s.2 ++ [entry])

end Erasure
end SafeDecoder.Effects
