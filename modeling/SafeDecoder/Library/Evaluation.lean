import SafeDecoder.Library.Interleaving
import SafeDecoder.Library.ProgramLogic

/-! # Programs that run by themselves

When the state alone decides how a command is answered, a program that nobody
disturbs computes a function of the state in which it starts. It may compute what a
computation with exceptions does.
-/
namespace SafeDecoder
variable {C : Type} {R : C → Type} {ε σ ℓ α β : Type}

namespace Proc
variable {respond : σ → ℓ → (c : C) → Except ε (R c) × σ × ℓ} {s t : σ} {l l' : ℓ}

/-- What a program ends with whose commands are answered by `respond`. -/
def eval (respond : σ → ℓ → (c : C) → Except ε (R c) × σ × ℓ) :
    Proc C R ε α → σ → ℓ → Except ε α × σ × ℓ
  | ret a, s, l => (.ok a,s,l)
  | raise e, s, l => (.error e,s,l)
  | call c next, s, l =>
    let r := respond s l c
    eval respond (next r.1) r.2.1 r.2.2

@[simp] theorem eval_ret (a : α) : (ret a : Proc C R ε α).eval respond s l = (.ok a,s,l) := rfl
@[simp] theorem eval_raise (e : ε) : (raise e : Proc C R ε α).eval respond s l = (.error e,s,l) := rfl

theorem eval_call {c : C} {next : Except ε (R c) → Proc C R ε α} {r : Except ε (R c)}
    (h : respond s l c = (r,t,l')) : (call c next).eval respond s l = (next r).eval respond t l' := by
  rw [eval, h]

/-- One program after the other. -/
theorem eval_bind (x : Proc C R ε α) (f : α → Proc C R ε β) :
    (x.bind f).eval respond s l =
      match x.eval respond s l with
      | (.ok a,t,l') => (f a).eval respond t l'
      | (.error e,t,l') => (.error e,t,l') := by
  induction x generalizing s l with
  | ret a => rfl
  | raise e => rfl
  | call c next ih => exact ih _

theorem eval_bind_ok {x : Proc C R ε α} {f : α → Proc C R ε β} {a : α}
    (h : x.eval respond s l = (.ok a,t,l')) :
    (x.bind f).eval respond s l = (f a).eval respond t l' := by
  rw [eval_bind, h]

/-- `try … except` starts the handler where the exception was raised. -/
theorem eval_handle (x : Proc C R ε α) (h : ε → Proc C R ε α) :
    (x.handle h).eval respond s l =
      match x.eval respond s l with
      | (.ok a,t,l') => (.ok a,t,l')
      | (.error e,t,l') => (h e).eval respond t l' := by
  induction x generalizing s l with
  | ret a => rfl
  | raise e => rfl
  | call c next ih => exact ih _

/-- A clean-up that changes nothing. -/
theorem eval_ensuring {cleanup : Proc C R ε Unit} (x : Proc C R ε α)
    (h : ∀ s l, cleanup.eval respond s l = (.ok (),s,l)) :
    (x.ensuring cleanup).eval respond s l = x.eval respond s l := by
  induction x generalizing s l with
  | ret a => exact eval_bind_ok (h s l)
  | raise e => exact eval_bind_ok (h s l)
  | call c next ih => exact ih _

end Proc

section Computations
variable {υ : Type}

/-- A program and a computation that end alike, in states that belong together. -/
inductive EndsLike (Sim : σ → ℓ → υ → Prop) :
    Except ε α × σ × ℓ → EStateM.Result ε υ α → Prop
  | ok {a s l t} (h : Sim s l t) : EndsLike Sim (.ok a,s,l) (.ok a t)
  | error {e s l t} (h : Sim s l t) : EndsLike Sim (.error e,s,l) (.error e t)

theorem EndsLike.call {Sim : σ → ℓ → υ → Prop} {respond : σ → ℓ → (c : C) → Except ε (R c) × σ × ℓ}
    {c : C} {next : Except ε (R c) → Proc C R ε α} {r : Except ε (R c)} {s s' : σ} {l l' : ℓ}
    {q : EStateM.Result ε υ α} (hr : respond s l c = (r,s',l'))
    (h : EndsLike Sim ((next r).eval respond s' l') q) :
    EndsLike Sim ((Proc.call c next).eval respond s l) q := by
  rwa [Proc.eval_call hr]

open Effects in
/-- A program evaluates as the computation does, from all states that belong together. -/
def evaluatesRel (respond : σ → ℓ → (c : C) → Except ε (R c) × σ × ℓ) (Sim : σ → ℓ → υ → Prop) :
    MonadRel ε (Proc C R ε) (EStateM ε υ) where
  Rel x y := ∀ s l t, Sim s l t → EndsLike Sim (x.eval respond s l) (y t)
  pure _ := fun _ _ _ h => .ok h
  throw _ := fun _ _ _ h => .error h
  bind := by
    intro α β x y f g hx hf s l t h
    have hends := hx s l t h
    change EndsLike Sim ((x.bind f).eval respond s l) _
    rw [Proc.eval_bind]
    generalize x.eval respond s l = r at hends
    generalize hy : y t = q at hends
    cases hends with
    | ok h =>
      rw [run_bind_ok hy]
      exact hf _ _ _ _ h
    | error h =>
      rw [run_bind_error hy]
      exact .error h
  throw_bind _ _ _ := fun _ _ _ h => .error h
  catchOnly := by
    intro α caught x y h k hx hh s l t hsim
    have hends := hx s l t hsim
    change EndsLike Sim ((x.handle fun e => if caught e then h e else throw e).eval respond s l) _
    rw [Proc.eval_handle]
    generalize x.eval respond s l = r at hends
    generalize hy : y t = q at hends
    cases hends with
    | ok hsim =>
      rw [run_catchOnly_ok hy]
      exact .ok hsim
    | @error e s l t hsim =>
      rw [run_catchOnly_error hy]
      change EndsLike Sim ((if caught e then h e else throw e).eval respond s l) _
      cases caught e with
      | true => exact hh _ _ _ _ hsim
      | false => exact .error hsim

end Computations

namespace Machine
variable {M τ γ : Type} {m : Machine C R ε σ ℓ M τ γ} {p : C → Prop}
  {respond : σ → ℓ → (c : C) → Except ε (R c) × σ × ℓ} {x y : Proc C R ε α} {s t : σ} {l l' : ℓ}
  {tr : List (σ × Event C R ε M)}

/-- The state decides how the machine answers the commands in `p`. -/
def Settles (m : Machine C R ε σ ℓ M τ γ) (p : C → Prop)
    (respond : σ → ℓ → (c : C) → Except ε (R c) × σ × ℓ) : Prop :=
  ∀ s l c, p c → ∀ r s' l', m.exec s l c r s' l' ↔ respond s l c = (r,s',l')

theorem Alone.eval (hm : m.Settles p respond) (hx : Issues p x) (h : m.Alone x s l tr y t l')
    {r : Except ε α} (hr : y.outcome? = some r) : x.eval respond s l = (r,t,l') := by
  induction h with
  | refl =>
    rcases Proc.eq_of_outcome? hr with ⟨a,rfl,rfl⟩ | ⟨e,rfl,rfl⟩
    · rfl
    · rfl
  | step he _ ih =>
    rw [Proc.eval_call ((hm _ _ _ hx.1 _ _ _).mp he)]
    exact ih (hx.2 _) hr

/-- The machine allows the answers of `respond` to the commands in `p`. -/
def Allows (m : Machine C R ε σ ℓ M τ γ) (p : C → Prop)
    (respond : σ → ℓ → (c : C) → Except ε (R c) × σ × ℓ) : Prop :=
  ∀ s l c, p c → m.exec s l c (respond s l c).1 (respond s l c).2.1 (respond s l c).2.2

theorem Settles.allows (hm : m.Settles p respond) : m.Allows p respond :=
  fun s l c hc => (hm s l c hc _ _ _).mpr rfl

theorem exists_alone (hm : m.Allows p respond) (hx : Issues p x) {r : Except ε α}
    (h : x.eval respond s l = (r,t,l')) :
    ∃ tr y, m.Alone x s l tr y t l' ∧ y.outcome? = some r := by
  induction x generalizing s l with
  | ret a =>
    cases h
    exact ⟨[],_,.refl,rfl⟩
  | raise e =>
    cases h
    exact ⟨[],_,.refl,rfl⟩
  | call c next ih =>
    obtain ⟨tr,y,hy,hr⟩ := ih _ (hx.2 _) h
    exact ⟨_,y,.step (hm s l c hx.1) hy,hr⟩

end Machine
end SafeDecoder
