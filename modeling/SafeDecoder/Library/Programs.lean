import SafeDecoder.Library.Effects

/-! # Programs that issue commands

A program returns, raises, or issues a command and goes on with the answer to
it. What a command does is left open, so one program can run alone, be cut off
at any point, or take turns with others.
-/
namespace SafeDecoder

inductive Proc (C : Type) (R : C → Type) (ε α : Type)
  | ret (a : α)
  | raise (e : ε)
  | call (c : C) (next : Except ε (R c) → Proc C R ε α)

namespace Proc
variable {C : Type} {R : C → Type} {ε α β : Type}

def bind : Proc C R ε α → (α → Proc C R ε β) → Proc C R ε β
  | ret a, f => f a
  | raise e, _ => raise e
  | call c next, f => call c fun r => (next r).bind f

def handle : Proc C R ε α → (ε → Proc C R ε α) → Proc C R ε α
  | ret a, _ => ret a
  | raise e, h => h e
  | call c next, h => call c fun r => (next r).handle h

instance : Monad (Proc C R ε) where
  pure := ret
  bind := bind

instance : MonadExceptOf ε (Proc C R ε) where
  throw := raise
  tryCatch := handle

/-- Issue one command and wait for its answer. -/
def perform (c : C) : Proc C R ε (R c) :=
  call c fun
    | .ok a => ret a
    | .error e => raise e

/-- `try … finally`: the clean-up runs however `x` ended. -/
def ensuring : Proc C R ε α → Proc C R ε Unit → Proc C R ε α
  | ret a, cleanup => cleanup.bind fun _ => ret a
  | raise e, cleanup => cleanup.bind fun _ => raise e
  | call c next, cleanup => call c fun r => (next r).ensuring cleanup

/-- Go on with whatever `x` ended with. -/
def andThen : Proc C R ε α → (Except ε α → Proc C R ε β) → Proc C R ε β
  | ret a, f => f (.ok a)
  | raise e, f => f (.error e)
  | call c next, f => call c fun r => (next r).andThen f

/-- The outcome of a program that is through. -/
def outcome? : Proc C R ε α → Option (Except ε α)
  | ret a => some (.ok a)
  | raise e => some (.error e)
  | call _ _ => none

@[simp] theorem pure_eq (a : α) : (pure a : Proc C R ε α) = ret a := rfl
@[simp] theorem throw_eq (e : ε) : (throw e : Proc C R ε α) = raise e := rfl
@[simp] theorem bind_eq (x : Proc C R ε α) (f : α → Proc C R ε β) : x >>= f = x.bind f := rfl
@[simp] theorem ret_bind (a : α) (f : α → Proc C R ε β) : (ret a).bind f = f a := rfl
@[simp] theorem raise_bind (e : ε) (f : α → Proc C R ε β) : (raise e).bind f = raise e := rfl
@[simp] theorem call_bind (c : C) (next : Except ε (R c) → Proc C R ε α)
    (f : α → Proc C R ε β) : (call c next).bind f = call c fun r => (next r).bind f := rfl
@[simp] theorem outcome?_ret (a : α) : (ret a : Proc C R ε α).outcome? = some (.ok a) := rfl
@[simp] theorem outcome?_raise (e : ε) : (raise e : Proc C R ε α).outcome? = some (.error e) := rfl
@[simp] theorem outcome?_call (c : C) (next : Except ε (R c) → Proc C R ε α) :
    (call c next).outcome? = none := rfl

theorem bind_ret (x : Proc C R ε α) : x.bind ret = x := by
  induction x with
  | ret a => rfl
  | raise e => rfl
  | call c next ih => exact congrArg (call c) (funext ih)

theorem bind_assoc {γ : Type} (x : Proc C R ε α) (f : α → Proc C R ε β) (g : β → Proc C R ε γ) :
    (x.bind f).bind g = x.bind fun a => (f a).bind g := by
  induction x with
  | ret a => rfl
  | raise e => rfl
  | call c next ih => exact congrArg (call c) (funext ih)

instance : LawfulMonad (Proc C R ε) := LawfulMonad.mk' _ bind_ret (fun _ _ => rfl) bind_assoc

/-- The program is about to issue its next command, or is through. -/
theorem outcome?_eq_none {x : Proc C R ε α} : x.outcome? = none ↔ ∃ c next, x = call c next := by
  cases x with
  | ret a => simp
  | raise e => simp
  | call c next => simp

theorem eq_of_outcome? {x : Proc C R ε α} {r : Except ε α} (h : x.outcome? = some r) :
    (∃ a, r = .ok a ∧ x = ret a) ∨ (∃ e, r = .error e ∧ x = raise e) := by
  cases x with
  | ret a => exact .inl ⟨a,(Option.some.inj h).symm,rfl⟩
  | raise e => exact .inr ⟨e,(Option.some.inj h).symm,rfl⟩
  | call c next => cases h

end Proc

section Discipline

/-- An invariant of the shared state, what the program with a given number may
rely on between two of its steps, and what each of its own steps keeps. -/
structure Discipline (S : Type) where
  inv : S → Prop
  rely : ℕ → S → S → Prop
  guar : ℕ → S → S → Prop
  rely_refl : ∀ i s, rely i s s
  rely_trans : ∀ i {s t u}, rely i s t → rely i t u → rely i s u

namespace Discipline
variable {S : Type}

/-- What one program keeps the others may rely on. -/
def Shared (D : Discipline S) : Prop := ∀ {i j s t}, i ≠ j → D.guar i s t → D.rely j s t

/-- Every step of every program stays in one preorder. -/
def uniform (inv : S → Prop) (grows : S → S → Prop) (hrefl : ∀ s, grows s s)
    (htrans : ∀ {s t u}, grows s t → grows t u → grows s u) : Discipline S where
  inv := inv
  rely := fun _ => grows
  guar := fun _ => grows
  rely_refl := fun _ => hrefl
  rely_trans := fun _ _ _ _ => htrans

/-- Nobody else takes a turn, and only the invariant has to be kept. -/
def alone (inv : S → Prop) : Discipline S where
  inv := inv
  rely := fun _ s t => s = t
  guar := fun _ _ _ => True
  rely_refl := fun _ _ => rfl
  rely_trans := fun _ _ _ _ => Eq.trans

/-- Nothing is kept and nothing is relied on. -/
def free : Discipline S := uniform (fun _ => True) (fun _ _ => True) (fun _ => trivial)
  fun _ _ => trivial

theorem free_shared : (free : Discipline S).Shared := fun _ _ => trivial

end Discipline

variable {C : Type} {R : C → Type} {ε S ℓ α β : Type}

/-- From the state `s` and its own session, the program keeps the discipline in
each of its steps and ends as `Q` says, whatever the others do in between. -/
def Meets (D : Discipline S) (i : ℕ) (exec : S → ℓ → (c : C) → Except ε (R c) → S → ℓ → Prop)
    (Q : Except ε α → S → ℓ → Prop) : Proc C R ε α → S → ℓ → Prop
  | .ret a, s, l => ∀ t, D.rely i s t → D.inv t → Q (.ok a) t l
  | .raise e, s, l => ∀ t, D.rely i s t → D.inv t → Q (.error e) t l
  | .call c next, s, l => ∀ t, D.rely i s t → D.inv t → ∀ r t' l', exec t l c r t' l' →
      (D.inv t' ∧ D.guar i t t') ∧ Meets D i exec Q (next r) t' l'

namespace Meets
variable {D : Discipline S} {i : ℕ} {exec : S → ℓ → (c : C) → Except ε (R c) → S → ℓ → Prop}
  {Q Q' : Except ε α → S → ℓ → Prop} {x : Proc C R ε α} {s t : S} {l : ℓ}

theorem later (h : ∀ t, D.rely i s t → D.inv t → Meets D i exec Q x t l) :
    Meets D i exec Q x s l := by
  cases x with
  | ret a => exact fun t ht hi => h t ht hi t (D.rely_refl i t) hi
  | raise e => exact fun t ht hi => h t ht hi t (D.rely_refl i t) hi
  | call c next => exact fun t ht hi => h t ht hi t (D.rely_refl i t) hi

theorem of_rely (hst : D.rely i s t) (h : Meets D i exec Q x s l) : Meets D i exec Q x t l := by
  cases x with
  | ret a => exact fun u hu => h u (D.rely_trans i hst hu)
  | raise e => exact fun u hu => h u (D.rely_trans i hst hu)
  | call c next => exact fun u hu => h u (D.rely_trans i hst hu)

theorem mono (hQ : ∀ r t l, D.inv t → Q r t l → Q' r t l) (h : Meets D i exec Q x s l) :
    Meets D i exec Q' x s l := by
  induction x generalizing s l with
  | ret a => exact fun t ht hi => hQ _ _ _ hi (h t ht hi)
  | raise e => exact fun t ht hi => hQ _ _ _ hi (h t ht hi)
  | call c next ih =>
    intro t ht hi r t' l' he
    obtain ⟨hkept,hnext⟩ := h t ht hi r t' l' he
    exact ⟨hkept,ih r hnext⟩

theorem and (h : Meets D i exec Q x s l) (h' : Meets D i exec Q' x s l) :
    Meets D i exec (fun r t l => Q r t l ∧ Q' r t l) x s l := by
  induction x generalizing s l with
  | ret a => exact fun t ht hi => ⟨h t ht hi,h' t ht hi⟩
  | raise e => exact fun t ht hi => ⟨h t ht hi,h' t ht hi⟩
  | call c next ih =>
    intro t ht hi r t' l' he
    obtain ⟨hkept,hnext⟩ := h t ht hi r t' l' he
    exact ⟨hkept,ih r hnext (h' t ht hi r t' l' he).2⟩

/-- What every step keeps holds at the end. -/
theorem keeping {P : S → Prop} (hrely : ∀ {s t}, P s → D.rely i s t → P t)
    (hguar : ∀ {s t}, P s → D.guar i s t → P t) (hs : P s) (h : Meets D i exec Q x s l) :
    Meets D i exec (fun r t l => Q r t l ∧ P t) x s l := by
  induction x generalizing s l with
  | ret a => exact fun t ht hi => ⟨h t ht hi,hrely hs ht⟩
  | raise e => exact fun t ht hi => ⟨h t ht hi,hrely hs ht⟩
  | call c next ih =>
    intro t ht hi r t' l' he
    obtain ⟨⟨hinv,hkept⟩,hnext⟩ := h t ht hi r t' l' he
    exact ⟨⟨hinv,hkept⟩,ih r (hguar (hrely hs ht) hkept) hnext⟩

theorem ret {a : α} (h : ∀ t, D.rely i s t → D.inv t → Q (.ok a) t l) :
    Meets D i exec Q (.ret a) s l := h

theorem raise {e : ε} (h : ∀ t, D.rely i s t → D.inv t → Q (.error e) t l) :
    Meets D i exec Q (.raise e : Proc C R ε α) s l := h

/-- The rule of one command: what holds where it is issued, and for each answer. -/
theorem call {c : C} {next : Except ε (R c) → Proc C R ε α}
    (h : ∀ t, D.rely i s t → D.inv t → ∀ r t' l', exec t l c r t' l' →
      (D.inv t' ∧ D.guar i t t') ∧ Meets D i exec Q (next r) t' l') :
    Meets D i exec Q (.call c next) s l := h

theorem bind {f : α → Proc C R ε β} {Q₁ : Except ε β → S → ℓ → Prop}
    (hx : Meets D i exec Q x s l)
    (hok : ∀ a t l, D.inv t → Q (.ok a) t l → Meets D i exec Q₁ (f a) t l)
    (herror : ∀ e t l, D.inv t → Q (.error e) t l → Q₁ (.error e) t l) :
    Meets D i exec Q₁ (x.bind f) s l := by
  induction x generalizing s l with
  | ret a => exact later fun t ht hi => hok a t l hi (hx t ht hi)
  | raise e => exact fun t ht hi => herror e t l hi (hx t ht hi)
  | call c next ih =>
    intro t ht hi r t' l' he
    obtain ⟨hkept,hnext⟩ := hx t ht hi r t' l' he
    exact ⟨hkept,ih r hnext⟩

theorem andThen {f : Except ε α → Proc C R ε β} {Q₁ : Except ε β → S → ℓ → Prop}
    (hx : Meets D i exec Q x s l)
    (hnext : ∀ r t l, D.inv t → Q r t l → Meets D i exec Q₁ (f r) t l) :
    Meets D i exec Q₁ (x.andThen f) s l := by
  induction x generalizing s l with
  | ret a => exact later fun t ht hi => hnext (.ok a) t l hi (hx t ht hi)
  | raise e => exact later fun t ht hi => hnext (.error e) t l hi (hx t ht hi)
  | call c next ih =>
    intro t ht hi r t' l' he
    obtain ⟨hkept,hcont⟩ := hx t ht hi r t' l' he
    exact ⟨hkept,ih r hcont⟩

/-- `try … finally`: the clean-up starts where the body ended. -/
theorem ensuring {cleanup : Proc C R ε Unit} {Q₁ : Except ε α → S → ℓ → Prop}
    (hx : Meets D i exec Q x s l)
    (hok : ∀ a t l, D.inv t → Q (.ok a) t l →
      Meets D i exec Q₁ (cleanup.bind fun _ => .ret a) t l)
    (herror : ∀ e t l, D.inv t → Q (.error e) t l →
      Meets D i exec Q₁ (cleanup.bind fun _ => .raise e) t l) :
    Meets D i exec Q₁ (x.ensuring cleanup) s l := by
  induction x generalizing s l with
  | ret a => exact later fun t ht hi => hok a t l hi (hx t ht hi)
  | raise e => exact later fun t ht hi => herror e t l hi (hx t ht hi)
  | call c next ih =>
    intro t ht hi r t' l' he
    obtain ⟨hkept,hnext⟩ := hx t ht hi r t' l' he
    exact ⟨hkept,ih r hnext⟩

/-- `try … except`: the handler starts where the exception was raised. -/
theorem handle {h : ε → Proc C R ε α} {Q₁ : Except ε α → S → ℓ → Prop} (hx : Meets D i exec Q x s l)
    (hok : ∀ a t l, D.inv t → Q (.ok a) t l → Q₁ (.ok a) t l)
    (herror : ∀ e t l, D.inv t → Q (.error e) t l → Meets D i exec Q₁ (h e) t l) :
    Meets D i exec Q₁ (x.handle h) s l := by
  induction x generalizing s l with
  | ret a => exact fun t ht hi => hok a t l hi (hx t ht hi)
  | raise e => exact later fun t ht hi => herror e t l hi (hx t ht hi)
  | call c next ih =>
    intro t ht hi r t' l' he
    obtain ⟨hkept,hnext⟩ := hx t ht hi r t' l' he
    exact ⟨hkept,ih r hnext⟩

end Meets

/-- Every command that the program may issue satisfies `p`. -/
def Issues (p : C → Prop) : Proc C R ε α → Prop
  | .ret _ => True
  | .raise _ => True
  | .call c next => p c ∧ ∀ r, Issues p (next r)

namespace Issues
variable {p q : C → Prop} {x : Proc C R ε α}

theorem of_all (h : ∀ c, p c) (x : Proc C R ε α) : Issues p x := by
  induction x with
  | ret a => trivial
  | raise e => trivial
  | call c next ih => exact ⟨h c,ih⟩

theorem mono (h : ∀ c, p c → q c) (hx : Issues p x) : Issues q x := by
  induction x with
  | ret a => trivial
  | raise e => trivial
  | call c next ih => exact ⟨h c hx.1,fun r => ih r (hx.2 r)⟩

theorem bind {f : α → Proc C R ε β} (hx : Issues p x) (hf : ∀ a, Issues p (f a)) :
    Issues p (x.bind f) := by
  induction x with
  | ret a => exact hf a
  | raise e => trivial
  | call c next ih => exact ⟨hx.1,fun r => ih r (hx.2 r)⟩

theorem handle {h : ε → Proc C R ε α} (hx : Issues p x) (hh : ∀ e, Issues p (h e)) :
    Issues p (x.handle h) := by
  induction x with
  | ret a => trivial
  | raise e => exact hh e
  | call c next ih => exact ⟨hx.1,fun r => ih r (hx.2 r)⟩

theorem ensuring {cleanup : Proc C R ε Unit} (hx : Issues p x) (hc : Issues p cleanup) :
    Issues p (x.ensuring cleanup) := by
  induction x with
  | ret a => exact hc.bind fun _ => trivial
  | raise e => exact hc.bind fun _ => trivial
  | call c next ih => exact ⟨hx.1,fun r => ih r (hx.2 r)⟩

theorem perform {c : C} (h : p c) : Issues p (Proc.perform c : Proc C R ε (R c)) := by
  refine ⟨h,fun r => ?_⟩
  cases r <;> trivial

/-- What each such command keeps, the program keeps, if the others keep it as well. -/
theorem keeps {D : Discipline S} {i : ℕ}
    {exec : S → ℓ → (c : C) → Except ε (R c) → S → ℓ → Prop} {I : S → Prop}
    (hrely : ∀ s t, I s → D.rely i s t → D.inv t → I t)
    (h : ∀ c, p c → ∀ t l r t' l', D.inv t → I t → exec t l c r t' l' →
      (D.inv t' ∧ D.guar i t t') ∧ I t')
    (hx : Issues p x) {s : S} {l : ℓ} (hs : I s) : Meets D i exec (fun _ t _ => I t) x s l := by
  induction x generalizing s l with
  | ret a => exact fun t ht hi => hrely s t hs ht hi
  | raise e => exact fun t ht hi => hrely s t hs ht hi
  | call c next ih =>
    intro t ht hi r t' l' he
    obtain ⟨hkept,ht'⟩ := h c hx.1 t l r t' l' hi (hrely s t hs ht hi) he
    exact ⟨hkept,ih r (hx.2 r) ht'⟩

/-- When each such command keeps the discipline in every state, so does the program. -/
theorem meets {D : Discipline S} {i : ℕ}
    {exec : S → ℓ → (c : C) → Except ε (R c) → S → ℓ → Prop}
    (h : ∀ c, p c → ∀ t l r t' l', D.inv t → exec t l c r t' l' → D.inv t' ∧ D.guar i t t')
    (hx : Issues p x) (s : S) (l : ℓ) : Meets D i exec (fun _ _ _ => True) x s l :=
  hx.keeps (I := fun _ => True) (fun _ _ _ _ _ => trivial)
    (fun c hc t l r t' l' hi _ he => ⟨h c hc t l r t' l' hi he,trivial⟩) trivial

end Issues
end Discipline
end SafeDecoder
