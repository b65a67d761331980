import Mathlib.Data.List.Forall2

/-! # Exceptions that keep the state

`EStateM ε σ` keeps the state reached when an exception is raised, as a running
program does, and `Except ε` is its pure reading. The lemmas below run the
constructors of a program one at a time.
-/
namespace SafeDecoder.Effects
variable {ε σ α β : Type}

section Operations
variable {m : Type → Type} [Monad m] [MonadExceptOf ε m]

/-- Run a computation that only can return or raise. -/
def fromExcept : Except ε α → m α
  | .ok a => pure a
  | .error e => throw e

/-- An `except` clause: only the exceptions in `caught` reach the handler. -/
def catchOnly (caught : ε → Bool) (x : m α) (handler : ε → m α) : m α :=
  tryCatch x fun e => if caught e then handler e else throw e

end Operations

@[simp] theorem catchOnly_ok (caught : ε → Bool) (a : α) (h : ε → Except ε α) :
    catchOnly caught (.ok a) h = .ok a := rfl
theorem catchOnly_error (caught : ε → Bool) (e : ε) (h : ε → Except ε α) :
    catchOnly caught (.error e) h = if caught e then h e else .error e := rfl
@[simp] theorem fromExcept_eq (y : Except ε α) : (fromExcept y : Except ε α) = y := by
  cases y <;> rfl

/-- The state in which a computation ended, however it ended. -/
def finalState : EStateM.Result ε σ α → σ
  | .ok _ s => s
  | .error _ s => s

/-- `try … finally`: the clean-up runs on whatever state was reached. -/
def ensuring (x : EStateM ε σ α) (cleanup : σ → σ) : EStateM ε σ α := fun s =>
  match x s with
  | .ok a t => .ok a (cleanup t)
  | .error e t => .error e (cleanup t)

theorem run_bind_ok {x : EStateM ε σ α} {f : α → EStateM ε σ β} {s t : σ} {a : α}
    (h : x s = .ok a t) : (x >>= f) s = f a t := by
  change EStateM.bind x f s = f a t
  simp only [EStateM.bind, h]

theorem run_bind_error {x : EStateM ε σ α} {f : α → EStateM ε σ β} {s t : σ} {e : ε}
    (h : x s = .error e t) : (x >>= f) s = .error e t := by
  change EStateM.bind x f s = .error e t
  simp only [EStateM.bind, h]

theorem run_bind_eq_ok {x : EStateM ε σ α} {f : α → EStateM ε σ β} {s t : σ} {b : β}
    (h : (x >>= f) s = .ok b t) : ∃ a u, x s = .ok a u ∧ f a u = .ok b t := by
  cases hx : x s with
  | ok a u =>
    rw [run_bind_ok hx] at h
    exact ⟨a,u,rfl,h⟩
  | error e u =>
    rw [run_bind_error hx] at h
    cases h

theorem run_fromExcept_eq_ok {y : Except ε α} {s t : σ} {a : α}
    (h : (fromExcept y : EStateM ε σ α) s = .ok a t) : y = .ok a ∧ t = s := by
  cases y with
  | ok b =>
    cases h
    exact ⟨rfl,rfl⟩
  | error e => cases h

theorem finalState_of_ok {x : EStateM ε σ α} {s t : σ} {a : α} (h : x s = .ok a t) :
    finalState (x s) = t := by
  rw [h]
  rfl

theorem finalState_ensuring (x : EStateM ε σ α) (cleanup : σ → σ) (s : σ) :
    finalState (ensuring x cleanup s) = cleanup (finalState (x s)) := by
  unfold ensuring
  cases x s <;> rfl

theorem ensuring_eq_ok {x : EStateM ε σ α} {cleanup : σ → σ} {s t : σ} {a : α}
    (h : ensuring x cleanup s = .ok a t) : ∃ u, x s = .ok a u ∧ t = cleanup u := by
  unfold ensuring at h
  cases hx : x s with
  | ok b u =>
    simp only [hx, EStateM.Result.ok.injEq] at h
    exact ⟨u,by rw [h.1],h.2.symm⟩
  | error e u =>
    simp only [hx] at h
    cases h

theorem run_catchOnly_ok {caught : ε → Bool} {x : EStateM ε σ α} {handler : ε → EStateM ε σ α}
    {s t : σ} {a : α} (h : x s = .ok a t) : catchOnly caught x handler s = .ok a t := by
  change EStateM.tryCatch x _ s = .ok a t
  simp only [EStateM.tryCatch, h]

theorem run_catchOnly_error {caught : ε → Bool} {x : EStateM ε σ α} {handler : ε → EStateM ε σ α}
    {s t : σ} {e : ε} (h : x s = .error e t) :
    catchOnly caught x handler s = if caught e then handler e t else .error e t := by
  change EStateM.tryCatch x _ s = _
  simp only [EStateM.tryCatch, h]
  cases caught e <;> rfl

/-- A handler that gives nothing is not where a result comes from. -/
theorem run_catchOnly_eq_some {caught : ε → Bool} {x : EStateM ε σ (Option α)} {s t : σ} {a : α}
    (h : catchOnly caught x (fun _ => pure none) s = .ok (some a) t) : x s = .ok (some a) t := by
  cases hx : x s with
  | ok b u =>
    rw [run_catchOnly_ok hx] at h
    exact h
  | error e u =>
    rw [run_catchOnly_error hx] at h
    split at h
    · cases h
    · cases h

/-- A handler that keeps the state ends where the exception was raised. -/
theorem finalState_catchOnly {caught : ε → Bool} {x : EStateM ε σ α} {handler : ε → EStateM ε σ α}
    (h : ∀ e t, finalState (handler e t) = t) (s : σ) :
    finalState (catchOnly caught x handler s) = finalState (x s) := by
  cases hx : x s with
  | ok a t => rw [run_catchOnly_ok hx]
  | error e t =>
    rw [run_catchOnly_error hx]
    split
    · exact h e t
    · rfl

section Pure

@[simp] theorem ok_bind (a : α) (f : α → Except ε β) : (Except.ok a >>= f) = f a := rfl
@[simp] theorem error_bind (e : ε) (f : α → Except ε β) : (Except.error e >>= f) = .error e := rfl

theorem bind_eq_ok_iff {x : Except ε α} {f : α → Except ε β} {b : β} :
    x >>= f = .ok b ↔ ∃ a, x = .ok a ∧ f a = .ok b := by
  cases x with
  | ok a =>
    constructor
    · exact fun h => ⟨a,rfl,h⟩
    · rintro ⟨_,ha,h⟩
      cases ha
      exact h
  | error e =>
    constructor
    · intro h
      cases h
    · rintro ⟨_,ha,_⟩
      cases ha

theorem mapM_eq_ok_iff {f : α → Except ε β} {l : List α} {r : List β} :
    l.mapM f = .ok r ↔ List.Forall₂ (fun a b => f a = .ok b) l r := by
  induction l generalizing r with
  | nil =>
    rw [List.mapM_nil, List.forall₂_nil_left_iff]
    exact ⟨fun h => (Except.ok.inj h).symm,fun h => by rw [h]; rfl⟩
  | cons a l ih =>
    rw [List.mapM_cons, bind_eq_ok_iff]
    constructor
    · rintro ⟨b,hb,h⟩
      obtain ⟨bs,hbs,h⟩ := bind_eq_ok_iff.mp h
      cases h
      exact List.Forall₂.cons hb (ih.mp hbs)
    · intro h
      cases h with
      | cons hb hbs => exact ⟨_,hb,bind_eq_ok_iff.mpr ⟨_,ih.mpr hbs,rfl⟩⟩

/-- The results are those of the elements. -/
theorem mem_mapM {f : α → Except ε β} {l : List α} {r : List β} (h : l.mapM f = .ok r) {b : β} :
    b ∈ r ↔ ∃ a ∈ l, f a = .ok b := by
  have hr := mapM_eq_ok_iff.mp h
  clear h
  induction hr with
  | nil => simp
  | cons hb hbs ih =>
    simp only [List.mem_cons, ih, exists_eq_or_imp, hb, Except.ok.injEq]
    exact or_congr_left eq_comm

theorem exists_mapM_eq_ok {f : α → Except ε β} {l : List α} :
    (∃ r, l.mapM f = .ok r) ↔ ∀ a ∈ l, ∃ b, f a = .ok b := by
  induction l with
  | nil => exact ⟨fun _ a ha => absurd ha List.not_mem_nil,fun _ => ⟨[],rfl⟩⟩
  | cons a l ih =>
    rw [List.forall_mem_cons, ← ih]
    simp only [List.mapM_cons, bind_eq_ok_iff]
    constructor
    · rintro ⟨r,b,hb,bs,hbs,_⟩
      exact ⟨⟨b,hb⟩,bs,hbs⟩
    · rintro ⟨⟨b,hb⟩,bs,hbs⟩
      exact ⟨_,b,hb,bs,hbs,rfl⟩

/-- A list of computations all of which return. -/
theorem mapM_eq_ok {f : α → Except ε β} {g : α → β} {l : List α}
    (h : ∀ a ∈ l, f a = .ok (g a)) : l.mapM f = .ok (l.map g) := by
  rw [mapM_eq_ok_iff, List.forall₂_map_right_iff, List.forall₂_same]
  exact h

/-- Every exception that the computation can raise satisfies `E`. -/
def RaisesOnly (E : ε → Prop) (x : Except ε α) : Prop := ∀ e, x = .error e → E e

section RaisesOnly
variable {E F : ε → Prop} {x : Except ε α}

theorem RaisesOnly.ok (a : α) : RaisesOnly E (.ok a) := fun _ h => nomatch h

theorem RaisesOnly.error {e : ε} (h : E e) : RaisesOnly E (.error e : Except ε α) := by
  intro e' he
  cases he
  exact h

theorem RaisesOnly.bind {f : α → Except ε β} (hx : RaisesOnly E x)
    (hf : ∀ a, x = .ok a → RaisesOnly E (f a)) : RaisesOnly E (x >>= f) := by
  cases x with
  | ok a => exact hf a rfl
  | error e => exact RaisesOnly.error (hx e rfl)

theorem RaisesOnly.mapM {f : α → Except ε β} {l : List α} (h : ∀ a ∈ l, RaisesOnly E (f a)) :
    RaisesOnly E (l.mapM f) := by
  induction l with
  | nil => exact RaisesOnly.ok []
  | cons a l ih =>
    rw [List.mapM_cons]
    apply (h a (List.mem_cons_self ..)).bind
    intro b _
    exact (ih fun a' ha => h a' (List.mem_cons_of_mem _ ha)).bind fun bs _ => RaisesOnly.ok _

theorem RaisesOnly.mono (hx : RaisesOnly E x) (h : ∀ e, E e → F e) : RaisesOnly F x :=
  fun e he => h e (hx e he)

/-- What an `except` clause lets through it does not catch. -/
theorem RaisesOnly.catchOnly {caught : ε → Bool} {a : α} (hx : RaisesOnly E x) :
    RaisesOnly (fun e => E e ∧ caught e = false) (catchOnly caught x fun _ => .ok a) := by
  cases x with
  | ok b => exact RaisesOnly.ok b
  | error e =>
    rw [catchOnly_error]
    cases hc : caught e with
    | true => exact RaisesOnly.ok a
    | false => exact RaisesOnly.error ⟨hx e rfl,hc⟩

/-- A result that is not the one of the handler comes from the guarded computation. -/
theorem eq_ok_of_catchOnly {caught : ε → Bool} {a b : α}
    (hx : RaisesOnly (fun e => caught e = false) x)
    (h : catchOnly caught x (fun _ => .ok a) = .ok b) : x = .ok b := by
  cases x with
  | ok c => exact h
  | error e =>
    rw [catchOnly_error, if_neg (by rw [hx e rfl]; exact Bool.false_ne_true)] at h
    cases h

end RaisesOnly
end Pure
end SafeDecoder.Effects
