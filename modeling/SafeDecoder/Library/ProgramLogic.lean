import SafeDecoder.Library.Effects

/-! # Triples, pure readings and programs over two monads

A triple says what holds when a computation returns and when it raises, under an
invariant that it keeps in both cases. A computation agrees with a pure one under
a proposition when its outcome is then the pure outcome. A program written once over any monad with
exceptions is compared at two monads through a relation that the constructors of
the program preserve.
-/
namespace SafeDecoder.Effects
variable {ε σ α β : Type} {I : σ → Prop}

/-- From `I` the computation ends in `I`, with `Q` if it returns and `E` if it raises. -/
def Triple (I : σ → Prop) (x : EStateM ε σ α) (Q : α → Prop) (E : ε → Prop) : Prop :=
  ∀ s, I s → (∀ a t, x s = .ok a t → I t ∧ Q a) ∧ ∀ e t, x s = .error e t → I t ∧ E e

section Triples
variable {Q : α → Prop} {E : ε → Prop} {x : EStateM ε σ α}

theorem Triple.pure {a : α} (h : Q a) : Triple I (pure a : EStateM ε σ α) Q E := by
  refine fun s hs => ⟨fun b t hb => ?_,fun e t he => ?_⟩
  · cases hb
    exact ⟨hs,h⟩
  · cases he

theorem Triple.throw {e : ε} (h : E e) : Triple I (throw e : EStateM ε σ α) Q E := by
  refine fun s hs => ⟨fun b t hb => ?_,fun e' t he => ?_⟩
  · cases hb
  · cases he
    exact ⟨hs,h⟩

theorem Triple.lift {y : Except ε α} (hq : ∀ a, y = .ok a → Q a) (he : ∀ e, y = .error e → E e) :
    Triple I (fromExcept y : EStateM ε σ α) Q E := by
  cases y with
  | ok a => exact Triple.pure (hq a rfl)
  | error e => exact Triple.throw (he e rfl)

theorem Triple.bind {P : α → Prop} {R : β → Prop} {f : α → EStateM ε σ β} (hx : Triple I x P E)
    (hf : ∀ a, P a → Triple I (f a) R E) : Triple I (x >>= f) R E := by
  intro s hs
  cases hr : x s with
  | ok a t =>
    obtain ⟨ht,ha⟩ := (hx s hs).1 a t hr
    rw [run_bind_ok hr]
    exact hf a ha t ht
  | error e t =>
    have he := (hx s hs).2 e t hr
    rw [run_bind_error hr]
    refine ⟨fun b u hb => ?_,fun e' u hu => ?_⟩
    · cases hb
    · cases hu
      exact he

theorem Triple.mono {P : α → Prop} {F : ε → Prop} (hx : Triple I x P F) (hq : ∀ a, P a → Q a)
    (he : ∀ e, F e → E e) : Triple I x Q E := by
  intro s hs
  refine ⟨fun a t h => ?_,fun e t h => ?_⟩
  · obtain ⟨ht,ha⟩ := (hx s hs).1 a t h
    exact ⟨ht,hq a ha⟩
  · obtain ⟨ht,hf⟩ := (hx s hs).2 e t h
    exact ⟨ht,he e hf⟩

theorem Triple.ite {c : Prop} {_ : Decidable c} {x' : EStateM ε σ α} (hx : Triple I x Q E)
    (hx' : Triple I x' Q E) : Triple I (if c then x else x') Q E := by
  split
  · exact hx
  · exact hx'

theorem Triple.catchOnly {F : ε → Prop} {caught : ε → Bool} {h : ε → EStateM ε σ α}
    (hx : Triple I x Q F) (hh : ∀ e, F e → caught e = true → Triple I (h e) Q E)
    (hn : ∀ e, F e → caught e = false → E e) : Triple I (catchOnly caught x h) Q E := by
  intro s hs
  cases hr : x s with
  | ok a t =>
    have ha := (hx s hs).1 a t hr
    rw [run_catchOnly_ok hr]
    refine ⟨fun b u hb => ?_,fun e u hu => ?_⟩
    · cases hb
      exact ha
    · cases hu
  | error e t =>
    obtain ⟨ht,hf⟩ := (hx s hs).2 e t hr
    rw [run_catchOnly_error hr]
    cases hc : caught e with
    | true => exact hh e hf hc t ht
    | false =>
      refine ⟨fun b u hb => ?_,fun e' u hu => ?_⟩
      · cases hb
      · cases hu
        exact ⟨ht,hn e hf hc⟩

theorem Triple.trivial (x : EStateM ε σ α) :
    Triple (fun _ => True) x (fun _ => True) fun _ => True :=
  fun _ _ => ⟨fun _ _ _ => ⟨True.intro,True.intro⟩,fun _ _ _ => ⟨True.intro,True.intro⟩⟩

/-- Reading the state is harmless when every state of the invariant continues alike. -/
theorem Triple.get_bind {f : σ → EStateM ε σ α} (h : ∀ s, I s → Triple I (f s) Q E) :
    Triple I (get >>= f) Q E := fun s hs => h s hs s hs

theorem Triple.finalState (hx : Triple I x Q E) {s : σ} (hs : I s) : I (finalState (x s)) := by
  cases hr : x s with
  | ok a t => exact ((hx s hs).1 a t hr).1
  | error e t => exact ((hx s hs).2 e t hr).1

/-- A computation that cannot raise returns. -/
theorem Triple.returns (hx : Triple I x Q fun _ => False) {s : σ} (hs : I s) :
    ∃ a t, x s = .ok a t ∧ I t ∧ Q a := by
  cases hr : x s with
  | ok a t => exact ⟨a,t,rfl,(hx s hs).1 a t hr⟩
  | error e t => exact absurd ((hx s hs).2 e t hr).2 not_false

end Triples

section PureReadings
variable {p : Prop}

/-- From the invariant `x` ends in the invariant, and with the outcome of `y` if `p` holds. -/
def Agrees (p : Prop) (I : σ → Prop) (x : EStateM ε σ α) (y : Except ε α) : Prop :=
  Triple I x (fun a => p → y = .ok a) fun e => p → y = .error e

theorem Agrees.pure (a : α) : Agrees p I (pure a : EStateM ε σ α) (.ok a) :=
  Triple.pure fun _ => rfl

theorem Agrees.throw (e : ε) : Agrees p I (throw e : EStateM ε σ α) (.error e) :=
  Triple.throw fun _ => rfl

theorem Agrees.lift (y : Except ε α) : Agrees p I (fromExcept y : EStateM ε σ α) y :=
  Triple.lift (fun _ h _ => h) fun _ h _ => h

theorem Agrees.weaken {q : Prop} {x : EStateM ε σ α} {y : Except ε α} (h : q → p)
    (hx : Agrees p I x y) : Agrees q I x y :=
  hx.mono (fun _ ha hq => ha (h hq)) fun _ he hq => he (h hq)

theorem Agrees.congr {x : EStateM ε σ α} {y y' : Except ε α} (hx : Agrees p I x y)
    (h : p → y = y') : Agrees p I x y' :=
  hx.mono (fun _ ha hp => h hp ▸ ha hp) fun _ he hp => h hp ▸ he hp

theorem Agrees.bind {x : EStateM ε σ α} {y : Except ε α} {f : α → EStateM ε σ β}
    {g : α → Except ε β} (hx : Agrees p I x y) (hf : ∀ a, Agrees p I (f a) (g a)) :
    Agrees p I (x >>= f) (y >>= g) := by
  have hraise : Triple I x (fun a => p → y = .ok a) fun e => p → y >>= g = .error e :=
    hx.mono (fun _ h => h) fun e he hp => by
      rw [he hp]
      rfl
  refine Triple.bind hraise fun a ha => (hf a).mono (fun b hb hp => ?_) fun e he hp => ?_
  · rw [ha hp]
    exact hb hp
  · rw [ha hp]
    exact he hp

theorem Agrees.catchOnly {x : EStateM ε σ α} {y : Except ε α} (caught : ε → Bool)
    {h : ε → EStateM ε σ α} {k : ε → Except ε α} (hx : Agrees p I x y)
    (hh : ∀ e, Agrees p I (h e) (k e)) :
    Agrees p I (catchOnly caught x h) (catchOnly caught y k) := by
  have hreturn : Triple I x (fun a => p → Effects.catchOnly caught y k = .ok a)
      fun e => p → y = .error e :=
    hx.mono (fun a ha hp => by rw [ha hp, catchOnly_ok]) fun _ h => h
  refine Triple.catchOnly hreturn (fun e he hc => (hh e).mono (fun a ha hp => ?_)
    fun e' he' hp => ?_) fun e he hc hp => ?_
  · rw [he hp, catchOnly_error, if_pos hc]
    exact ha hp
  · rw [he hp, catchOnly_error, if_pos hc]
    exact he' hp
  · rw [he hp, catchOnly_error, hc]
    rfl

theorem Agrees.get_bind {f : σ → EStateM ε σ α} {y : Except ε α}
    (h : ∀ s, I s → Agrees p I (f s) y) : Agrees p I (get >>= f) y := Triple.get_bind h

/-- The pure outcome is what the computation ends with. -/
theorem Agrees.ok {x : EStateM ε σ α} {a : α} (hx : Agrees p I x (.ok a)) (hp : p) {s : σ}
    (hs : I s) : ∃ t, I t ∧ x s = .ok a t := by
  cases hr : x s with
  | ok b t =>
    obtain ⟨ht,hb⟩ := (hx s hs).1 b t hr
    cases hb hp
    exact ⟨t,ht,rfl⟩
  | error e t => cases ((hx s hs).2 e t hr).2 hp

theorem Agrees.error {x : EStateM ε σ α} {e : ε} (hx : Agrees p I x (.error e)) (hp : p) {s : σ}
    (hs : I s) : ∃ t, I t ∧ x s = .error e t := by
  cases hr : x s with
  | ok b t => cases ((hx s hs).1 b t hr).2 hp
  | error e' t =>
    obtain ⟨ht,he⟩ := (hx s hs).2 e' t hr
    cases he hp
    exact ⟨t,ht,rfl⟩

theorem Agrees.of_ok {x : EStateM ε σ α} {y : Except ε α} (hx : Agrees p I x y) {s t : σ}
    (hs : I s) {a : α} (h : x s = .ok a t) : I t ∧ (p → y = .ok a) := (hx s hs).1 a t h

/-- The computation keeps the invariant, whatever comes of it. -/
def Keeps (I : σ → Prop) (x : EStateM ε σ α) : Prop := Triple I x (fun _ => True) fun _ => True

theorem Agrees.keeps {x : EStateM ε σ α} {y : Except ε α} (hx : Agrees p I x y) : Keeps I x :=
  hx.mono (fun _ _ => trivial) fun _ _ => trivial

/-- Under a false proposition there is nothing to agree with. -/
theorem Keeps.agrees {x : EStateM ε σ α} (hx : Keeps I x) (y : Except ε α) : Agrees False I x y :=
  hx.mono (fun _ _ h => h.elim) fun _ _ h => h.elim

end PureReadings

section TwoMonads
variable {m m' : Type → Type} [Monad m] [MonadExceptOf ε m] [Monad m'] [MonadExceptOf ε m']

/-- A relation between the computations of two monads that the constructors of
a program preserve. -/
structure MonadRel (ε : Type) (m m' : Type → Type) [Monad m] [MonadExceptOf ε m] [Monad m']
    [MonadExceptOf ε m'] where
  Rel : {α : Type} → m α → m' α → Prop
  pure : ∀ {α : Type} (a : α), Rel (pure a) (pure a)
  throw : ∀ {α : Type} (e : ε), Rel (throw e : m α) (throw e)
  bind : ∀ {α β : Type} {x : m α} {y : m' α} {f : α → m β} {g : α → m' β}, Rel x y →
    (∀ a, Rel (f a) (g a)) → Rel (x >>= f) (y >>= g)
  throw_bind : ∀ {α β : Type} (e : ε) (f : α → m β) (g : α → m' β),
    Rel (fromExcept (.error e) >>= f) (fromExcept (.error e) >>= g)
  catchOnly : ∀ {α : Type} (caught : ε → Bool) {x : m α} {y : m' α} {h : ε → m α} {k : ε → m' α},
    Rel x y → (∀ e, Rel (h e) (k e)) → Rel (catchOnly caught x h) (catchOnly caught y k)

namespace MonadRel
variable (R : MonadRel ε m m')

theorem lift (y : Except ε α) : R.Rel (fromExcept y : m α) (fromExcept y) := by
  cases y with
  | ok a => exact R.pure a
  | error e => exact R.throw e

theorem lift_bind [LawfulMonad m] [LawfulMonad m'] {y : Except ε α} {f : α → m β} {g : α → m' β}
    (h : ∀ a, y = .ok a → R.Rel (f a) (g a)) :
    R.Rel (fromExcept y >>= f) (fromExcept y >>= g) := by
  cases y with
  | ok a =>
    simp only [fromExcept, pure_bind]
    exact h a rfl
  | error e => exact R.throw_bind e f g

theorem ite {c : Prop} {_ : Decidable c} {x x' : m α} {y y' : m' α} (hx : R.Rel x y)
    (hx' : R.Rel x' y') : R.Rel (if c then x else x') (if c then y else y') := by
  split
  · exact hx
  · exact hx'

theorem map [LawfulMonad m] [LawfulMonad m'] (f : α → β) {x : m α} {y : m' α} (hx : R.Rel x y) :
    R.Rel (f <$> x) (f <$> y) := by
  have h := R.bind hx fun a => R.pure (f a)
  rwa [bind_pure_comp, bind_pure_comp] at h

theorem mapM [LawfulMonad m] [LawfulMonad m'] {f : α → m β} {g : α → m' β}
    (hf : ∀ a, R.Rel (f a) (g a)) (l : List α) : R.Rel (l.mapM f) (l.mapM g) := by
  induction l with
  | nil =>
    rw [List.mapM_nil, List.mapM_nil]
    exact R.pure []
  | cons a l ih =>
    rw [List.mapM_cons, List.mapM_cons]
    exact R.bind (hf a) fun b => R.bind ih fun bs => R.pure (b :: bs)

end MonadRel

/-- Agreement with the pure reading is preserved by the constructors. -/
def agreesRel (p : Prop) (I : σ → Prop) : MonadRel ε (EStateM ε σ) (Except ε) where
  Rel := Agrees p I
  pure := Agrees.pure
  throw := Agrees.throw
  bind := Agrees.bind
  throw_bind e _ _ := Agrees.throw e
  catchOnly caught := Agrees.catchOnly caught

end TwoMonads
end SafeDecoder.Effects
