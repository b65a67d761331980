import SafeDecoder.Library.ProgramLogic
import SafeDecoder.Library.Programs

/-! # The outcomes that a computation may have

A computation whose questions others answer has a set of outcomes, and sets of
outcomes are a monad with exceptions. An interleaved program ends with one of the
outcomes of its text. Two sets are compared through a relation on the values,
apart from the failures that come from outside, which no handler catches.
-/
namespace SafeDecoder
open Effects

def Outcomes (ε α : Type) : Type := Except ε α → Prop

namespace Outcomes
variable {ε α β : Type}

instance : Monad (Outcomes ε) where
  pure a := fun r => r = .ok a
  bind x f := fun r => (∃ e, x (.error e) ∧ r = .error e) ∨ ∃ a, x (.ok a) ∧ f a r

instance : MonadExceptOf ε (Outcomes ε) where
  throw e := fun r => r = .error e
  tryCatch x h := fun r => (∃ a, x (.ok a) ∧ r = .ok a) ∨ ∃ e, x (.error e) ∧ h e r

section Membership
variable {x : Outcomes ε α} {f : α → Outcomes ε β}

theorem pure_iff {a : α} {r : Except ε α} : (pure a : Outcomes ε α) r ↔ r = .ok a := Iff.rfl

theorem throw_iff {e : ε} {r : Except ε α} : (throw e : Outcomes ε α) r ↔ r = .error e := Iff.rfl

theorem bind_iff {r : Except ε β} : (x >>= f) r ↔
    (∃ e, x (.error e) ∧ r = .error e) ∨ ∃ a, x (.ok a) ∧ f a r := Iff.rfl

theorem fromExcept_iff {y r : Except ε α} : (fromExcept y : Outcomes ε α) r ↔ r = y := by
  cases y <;> rfl

theorem catchOnly_iff {caught : ε → Bool} {h : ε → Outcomes ε α} {r : Except ε α} :
    catchOnly caught x h r ↔ (∃ a, x (.ok a) ∧ r = .ok a) ∨
      ∃ e, x (.error e) ∧ if caught e then h e r else r = .error e := by
  refine or_congr Iff.rfl (exists_congr fun e => and_congr_right fun _ => ?_)
  change (if caught e then h e else throw e : Outcomes ε α) r ↔ _
  cases caught e <;> rfl

/-- What is guarded starts with `x`. -/
theorem catchOnly_bind_iff {caught : ε → Bool} {h : ε → Outcomes ε β} {r : Except ε β} :
    catchOnly caught (x >>= f) h r ↔ (∃ e, x (.error e) ∧ catchOnly caught (throw e) h r) ∨
      ∃ a, x (.ok a) ∧ catchOnly caught (f a) h r := by
  simp only [catchOnly_iff, bind_iff, throw_iff]
  constructor
  · rintro (⟨b,⟨_,_,hb⟩ | ⟨a,ha,hb⟩,rfl⟩ | ⟨e,⟨e',he,heq⟩ | ⟨a,ha,hf⟩,hr⟩)
    · cases hb
    · exact .inr ⟨a,ha,.inl ⟨b,hb,rfl⟩⟩
    · cases heq
      exact .inl ⟨e,he,.inr ⟨e,rfl,hr⟩⟩
    · exact .inr ⟨a,ha,.inr ⟨e,hf,hr⟩⟩
  · rintro (⟨e,he,⟨_,ha,_⟩ | ⟨e',heq,hr⟩⟩ | ⟨a,ha,⟨b,hb,rfl⟩ | ⟨e,he,hr⟩⟩)
    · cases ha
    · cases heq
      exact .inr ⟨e,.inl ⟨e,he,rfl⟩,hr⟩
    · exact .inl ⟨b,.inr ⟨a,ha,hb⟩,rfl⟩
    · exact .inr ⟨e,.inr ⟨a,ha,he⟩,hr⟩

theorem catchOnly_throw_iff {caught : ε → Bool} {e : ε} {h : ε → Outcomes ε α} {r : Except ε α} :
    catchOnly caught (throw e) h r ↔ if caught e then h e r else r = .error e := by
  simp [catchOnly_iff, throw_iff]

theorem throw_bind (e : ε) (f : α → Outcomes ε β) : (throw e >>= f) = throw e := by
  funext r
  simp [bind_iff, throw_iff]

theorem catchOnly_throw {caught : ε → Bool} {e : ε} (h : ε → Outcomes ε α) (hc : caught e) :
    catchOnly caught (throw e) h = h e := by
  funext r
  rw [catchOnly_throw_iff, if_pos hc]

end Membership

instance : LawfulMonad (Outcomes ε) := by
  refine LawfulMonad.mk' _ (fun x => funext fun r => propext ?_) (fun a f => funext fun r => propext ?_)
    fun x f g => funext fun r => propext ?_
  · change ((∃ e, x (.error e) ∧ r = .error e) ∨ ∃ a, x (.ok a) ∧ r = .ok a) ↔ _
    cases r with
    | ok a => simp
    | error e => simp
  · simp only [bind_iff, pure_iff]
    simp
  · simp only [bind_iff]
    constructor
    · rintro (⟨e,⟨e',hx,he⟩ | ⟨a,hx,hf⟩,rfl⟩ | ⟨b,⟨e',_,he⟩ | ⟨a,hx,hf⟩,hg⟩)
      · exact .inl ⟨e',hx,congrArg _ (Except.error.inj he)⟩
      · exact .inr ⟨a,hx,.inl ⟨e,hf,rfl⟩⟩
      · cases he
      · exact .inr ⟨a,hx,.inr ⟨b,hf,hg⟩⟩
    · rintro (⟨e,hx,rfl⟩ | ⟨a,hx,⟨e,hf,rfl⟩ | ⟨b,hf,hg⟩⟩)
      · exact .inl ⟨e,.inl ⟨e,hx,rfl⟩,rfl⟩
      · exact .inl ⟨e,.inr ⟨a,hx,hf⟩,rfl⟩
      · exact .inr ⟨b,.inr ⟨a,hx,hf⟩,hg⟩

section Readings

variable {C : Type} {R : C → Type} {S ℓ : Type}

/-- An interleaved program ends with one of the outcomes of its text, in a state that
still satisfies `I`. -/
def ofMeets (D : Discipline S) (i : ℕ) (exec : S → ℓ → (c : C) → Except ε (R c) → S → ℓ → Prop)
    (I : S → Prop) (hrely : ∀ s t, I s → D.rely i s t → D.inv t → I t) :
    MonadRel ε (Proc C R ε) (Outcomes ε) where
  Rel x y := ∀ s l, I s → Meets D i exec (fun r t _ => I t ∧ y r) x s l
  pure _ := fun s _ hs => Meets.ret fun t ht hi => ⟨hrely s t hs ht hi,rfl⟩
  throw _ := fun s _ hs => Meets.raise fun t ht hi => ⟨hrely s t hs ht hi,rfl⟩
  bind := by
    intro α β x y f g hx hf s l hs
    refine (hx s l hs).bind (fun a t l _ ha => ?_) fun e t l _ he => ⟨he.1,.inl ⟨e,he.2,rfl⟩⟩
    exact (hf a t l ha.1).mono fun r u _ _ hr => ⟨hr.1,.inr ⟨a,ha.2,hr.2⟩⟩
  throw_bind e _ _ := fun s _ hs =>
    Meets.raise fun t ht hi => ⟨hrely s t hs ht hi,.inl ⟨e,rfl,rfl⟩⟩
  catchOnly := by
    intro α caught x y h k hx hh s l hs
    refine (hx s l hs).handle (fun a t l _ ha => ⟨ha.1,.inl ⟨a,ha.2,rfl⟩⟩) fun e t l _ he => ?_
    have hhandler : Meets D i exec (fun r u _ => I u ∧ (if caught e then k e else throw e) r)
        (if caught e then h e else throw e) t l := by
      cases caught e with
      | true => exact hh e t l he.1
      | false => exact Meets.raise fun u hu hi => ⟨hrely t u he.1 hu hi,rfl⟩
    exact hhandler.mono fun r u _ _ hr => ⟨hr.1,.inr ⟨e,he.2,hr.2⟩⟩

/-- Further outcomes may be added. -/
theorem ofMeets_mono {D : Discipline S} {i : ℕ}
    {exec : S → ℓ → (c : C) → Except ε (R c) → S → ℓ → Prop} {I : S → Prop}
    {hrely : ∀ s t, I s → D.rely i s t → D.inv t → I t} {x : Proc C R ε α} {y y' : Outcomes ε α}
    (h : (ofMeets D i exec I hrely).Rel x y) (hy : ∀ r, y r → y' r) :
    (ofMeets D i exec I hrely).Rel x y' :=
  fun s l hs => (h s l hs).mono fun r _ _ _ hr => ⟨hr.1,hy r hr.2⟩

end Readings

section Following
variable (Failed : ε → Prop)

/-- The outcome of a pure computation, or a failure from outside. -/
def orFailed (y : Except ε α) : Outcomes ε α := fun r => r = y ∨ ∃ e, r = .error e ∧ Failed e

/-- Every outcome is that of the pure computation, or a failure from outside. -/
def Follows (y : Except ε α) (x : Outcomes ε α) : Prop := ∀ r, x r → orFailed Failed y r

variable {Failed}

namespace Follows
variable {y : Except ε α} {x : Outcomes ε α}

theorem lift (y : Except ε α) : Follows Failed y (fromExcept y) :=
  fun _ hr => .inl (fromExcept_iff.mp hr)

theorem bind {g : α → Except ε β} {f : α → Outcomes ε β} (hx : Follows Failed y x)
    (hf : ∀ a, Follows Failed (g a) (f a)) : Follows Failed (y >>= g) (x >>= f) := by
  rintro r (⟨e,he,rfl⟩ | ⟨a,ha,hr⟩)
  · rcases hx _ he with rfl | ⟨_,h,hfailed⟩
    · exact .inl rfl
    · cases h
      exact .inr ⟨e,rfl,hfailed⟩
  · rcases hx _ ha with rfl | ⟨_,h,_⟩
    · exact hf a r hr
    · cases h

end Follows
end Following

section Comparison
variable (Failed : ε → Prop)

/-- Every outcome is a failure from outside or a value that satisfies `V`. -/
def Returns (V : α → Prop) (x : Outcomes ε α) : Prop :=
  ∀ r, x r → (∃ e, r = .error e ∧ Failed e) ∨ ∃ a, r = .ok a ∧ V a

/-- Two outcomes that are no failures are values that satisfy `V`. -/
def Related (V : α → β → Prop) (x : Outcomes ε α) (y : Outcomes ε β) : Prop :=
  ∀ r s, x r → y s → (∃ e, r = .error e ∧ Failed e) ∨ (∃ e, s = .error e ∧ Failed e) ∨
    ∃ a b, r = .ok a ∧ s = .ok b ∧ V a b

variable {Failed} {γ δ : Type}

namespace Returns
variable {V : α → Prop} {W : β → Prop} {x : Outcomes ε α}

theorem failed (hx : Returns Failed V x) {e : ε} (he : x (.error e)) : Failed e := by
  rcases hx _ he with ⟨e',heq,hf⟩ | ⟨a,heq,_⟩
  · cases heq
    exact hf
  · cases heq

theorem value (hx : Returns Failed V x) {a : α} (ha : x (.ok a)) : V a := by
  rcases hx _ ha with ⟨e,heq,_⟩ | ⟨a',heq,hv⟩
  · cases heq
  · cases heq
    exact hv

theorem pure {a : α} (h : V a) : Returns Failed V (pure a : Outcomes ε α) := by
  rintro _ rfl
  exact .inr ⟨a,rfl,h⟩

theorem mono {V' : α → Prop} (hx : Returns Failed V x) (hv : ∀ a, V a → V' a) :
    Returns Failed V' x := by
  intro r hr
  rcases hx r hr with hf | ⟨a,rfl,ha⟩
  · exact .inl hf
  · exact .inr ⟨a,rfl,hv a ha⟩

theorem bind {f : α → Outcomes ε β} (hx : Returns Failed V x)
    (hf : ∀ a, V a → Returns Failed W (f a)) : Returns Failed W (x >>= f) := by
  rintro r (⟨e,he,rfl⟩ | ⟨a,ha,hr⟩)
  · exact .inl ⟨e,rfl,hx.failed he⟩
  · exact hf a (hx.value ha) r hr

/-- A handler does not see the failures. -/
theorem catchOnly {caught : ε → Bool} (hcaught : ∀ e, Failed e → caught e = false)
    {h : ε → Outcomes ε α} (hx : Returns Failed V x) : Returns Failed V (catchOnly caught x h) := by
  intro r hr
  rcases catchOnly_iff.mp hr with ⟨a,ha,rfl⟩ | ⟨e,he,hr⟩
  · exact .inr ⟨a,rfl,hx.value ha⟩
  · have hf := hx.failed he
    rw [if_neg (by rw [hcaught e hf]; exact Bool.false_ne_true)] at hr
    exact .inl ⟨e,hr,hf⟩

/-- A value that is returned past the handler is one of what it guards. -/
theorem of_catchOnly {caught : ε → Bool} (hcaught : ∀ e, Failed e → caught e = false)
    {h : ε → Outcomes ε α} (hx : Returns Failed V x) {a : α}
    (ha : Effects.catchOnly caught x h (.ok a)) :
    x (.ok a) := by
  rcases catchOnly_iff.mp ha with ⟨a',ha',heq⟩ | ⟨e,he,hr⟩
  · cases heq
    exact ha'
  · rw [if_neg (by rw [hcaught e (hx.failed he)]; exact Bool.false_ne_true)] at hr
    cases hr

theorem mapM {f : γ → Outcomes ε β} {l : List γ} (h : ∀ c ∈ l, Returns Failed W (f c)) :
    Returns Failed (fun bs => ∀ b ∈ bs, W b) (l.mapM f) := by
  induction l with
  | nil =>
    rw [List.mapM_nil]
    exact pure (List.forall_mem_nil _)
  | cons c l ih =>
    rw [List.mapM_cons]
    apply (h c (List.mem_cons_self ..)).bind
    intro b hb
    apply (ih fun d hd => h d (List.mem_cons_of_mem _ hd)).bind
    intro bs hbs
    exact pure (List.forall_mem_cons.mpr ⟨hb,hbs⟩)

end Returns

namespace Related
variable {V : α → β → Prop} {W : γ → δ → Prop} {x : Outcomes ε α} {y : Outcomes ε β}

theorem pure {a : α} {b : β} (h : V a b) :
    Related Failed V (pure a : Outcomes ε α) (pure b : Outcomes ε β) := by
  rintro _ _ rfl rfl
  exact .inr (.inr ⟨a,b,rfl,rfl,h⟩)

theorem value (hxy : Related Failed V x y) {a : α} {b : β} (ha : x (.ok a)) (hb : y (.ok b)) :
    V a b := by
  rcases hxy _ _ ha hb with ⟨e,heq,_⟩ | ⟨e,heq,_⟩ | ⟨a',b',hea,heb,hv⟩
  · cases heq
  · cases heq
  · cases hea
    cases heb
    exact hv

theorem bind {f : α → Outcomes ε γ} {g : β → Outcomes ε δ} (hxy : Related Failed V x y)
    (hfg : ∀ a b, V a b → Related Failed W (f a) (g b)) : Related Failed W (x >>= f) (y >>= g) := by
  rintro r s (⟨e,hx,rfl⟩ | ⟨a,hx,hr⟩) (⟨e',hy,rfl⟩ | ⟨b,hy,hs⟩)
  · rcases hxy _ _ hx hy with ⟨_,h,hf⟩ | ⟨_,h,hf⟩ | ⟨_,_,h,_⟩
    · cases h
      exact .inl ⟨e,rfl,hf⟩
    · cases h
      exact .inr (.inl ⟨e',rfl,hf⟩)
    · cases h
  · rcases hxy _ _ hx hy with ⟨_,h,hf⟩ | ⟨_,h,_⟩ | ⟨_,_,h,_⟩
    · cases h
      exact .inl ⟨e,rfl,hf⟩
    · cases h
    · cases h
  · rcases hxy _ _ hx hy with ⟨_,h,_⟩ | ⟨_,h,hf⟩ | ⟨_,_,_,h,_⟩
    · cases h
    · cases h
      exact .inr (.inl ⟨e',rfl,hf⟩)
    · cases h
  · exact hfg a b (hxy.value hx hy) r s hr hs

/-- A handler does not see the failures. -/
theorem catchOnly {caught : ε → Bool} (hcaught : ∀ e, Failed e → caught e = false)
    {h : ε → Outcomes ε α} {k : ε → Outcomes ε β} (hxy : Related Failed V x y)
    (hx : Returns Failed (fun _ => True) x) (hy : Returns Failed (fun _ => True) y) :
    Related Failed V (catchOnly caught x h) (catchOnly caught y k) := by
  intro r s hr hs
  rcases hx.catchOnly hcaught r hr with hf | ⟨a,rfl,_⟩
  · exact .inl hf
  · rcases hy.catchOnly hcaught s hs with hf | ⟨b,rfl,_⟩
    · exact .inr (.inl hf)
    · exact .inr (.inr ⟨a,b,rfl,rfl,hxy.value (hx.of_catchOnly hcaught hr) (hy.of_catchOnly hcaught hs)⟩)

theorem mapM {f : γ → Outcomes ε α} {g : γ → Outcomes ε β} {l : List γ}
    (h : ∀ c ∈ l, Related Failed V (f c) (g c)) :
    Related Failed (List.Forall₂ V) (l.mapM f) (l.mapM g) := by
  induction l with
  | nil =>
    rw [List.mapM_nil, List.mapM_nil]
    exact pure .nil
  | cons c l ih =>
    rw [List.mapM_cons, List.mapM_cons]
    apply (h c (List.mem_cons_self ..)).bind
    intro a b hab
    apply (ih fun d hd => h d (List.mem_cons_of_mem _ hd)).bind
    intro as bs hrest
    exact pure (.cons hab hrest)

/-- A value is related to whatever the other computation returns. -/
theorem of_returns {a : α} (h : Returns Failed (V a) y) :
    Related Failed V (Pure.pure a : Outcomes ε α) y := by
  rintro _ s rfl hs
  rcases h s hs with hf | ⟨b,rfl,hb⟩
  · exact .inr (.inl hf)
  · exact .inr (.inr ⟨a,b,rfl,rfl,hb⟩)

end Related

variable (Failed) in
/-- Related computations none of which ends with an error that a handler would see. -/
structure Compared (V : α → β → Prop) (x : Outcomes ε α) (y : Outcomes ε β) : Prop where
  related : Related Failed V x y
  left : Returns Failed (fun _ => True) x
  right : Returns Failed (fun _ => True) y

namespace Compared
variable {V : α → β → Prop} {W : γ → δ → Prop} {x : Outcomes ε α} {y : Outcomes ε β}

theorem pure {a : α} {b : β} (h : V a b) :
    Compared Failed V (pure a : Outcomes ε α) (pure b : Outcomes ε β) :=
  ⟨.pure h,.pure trivial,.pure trivial⟩

theorem of_returns {a : α} (h : Returns Failed (V a) y) :
    Compared Failed V (Pure.pure a : Outcomes ε α) y :=
  ⟨.of_returns h,.pure trivial,h.mono fun _ _ => trivial⟩

theorem map {f : α → γ} {g : β → δ} (hxy : Compared Failed V x y)
    (hfg : ∀ a b, V a b → W (f a) (g b)) :
    Compared Failed W (x >>= fun a => Pure.pure (f a)) (y >>= fun b => Pure.pure (g b)) where
  related := hxy.related.bind fun a b hab => .pure (hfg a b hab)
  left := hxy.left.bind fun _ _ => .pure trivial
  right := hxy.right.bind fun _ _ => .pure trivial

theorem catchOnly {caught : ε → Bool} (hcaught : ∀ e, Failed e → caught e = false)
    {h : ε → Outcomes ε α} {k : ε → Outcomes ε β} (hxy : Compared Failed V x y) :
    Compared Failed V (catchOnly caught x h) (catchOnly caught y k) where
  related := hxy.related.catchOnly hcaught hxy.left hxy.right
  left := hxy.left.catchOnly hcaught
  right := hxy.right.catchOnly hcaught

theorem mapM {f : γ → Outcomes ε α} {g : γ → Outcomes ε β} {l : List γ}
    (h : ∀ c ∈ l, Compared Failed V (f c) (g c)) :
    Compared Failed (List.Forall₂ V) (l.mapM f) (l.mapM g) where
  related := Related.mapM fun c hc => (h c hc).related
  left := (Returns.mapM fun c hc => (h c hc).left).mono fun _ _ => trivial
  right := (Returns.mapM fun c hc => (h c hc).right).mono fun _ _ => trivial

end Compared
end Comparison
end Outcomes
end SafeDecoder
