import SafeDecoder.Library.Programs

/-! # Programs that take turns

A machine says what a command does and what its surroundings may do in between,
among them starting further programs. A run is any interleaving; programs are
numbered in the order of their start and keep a session of their own. History
variables are folds over the events of a run.
-/
namespace SafeDecoder

structure Machine (C : Type) (R : C → Type) (ε σ ℓ M τ α : Type) where
  exec : σ → ℓ → (c : C) → Except ε (R c) → σ → ℓ → Prop
  /-- A move of the surroundings, with the tasks that it starts. -/
  move : M → σ → σ → List τ → Prop
  program : τ → Proc C R ε α
  session : ℓ

inductive Event (C : Type) (R : C → Type) (ε M : Type)
  | own (i : ℕ) (c : C) (r : Except ε (R c))
  | env (m : M)

structure Thread (C : Type) (R : C → Type) (ε ℓ τ α : Type) where
  label : τ
  session : ℓ
  prog : Proc C R ε α

structure Config (C : Type) (R : C → Type) (ε σ ℓ τ α : Type) where
  state : σ
  threads : List (Thread C R ε ℓ τ α)

/-- Every program is through. -/
def Config.finished {C : Type} {R : C → Type} {ε σ ℓ τ α : Type} (c : Config C R ε σ ℓ τ α) :
    Prop := ∀ th ∈ c.threads, th.prog.outcome?.isSome

instance {C : Type} {R : C → Type} {ε σ ℓ τ α : Type} (c : Config C R ε σ ℓ τ α) :
    Decidable c.finished := inferInstanceAs (Decidable (∀ th ∈ c.threads, th.prog.outcome?.isSome))

namespace Machine
variable {C : Type} {R : C → Type} {ε σ ℓ M τ α : Type} (m : Machine C R ε σ ℓ M τ α)

def spawn (label : τ) : Thread C R ε ℓ τ α := ⟨label,m.session,m.program label⟩

/-- The tasks have been sent, and none has taken a step. -/
def initial (s : σ) (labels : List τ) : Config C R ε σ ℓ τ α := ⟨s,labels.map m.spawn⟩

inductive Step : Config C R ε σ ℓ τ α → Event C R ε M → Config C R ε σ ℓ τ α → Prop
  | own {c : Config C R ε σ ℓ τ α} {i : ℕ} {label : τ} {l l' : ℓ} {cmd : C}
      {next : Except ε (R cmd) → Proc C R ε α} {r : Except ε (R cmd)} {s' : σ}
      (hi : c.threads[i]? = some ⟨label,l,.call cmd next⟩) (he : m.exec c.state l cmd r s' l') :
      Step c (.own i cmd r) ⟨s',c.threads.set i ⟨label,l',next r⟩⟩
  | env {c : Config C R ε σ ℓ τ α} {move : M} {s' : σ} {labels : List τ}
      (hm : m.move move c.state s' labels) :
      Step c (.env move) ⟨s',c.threads ++ labels.map m.spawn⟩

/-- A run with its events and the states in which they happened. -/
inductive Run : Config C R ε σ ℓ τ α → List (σ × Event C R ε M) → Config C R ε σ ℓ τ α → Prop
  | refl {c} : Run c [] c
  | step {c d d' tr e} (hrun : Run c tr d) (hstep : m.Step d e d') :
      Run c (tr ++ [(d.state,e)]) d'

variable {m}

theorem Run.trans {c d d' : Config C R ε σ ℓ τ α} {tr tr' : List (σ × Event C R ε M)}
    (h : m.Run c tr d) (h' : m.Run d tr' d') : m.Run c (tr ++ tr') d' := by
  induction h' with
  | refl => rwa [List.append_nil]
  | step _ hstep ih =>
    rw [← List.append_assoc]
    exact .step ih hstep

/-- A run can be cut off after any of its events. -/
theorem Run.of_append {c d : Config C R ε σ ℓ τ α} {tr tr' : List (σ × Event C R ε M)}
    (h : m.Run c (tr ++ tr') d) : ∃ b, m.Run c tr b ∧ m.Run b tr' d := by
  generalize hall : tr ++ tr' = all at h
  induction h generalizing tr' with
  | refl =>
    obtain ⟨rfl,rfl⟩ := List.append_eq_nil_iff.mp hall
    exact ⟨_,.refl,.refl⟩
  | @step d d' tr₀ e hrun hstep ih =>
    rcases List.eq_nil_or_concat' tr' with rfl | ⟨init,last,rfl⟩
    · rw [List.append_nil] at hall
      rw [hall]
      exact ⟨_,.step hrun hstep,.refl⟩
    · rw [← List.append_assoc] at hall
      obtain ⟨hinit,hlast⟩ := List.append_inj' hall rfl
      obtain ⟨b,hb,hrest⟩ := ih hinit
      cases hlast
      exact ⟨b,hb,.step hrest hstep⟩

/-- The state in which an event of a run happened. -/
theorem Run.at_event {c d : Config C R ε σ ℓ τ α} {tr tr' : List (σ × Event C R ε M)} {s : σ}
    {e : Event C R ε M} (h : m.Run c (tr ++ (s,e) :: tr') d) :
    ∃ b b', m.Run c tr b ∧ b.state = s ∧ m.Step b e b' ∧ m.Run b' tr' d := by
  have hcons : tr ++ (s,e) :: tr' = (tr ++ [(s,e)]) ++ tr' := by rw [List.append_assoc]; rfl
  rw [hcons] at h
  obtain ⟨b',hb',hrest⟩ := h.of_append
  generalize hlast : tr ++ [(s,e)] = all at hb'
  cases hb' with
  | refl => cases tr <;> cases hlast
  | @step b _ tr₀ e' hrun hstep =>
    obtain ⟨rfl,he⟩ := List.append_inj' hlast rfl
    cases he
    exact ⟨b,b',hrun,rfl,hstep,hrest⟩

/-- A task keeps its number and its label. -/
theorem Run.label {c d : Config C R ε σ ℓ τ α} {tr : List (σ × Event C R ε M)}
    (h : m.Run c tr d) {i : ℕ} {th : Thread C R ε ℓ τ α} (hi : c.threads[i]? = some th) :
    ∃ th', d.threads[i]? = some th' ∧ th'.label = th.label := by
  induction h with
  | refl => exact ⟨th,hi,rfl⟩
  | step _ hstep ih =>
    obtain ⟨th',hth,hl⟩ := ih
    cases hstep with
    | @own j label l l' cmd next r s' hj he =>
      by_cases hij : j = i
      · subst hij
        rw [hj] at hth
        cases hth
        refine ⟨⟨label,l',next r⟩,?_,hl⟩
        exact List.getElem?_set_self (List.getElem?_eq_some_iff.mp hj).1
      · exact ⟨th',by rwa [List.getElem?_set_ne hij],hl⟩
    | env hm =>
      refine ⟨th',?_,hl⟩
      exact List.getElem?_append_left (List.getElem?_eq_some_iff.mp hth).1 ▸ hth

section History
variable {γ : Type}

/-- A history variable: a fold over what has happened. -/
def observe (upd : γ → σ → Event C R ε M → γ) (g : γ) (tr : List (σ × Event C R ε M)) : γ :=
  tr.foldl (fun g e => upd g e.1 e.2) g

@[simp] theorem observe_nil (upd : γ → σ → Event C R ε M → γ) (g : γ) :
    observe upd g [] = g := rfl
@[simp] theorem observe_append (upd : γ → σ → Event C R ε M → γ) (g : γ)
    (tr : List (σ × Event C R ε M)) (s : σ) (e : Event C R ε M) :
    observe upd g (tr ++ [(s,e)]) = upd (observe upd g tr) s e := by
  simp [observe]

/-- What every event keeps, a run keeps. -/
theorem observe_keeps {upd : γ → σ → Event C R ε M → γ} {p : γ → Prop}
    (hstep : ∀ g s e, p g → p (upd g s e)) {g : γ} (tr : List (σ × Event C R ε M)) (h : p g) :
    p (observe upd g tr) := by
  induction tr generalizing g with
  | nil => exact h
  | cons x tr ih => exact ih (hstep g x.1 x.2 h)

/-- What holds at the end and not at the beginning was brought about by some event. -/
theorem observe_cause {upd : γ → σ → Event C R ε M → γ} {p : γ → Prop} {g : γ}
    {tr : List (σ × Event C R ε M)} (h : p (observe upd g tr)) (hg : ¬p g) :
    ∃ pre s e post, tr = pre ++ (s,e) :: post ∧ ¬p (observe upd g pre) ∧
      p (upd (observe upd g pre) s e) := by
  induction tr generalizing g with
  | nil => exact absurd h hg
  | cons x tr ih =>
    by_cases hx : p (upd g x.1 x.2)
    · exact ⟨[],x.1,x.2,tr,rfl,hg,hx⟩
    · obtain ⟨pre,s,e,post,rfl,hpre,hcause⟩ := ih h hx
      exact ⟨x :: pre,s,e,post,rfl,hpre,hcause⟩

/-- A history variable that notes what has happened so far. -/
def note {κ : Type} (happens : σ → Event C R ε M → κ → Prop) (g : κ → Prop) (s : σ)
    (e : Event C R ε M) : κ → Prop := fun k => g k ∨ happens s e k

theorem note_of_not {κ : Type} {happens : σ → Event C R ε M → κ → Prop} {s : σ}
    {e : Event C R ε M} (h : ∀ k, ¬happens s e k) (g : κ → Prop) : note happens g s e = g := by
  funext k
  simp [note, h k]

theorem observe_note {κ : Type} {happens : σ → Event C R ε M → κ → Prop} {g : κ → Prop}
    {tr : List (σ × Event C R ε M)} {k : κ} :
    observe (note happens) g tr k ↔ g k ∨ ∃ x ∈ tr, happens x.1 x.2 k := by
  induction tr generalizing g with
  | nil => simp
  | cons x tr ih =>
    change observe (note happens) (note happens g x.1 x.2) tr k ↔ _
    rw [ih, note, or_assoc]
    simp

/-- A command of the program with number `i`, together with the history variable. -/
def recorded (m : Machine C R ε σ ℓ M τ α) (upd : γ → σ → Event C R ε M → γ) (i : ℕ) :
    σ × γ → ℓ → (c : C) → Except ε (R c) → σ × γ → ℓ → Prop :=
  fun s l c r t l' => m.exec s.1 l c r t.1 l' ∧ t.2 = upd s.2 s.1 (.own i c r)

variable {upd : γ → σ → Event C R ε M → γ} {D : Discipline (σ × γ)} {sized : γ → ℕ → Prop}
  {Q : ℕ → τ → Except ε α → σ × γ → ℓ → Prop}

/-- The invariant holds and every program keeps the discipline from here on.
`sized` says how the history variable knows the number of programs. -/
structure Sound (m : Machine C R ε σ ℓ M τ α) (upd : γ → σ → Event C R ε M → γ)
    (D : Discipline (σ × γ)) (sized : γ → ℕ → Prop)
    (Q : ℕ → τ → Except ε α → σ × γ → ℓ → Prop) (c : Config C R ε σ ℓ τ α) (g : γ) : Prop where
  inv : D.inv (c.state,g)
  size : sized g c.threads.length
  meets : ∀ {i th}, c.threads[i]? = some th →
    Meets D i (m.recorded upd i) (Q i th.label) th.prog (c.state,g) th.session

/-- What a program that is through has ended with. -/
theorem Sound.outcome {c : Config C R ε σ ℓ τ α} {g : γ} (h : m.Sound upd D sized Q c g) {i : ℕ}
    {th : Thread C R ε ℓ τ α} (hi : c.threads[i]? = some th) {r : Except ε α}
    (hr : th.prog.outcome? = some r) : Q i th.label r (c.state,g) th.session := by
  obtain ⟨label,l,prog⟩ := th
  have hmeets := h.meets hi
  rcases Proc.eq_of_outcome? hr with ⟨a,rfl,rfl⟩ | ⟨e,rfl,rfl⟩
  · exact hmeets _ (D.rely_refl i _) h.inv
  · exact hmeets _ (D.rely_refl i _) h.inv

/-- A step of a program keeps its discipline. -/
theorem Sound.guar {c : Config C R ε σ ℓ τ α} {g : γ} (hc : m.Sound upd D sized Q c g) {i : ℕ}
    {label : τ} {l l' : ℓ} {cmd : C} {next : Except ε (R cmd) → Proc C R ε α}
    {r : Except ε (R cmd)} {s' : σ} (hi : c.threads[i]? = some ⟨label,l,.call cmd next⟩)
    (he : m.exec c.state l cmd r s' l') :
    D.guar i (c.state,g) (s',upd g c.state (.own i cmd r)) :=
  (hc.meets hi _ (D.rely_refl i _) hc.inv r (s',upd g c.state (.own i cmd r)) l' ⟨he,rfl⟩).1.2

/-- What the surroundings may do: keep the invariant, disturb no program, and
start programs that keep the discipline. -/
structure Admits (m : Machine C R ε σ ℓ M τ α) (upd : γ → σ → Event C R ε M → γ)
    (D : Discipline (σ × γ)) (sized : γ → ℕ → Prop)
    (Q : ℕ → τ → Except ε α → σ × γ → ℓ → Prop) : Prop where
  shared : D.Shared
  own : ∀ {g n s i c} {r : Except ε (R c)}, sized g n → sized (upd g s (.own i c r)) n
  move : ∀ {move s s' labels g}, m.move move s s' labels → D.inv (s,g) →
    D.inv (s',upd g s (.env move)) ∧ ∀ i, D.rely i (s,g) (s',upd g s (.env move))
  grows : ∀ {move s s' labels g n}, m.move move s s' labels → sized g n →
    sized (upd g s (.env move)) (n + labels.length)
  starts : ∀ {move s s' labels label g n j}, m.move move s s' labels → sized g n →
    D.inv (s,g) → D.inv (s',upd g s (.env move)) → labels[j]? = some label →
    Meets D (n + j) (m.recorded upd (n + j)) (Q (n + j) label) (m.program label)
      (s',upd g s (.env move)) m.session

theorem Step.sound (hadm : m.Admits upd D sized Q) {c c' : Config C R ε σ ℓ τ α}
    {e : Event C R ε M} {g : γ} (h : m.Step c e c') (hc : m.Sound upd D sized Q c g) :
    m.Sound upd D sized Q c' (upd g c.state e) := by
  cases h with
  | @own i label l l' cmd next r s' hi he =>
    obtain ⟨⟨hinv,hguar⟩,hnext⟩ := hc.meets hi _ (D.rely_refl i _) hc.inv r
      (s',upd g c.state (.own i cmd r)) l' ⟨he,rfl⟩
    refine ⟨hinv,by simpa using hadm.own hc.size,fun {j th} hj => ?_⟩
    by_cases hij : i = j
    · subst hij
      have hset := List.getElem?_set_self (a := (⟨label,l',next r⟩ : Thread C R ε ℓ τ α))
        (List.getElem?_eq_some_iff.mp hi).1
      rw [hset] at hj
      cases hj
      exact hnext
    · rw [List.getElem?_set_ne hij] at hj
      exact (hc.meets hj).of_rely (hadm.shared hij hguar)
  | @env move s' labels hm =>
    obtain ⟨hinv,hrely⟩ := hadm.move hm hc.inv
    refine ⟨hinv,by simpa using hadm.grows hm hc.size,fun {j th} hj => ?_⟩
    by_cases hlt : j < c.threads.length
    · rw [List.getElem?_append_left hlt] at hj
      exact (hc.meets hj).of_rely (hrely j)
    · obtain ⟨d,rfl⟩ := Nat.exists_eq_add_of_le (Nat.le_of_not_lt hlt)
      rw [List.getElem?_append_right (Nat.le_add_right _ _), Nat.add_sub_cancel_left,
        List.getElem?_map] at hj
      obtain ⟨label,hlabel,rfl⟩ := Option.map_eq_some_iff.mp hj
      exact hadm.starts hm hc.size hc.inv hinv hlabel

theorem Run.sound (hadm : m.Admits upd D sized Q) {c d : Config C R ε σ ℓ τ α}
    {tr : List (σ × Event C R ε M)} {g : γ} (h : m.Run c tr d) (hc : m.Sound upd D sized Q c g) :
    m.Sound upd D sized Q d (observe upd g tr) := by
  induction h with
  | refl => exact hc
  | step _ hstep ih =>
    rw [observe_append]
    exact hstep.sound hadm ih

theorem sound_initial {s : σ} {g : γ} {labels : List τ} (hinv : D.inv (s,g))
    (hsize : sized g labels.length)
    (h : ∀ i label, labels[i]? = some label →
      Meets D i (m.recorded upd i) (Q i label) (m.program label) (s,g) m.session) :
    m.Sound upd D sized Q (m.initial s labels) g := by
  refine ⟨hinv,by simpa [initial] using hsize,fun {i th} hi => ?_⟩
  rw [initial, List.getElem?_map] at hi
  obtain ⟨label,hlabel,rfl⟩ := Option.map_eq_some_iff.mp hi
  exact h i label hlabel

/-- Without surroundings, nothing is asked of them. -/
theorem admits_closed (hshared : D.Shared) (hclosed : ∀ mv s s' labels, ¬m.move mv s s' labels)
    (hsized : ∀ {g n s i c} {r : Except ε (R c)}, sized g n → sized (upd g s (.own i c r)) n) :
    m.Admits upd D sized Q where
  shared := hshared
  own := hsized
  move := fun hm => absurd hm (hclosed _ _ _ _)
  grows := fun hm => absurd hm (hclosed _ _ _ _)
  starts := fun hm => absurd hm (hclosed _ _ _ _)

end History

/-- What every step keeps, a run keeps. -/
theorem Run.keeps {γ : Type} {upd : γ → σ → Event C R ε M → γ} {D : Discipline (σ × γ)}
    {sized : γ → ℕ → Prop} {Q : ℕ → τ → Except ε α → σ × γ → ℓ → Prop} {keeps : σ → σ → Prop}
    (hadm : m.Admits upd D sized Q) (hrefl : ∀ s, keeps s s)
    (htrans : ∀ {s t u}, keeps s t → keeps t u → keeps s u)
    (hown : ∀ {i s t}, D.guar i s t → keeps s.1 t.1)
    (hmove : ∀ {mv s s' labels g}, m.move mv s s' labels → D.inv (s,g) → keeps s s')
    {c d : Config C R ε σ ℓ τ α} {tr : List (σ × Event C R ε M)} {g : γ} (h : m.Run c tr d)
    (hc : m.Sound upd D sized Q c g) : keeps c.state d.state := by
  induction h with
  | refl => exact hrefl _
  | @step d d' tr e hrun hstep ih =>
    have hd := hrun.sound hadm hc
    apply htrans ih
    cases hstep with
    | own hi he => exact hown (hd.guar hi he)
    | env hm => exact hmove hm hd.inv

section Conditions

/-- A run whose steps all meet a condition. -/
inductive RunWhere (m : Machine C R ε σ ℓ M τ α) (ok : Config C R ε σ ℓ τ α → Event C R ε M → Prop) :
    Config C R ε σ ℓ τ α → Config C R ε σ ℓ τ α → Prop
  | refl {c} : RunWhere m ok c c
  | step {c d d' e} (hrun : RunWhere m ok c d) (hstep : m.Step d e d') (hok : ok d e) :
      RunWhere m ok c d'

/-- A run whose events meet the condition whenever they come. -/
theorem Run.runWhere {ok : Config C R ε σ ℓ τ α → Event C R ε M → Prop} {c d : Config C R ε σ ℓ τ α}
    {tr : List (σ × Event C R ε M)} (h : m.Run c tr d) (hok : ∀ s e, (s,e) ∈ tr → ∀ c, ok c e) :
    m.RunWhere ok c d := by
  induction h with
  | refl => exact .refl
  | @step d d' tr e _ hstep ih =>
    have hprefix := ih fun s e he => hok s e (List.mem_append_left _ he)
    exact .step hprefix hstep (hok _ _ (List.mem_append_right _ (List.mem_singleton_self _)) d)

theorem RunWhere.invariant {ok : Config C R ε σ ℓ τ α → Event C R ε M → Prop}
    {I : Config C R ε σ ℓ τ α → Prop} {c d : Config C R ε σ ℓ τ α} (h : m.RunWhere ok c d) (hc : I c)
    (hstep : ∀ {c e d}, I c → m.Step c e d → ok c e → I d) : I d := by
  induction h with
  | refl => exact hc
  | step _ hs hok ih => exact hstep ih hs hok

end Conditions

section Restriction
variable {allowed : σ → (c : C) → Except ε (R c) → Prop}

/-- The runs in which every command is answered as `allowed` says. -/
def restrict (m : Machine C R ε σ ℓ M τ α) (allowed : σ → (c : C) → Except ε (R c) → Prop) :
    Machine C R ε σ ℓ M τ α where
  exec := fun s l c r s' l' => m.exec s l c r s' l' ∧ allowed s c r
  move := m.move
  program := m.program
  session := m.session

theorem Run.restrict {c d : Config C R ε σ ℓ τ α} {tr : List (σ × Event C R ε M)}
    (h : m.Run c tr d) (hok : ∀ s i cmd r, (s,Event.own i cmd r) ∈ tr → allowed s cmd r) :
    (m.restrict allowed).Run c tr d := by
  induction h with
  | refl => exact .refl
  | @step d d' tr e _ hstep ih =>
    refine .step (ih fun s i cmd r h => hok s i cmd r (List.mem_append_left _ h)) ?_
    have hlast : (d.state,e) ∈ tr ++ [(d.state,e)] := List.mem_append_right _ (List.mem_singleton_self _)
    cases hstep with
    | own hi he => exact .own hi ⟨he,hok _ _ _ _ hlast⟩
    | env hm => exact .env hm

end Restriction

section Confinement
variable {J : σ → Prop}

/-- The runs whose states all satisfy `J`. -/
def confine (m : Machine C R ε σ ℓ M τ α) (J : σ → Prop) : Machine C R ε σ ℓ M τ α where
  exec := fun s l c r s' l' => m.exec s l c r s' l' ∧ J s'
  move := fun mv s s' labels => m.move mv s s' labels ∧ J s'
  program := m.program
  session := m.session

/-- Where `J` can only get lost, a run that ends in it has always been in it. -/
theorem Run.confine {c d : Config C R ε σ ℓ τ α} {tr : List (σ × Event C R ε M)}
    (h : m.Run c tr d) (hd : J d.state)
    (hexec : ∀ {s l cmd r s' l'}, m.exec s l cmd r s' l' → J s' → J s)
    (hmove : ∀ {mv s s' labels}, m.move mv s s' labels → J s' → J s) :
    (m.confine J).Run c tr d := by
  induction h with
  | refl => exact .refl
  | step _ hstep ih =>
    cases hstep with
    | own hi he => exact .step (ih (hexec he hd)) (.own hi ⟨he,hd⟩)
    | env hm => exact .step (ih (hmove hm hd)) (.env ⟨hm,hd⟩)

end Confinement

section Alone

/-- Part of a run of one program that nobody disturbs, with what it issued. -/
inductive Alone (m : Machine C R ε σ ℓ M τ α) {β : Type} : Proc C R ε β → σ → ℓ →
    List (σ × Event C R ε M) → Proc C R ε β → σ → ℓ → Prop
  | refl {x s l} : Alone m x s l [] x s l
  | step {c next s l r s' l' tr y t l''} (he : m.exec s l c r s' l')
      (h : Alone m (next r) s' l' tr y t l'') :
      Alone m (.call c next) s l ((s,.own 0 c r) :: tr) y t l''

section
variable {β : Type} {x y : Proc C R ε β} {s t : σ} {l l' : ℓ} {tr : List (σ × Event C R ε M)}

/-- A program that is through takes no step. -/
theorem Alone.of_outcome {r : Except ε β} (h : m.Alone x s l tr y t l') (hx : x.outcome? = some r) :
    tr = [] ∧ y = x ∧ t = s ∧ l' = l := by
  cases h with
  | refl => exact ⟨rfl,rfl,rfl,rfl⟩
  | step => cases hx

/-- A program that has come to its end has been answered its first command. -/
theorem Alone.of_call {c : C} {next : Except ε (R c) → Proc C R ε β} {a : Except ε β}
    (h : m.Alone (.call c next) s l tr y t l') (hy : y.outcome? = some a) :
    ∃ r s' l'' tr', m.exec s l c r s' l'' ∧ tr = (s,.own 0 c r) :: tr' ∧
      m.Alone (next r) s' l'' tr' y t l' := by
  cases h with
  | refl => cases hy
  | step he h => exact ⟨_,_,_,_,he,rfl,h⟩

/-- The program can end as `y` when nobody disturbs it. -/
def EndsAs (m : Machine C R ε σ ℓ M τ α) (x : Proc C R ε β) (s : σ) (l : ℓ) (y : Proc C R ε β) :
    Prop := ∃ tr t l', m.Alone x s l tr y t l'

theorem endsAs_outcome {r : Except ε β} (hx : x.outcome? = some r) :
    m.EndsAs x s l y ↔ y = x := by
  constructor
  · rintro ⟨_,_,_,h⟩
    exact (h.of_outcome hx).2.1
  · rintro rfl
    exact ⟨[],s,l,.refl⟩

theorem endsAs_call {c : C} {next : Except ε (R c) → Proc C R ε β} {r : Except ε β}
    (hy : y.outcome? = some r) :
    m.EndsAs (.call c next) s l y ↔
      ∃ a s' l'', m.exec s l c a s' l'' ∧ m.EndsAs (next a) s' l'' y := by
  constructor
  · rintro ⟨_,_,_,h⟩
    obtain ⟨a,s',l'',_,he,-,hnext⟩ := h.of_call hy
    exact ⟨a,s',l'',he,_,_,_,hnext⟩
  · rintro ⟨a,s',l'',he,_,_,_,h⟩
    exact ⟨_,_,_,.step he h⟩

end

theorem Alone.meets {β γ : Type} {upd : γ → σ → Event C R ε M → γ} {D : Discipline (σ × γ)}
    {Q : Except ε β → σ × γ → ℓ → Prop} {x y : Proc C R ε β} {s t : σ} {l l' : ℓ} {g : γ}
    {tr : List (σ × Event C R ε M)} (h : m.Alone x s l tr y t l')
    (hx : Meets D 0 (m.recorded upd 0) Q x (s,g) l) (hi : D.inv (s,g)) :
    Meets D 0 (m.recorded upd 0) Q y (t,observe upd g tr) l' ∧ D.inv (t,observe upd g tr) := by
  induction h generalizing g with
  | refl => exact ⟨hx,hi⟩
  | @step c next s l r s' l' tr y t l'' he _ ih =>
    obtain ⟨⟨hinv,_⟩,hnext⟩ := hx _ (D.rely_refl 0 _) hi r (s',upd g s (.own 0 c r)) l' ⟨he,rfl⟩
    exact ih hnext hinv

/-- What a program ends with that runs alone to its end. -/
theorem Alone.outcome {β γ : Type} {upd : γ → σ → Event C R ε M → γ} {D : Discipline (σ × γ)}
    {Q : Except ε β → σ × γ → ℓ → Prop} {x y : Proc C R ε β} {s t : σ} {l l' : ℓ} {g : γ}
    {tr : List (σ × Event C R ε M)} (h : m.Alone x s l tr y t l')
    (hx : Meets D 0 (m.recorded upd 0) Q x (s,g) l) (hi : D.inv (s,g)) {r : Except ε β}
    (hr : y.outcome? = some r) : Q r (t,observe upd g tr) l' := by
  obtain ⟨hy,hinv⟩ := h.meets hx hi
  rcases Proc.eq_of_outcome? hr with ⟨a,rfl,rfl⟩ | ⟨e,rfl,rfl⟩
  · exact hy _ (D.rely_refl 0 _) hinv
  · exact hy _ (D.rely_refl 0 _) hinv

end Alone
section Schedules

/-- Answers for every command and results for the moves of the surroundings, all
of which the machine allows, so that a schedule can be played. -/
structure Player (m : Machine C R ε σ ℓ M τ α) where
  respond : σ → ℓ → (c : C) → Except ε (R c) × σ × ℓ
  move : M → σ → Option (σ × List τ)
  respond_exec : ∀ s l c, m.exec s l c (respond s l c).1 (respond s l c).2.1 (respond s l c).2.2
  move_move : ∀ {mv s s' labels}, move mv s = some (s',labels) → m.move mv s s' labels

variable (p : Player m)

/-- A run with one event more, when the program or the surroundings have a step to take. -/
abbrev Played (C : Type) (R : C → Type) (ε σ ℓ M τ α : Type) :=
  List (σ × Event C R ε M) × Config C R ε σ ℓ τ α

/-- The next step of the program with number `i`, if it has one. -/
def Player.task (c : Config C R ε σ ℓ τ α) (i : ℕ) :
    Option (Thread C R ε ℓ τ α) → Played C R ε σ ℓ M τ α
  | some ⟨label,l,.call cmd next⟩ =>
    let r := p.respond c.state l cmd
    ([(c.state,.own i cmd r.1)],⟨r.2.1,c.threads.set i ⟨label,r.2.2,next r.1⟩⟩)
  | _ => ([],c)

def Player.surroundings (c : Config C R ε σ ℓ τ α) (mv : M) :
    Option (σ × List τ) → Played C R ε σ ℓ M τ α
  | some (s',labels) => ([(c.state,.env mv)],⟨s',c.threads ++ labels.map m.spawn⟩)
  | none => ([],c)

def Player.turn (c : Config C R ε σ ℓ τ α) : ℕ ⊕ M → Played C R ε σ ℓ M τ α
  | .inl i => p.task c i c.threads[i]?
  | .inr mv => Player.surroundings (m := m) c mv (p.move mv c.state)

def play (p : Player m) (c : Config C R ε σ ℓ τ α) : List (ℕ ⊕ M) → Played C R ε σ ℓ M τ α
  | [] => ([],c)
  | t :: turns =>
    let first := p.turn c t
    let rest := play p first.2 turns
    (first.1 ++ rest.1,rest.2)

theorem Player.turn_run (c : Config C R ε σ ℓ τ α) (t : ℕ ⊕ M) :
    m.Run c (p.turn c t).1 (p.turn c t).2 := by
  cases t with
  | inl i =>
    rw [Player.turn]
    cases hi : c.threads[i]? with
    | none => exact .refl
    | some th =>
      obtain ⟨label,l,prog⟩ := th
      cases prog with
      | ret a => exact .refl
      | raise e => exact .refl
      | call cmd next => exact .step .refl (.own hi (p.respond_exec c.state l cmd))
  | inr mv =>
    rw [Player.turn]
    cases hm : p.move mv c.state with
    | none => exact .refl
    | some r => exact .step .refl (.env (p.move_move hm))

theorem play_run (c : Config C R ε σ ℓ τ α) (turns : List (ℕ ⊕ M)) :
    m.Run c (play p c turns).1 (play p c turns).2 := by
  induction turns generalizing c with
  | nil => exact .refl
  | cons t turns ih => exact (p.turn_run c t).trans (ih _)

/-- What a program does to its end when nobody disturbs it. -/
def Player.complete {β : Type} : Proc C R ε β → σ → ℓ →
    List (σ × Event C R ε M) × Except ε β × σ × ℓ
  | .ret a, s, l => ([],.ok a,s,l)
  | .raise e, s, l => ([],.error e,s,l)
  | .call c next, s, l =>
    let r := p.respond s l c
    let rest := Player.complete (next r.1) r.2.1 r.2.2
    ((s,.own 0 c r.1) :: rest.1,rest.2)

/-- Every program that runs alone comes to its end. -/
theorem Player.complete_alone {β : Type} (x : Proc C R ε β) (s : σ) (l : ℓ) :
    ∃ y, m.Alone x s l (p.complete x s l).1 y (p.complete x s l).2.2.1 (p.complete x s l).2.2.2 ∧
      y.outcome? = some (p.complete x s l).2.1 := by
  induction x generalizing s l with
  | ret a => exact ⟨_,.refl,rfl⟩
  | raise e => exact ⟨_,.refl,rfl⟩
  | call c next ih =>
    obtain ⟨y,hy,hr⟩ := ih (p.respond s l c).1 (p.respond s l c).2.1 (p.respond s l c).2.2
    exact ⟨y,.step (p.respond_exec s l c) hy,hr⟩

end Schedules
end Machine
end SafeDecoder
