import Mathlib.Logic.Hydra
import SafeDecoder.Library.Interleaving

/-! # Runs that come to an end

Every single program ends, because it is a well-founded tree. A system that
starts further programs ends when a budget pays for each of them: no step of a
program raises it, and a move that starts programs lowers it by their number.
-/
namespace SafeDecoder

section Trees
variable {C : Type} {R : C → Type} {ε α : Type}

/-- What may be left of a program after its next command. -/
inductive Proc.After : Proc C R ε α → Proc C R ε α → Prop
  | mk (c : C) (next : Except ε (R c) → Proc C R ε α) (r : Except ε (R c)) :
      After (next r) (.call c next)

theorem Proc.after_wf : WellFounded (Proc.After : Proc C R ε α → Proc C R ε α → Prop) := by
  refine ⟨fun x => ?_⟩
  induction x with
  | ret a => exact ⟨_,fun _ h => nomatch h⟩
  | raise e => exact ⟨_,fun _ h => nomatch h⟩
  | call c next ih =>
    refine ⟨_,fun y h => ?_⟩
    cases h with
    | mk c next r => exact ih r

end Trees

namespace Machine
variable {C : Type} {R : C → Type} {ε σ ℓ M τ α γ : Type} {m : Machine C R ε σ ℓ M τ α}
  {upd : γ → σ → Event C R ε M → γ} {D : Discipline (σ × γ)} {sized : γ → ℕ → Prop}
  {Q : ℕ → τ → Except ε α → σ × γ → ℓ → Prop} {idle : M → Prop} {budget : σ × γ → ℕ}

/-- What the programs in a configuration have still to do. -/
def programs (c : Config C R ε σ ℓ τ α) : Multiset (Proc C R ε α) :=
  (c.threads.map Thread.prog : List (Proc C R ε α))

theorem set_add_singleton {β : Type} {l : List β} {i : ℕ} {a b : β} (h : l[i]? = some a) :
    ((l.set i b : List β) : Multiset β) + {a} = (l : Multiset β) + {b} := by
  induction l generalizing i with
  | nil => simp at h
  | cons x l ih =>
    cases i with
    | zero =>
      cases h
      simp only [List.set_cons_zero, ← Multiset.cons_coe, Multiset.add_comm _ {_},
        Multiset.singleton_add]
      exact Multiset.cons_swap _ _ _
    | succ i =>
      simp only [List.set_cons_succ, ← Multiset.cons_coe, Multiset.cons_add]
      rw [ih h]

/-- The budget pays for every program that is started; moves in `idle` start none. -/
structure Pays (m : Machine C R ε σ ℓ M τ α) (upd : γ → σ → Event C R ε M → γ)
    (D : Discipline (σ × γ)) (idle : M → Prop) (budget : σ × γ → ℕ) : Prop where
  own : ∀ {i s t}, D.guar i s t → budget t ≤ budget s
  move : ∀ {mv s s' labels g}, m.move mv s s' labels → D.inv (s,g) →
    budget (s',upd g s (.env mv)) + labels.length ≤ budget (s,g)
  busy : ∀ {mv s s' labels}, m.move mv s s' labels → (labels = [] ↔ idle mv)

/-- The programs started so far and the budget that is left. -/
theorem Step.spent (hpays : m.Pays upd D idle budget) {c c' : Config C R ε σ ℓ τ α}
    {e : Event C R ε M} {g : γ} (h : m.Step c e c') (hc : m.Sound upd D sized Q c g) :
    c'.threads.length + budget (c'.state,upd g c.state e) ≤
      c.threads.length + budget (c.state,g) := by
  cases h with
  | own hi he =>
    have hle := hpays.own (hc.guar hi he)
    simpa using hle
  | env hm =>
    have hle := hpays.move hm hc.inv
    simp only [List.length_append, List.length_map]
    omega

theorem Run.spent (hadm : m.Admits upd D sized Q) (hpays : m.Pays upd D idle budget)
    {c d : Config C R ε σ ℓ τ α} {tr : List (σ × Event C R ε M)} {g : γ} (h : m.Run c tr d)
    (hc : m.Sound upd D sized Q c g) :
    d.threads.length + budget (d.state,observe upd g tr) ≤
      c.threads.length + budget (c.state,g) := by
  induction h with
  | refl => exact le_rfl
  | step hrun hstep ih =>
    rw [observe_append]
    exact (hstep.spent hpays (hrun.sound hadm hc)).trans ih

/-- A step of a program or a move that is not idle, after any idle moves. -/
inductive Progress (m : Machine C R ε σ ℓ M τ α) (idle : M → Prop) :
    Config C R ε σ ℓ τ α → Config C R ε σ ℓ τ α → Prop
  | own {c c' i cmd r} (h : m.Step c (.own i cmd r) c') : Progress m idle c c'
  | busy {c c' mv} (hmv : ¬idle mv) (h : m.Step c (.env mv) c') : Progress m idle c c'
  | idle {c d c' mv} (hmv : idle mv) (h : m.Step c (.env mv) d) (hd : Progress m idle d c') :
      Progress m idle c c'

/-- Fewer programs to pay for, or less to do for those that run. -/
abbrev Less (C : Type) (R : C → Type) (ε α : Type) :
    ℕ × Multiset (Proc C R ε α) → ℕ × Multiset (Proc C R ε α) → Prop :=
  Prod.Lex (· < ·) (Relation.CutExpand Proc.After)

theorem less_wf : WellFounded (Less C R ε α) :=
  WellFounded.prod_lex Nat.lt_wfRel.wf Proc.after_wf.cutExpand

theorem less_iff {p q : ℕ × Multiset (Proc C R ε α)} :
    Less C R ε α p q ↔ p.1 < q.1 ∨ p.1 = q.1 ∧ Relation.CutExpand Proc.After p.2 q.2 :=
  Prod.lex_def

/-- A budget may only have been larger before. -/
theorem Less.of_le {n n' : ℕ} {p : ℕ × Multiset (Proc C R ε α)} {x : Multiset (Proc C R ε α)}
    (h : Less C R ε α p (n,x)) (hle : n ≤ n') : Less C R ε α p (n',x) := by
  rw [less_iff] at h ⊢
  rcases h with hlt | ⟨heq,hcut⟩
  · exact .inl (hlt.trans_le hle)
  · rcases Nat.lt_or_eq_of_le hle with hlt | heq'
    · exact .inl (heq.trans_lt hlt)
    · exact .inr ⟨heq.trans heq',hcut⟩

theorem Step.less (hpays : m.Pays upd D idle budget) {c c' : Config C R ε σ ℓ τ α} {i : ℕ}
    {cmd : C} {r : Except ε (R cmd)} {g : γ} (h : m.Step c (.own i cmd r) c')
    (hc : m.Sound upd D sized Q c g) :
    Less C R ε α (budget (c'.state,upd g c.state (.own i cmd r)),programs c')
      (budget (c.state,g),programs c) := by
  cases h with
  | @own _ label l l' _ next _ s' hi he =>
    have hcut : Relation.CutExpand Proc.After
        (programs ⟨s',c.threads.set i ⟨label,l',next r⟩⟩) (programs c) := by
      refine ⟨{next r},.call cmd next,fun y hy => ?_,?_⟩
      · rw [Multiset.mem_singleton.mp hy]
        exact .mk cmd next r
      · rw [programs, programs, List.map_set]
        exact set_add_singleton (by rw [List.getElem?_map, hi]; rfl)
    exact Less.of_le (less_iff.mpr (.inr ⟨rfl,hcut⟩)) (hpays.own (hc.guar hi he))

/-- Each step of progress leaves less. -/
theorem Progress.less (hadm : m.Admits upd D sized Q) (hpays : m.Pays upd D idle budget)
    {c c' : Config C R ε σ ℓ τ α} (h : m.Progress idle c c') {g : γ}
    (hc : m.Sound upd D sized Q c g) :
    ∃ g', m.Sound upd D sized Q c' g' ∧
      Less C R ε α (budget (c'.state,g'),programs c') (budget (c.state,g),programs c) := by
  induction h generalizing g with
  | own h => exact ⟨_,h.sound hadm hc,h.less hpays hc⟩
  | @busy c c' mv hmv h =>
    refine ⟨_,h.sound hadm hc,.left _ _ ?_⟩
    cases h with
    | env hm =>
      have hle := hpays.move hm hc.inv
      have hpos := List.length_pos_of_ne_nil fun hnil => hmv ((hpays.busy hm).mp hnil)
      exact (Nat.lt_add_of_pos_right hpos).trans_le hle
  | @idle c d c' mv hmv h _ ih =>
    have hd := h.sound hadm hc
    obtain ⟨g',hsound,hless⟩ := ih hd
    refine ⟨g',hsound,?_⟩
    cases h with
    | @env _ s' labels hm =>
      have hle := hpays.move hm hc.inv
      obtain rfl := (hpays.busy hm).mpr hmv
      have hprograms : programs (⟨s',c.threads ++ [].map m.spawn⟩ : Config C R ε σ ℓ τ α) =
          programs c := by
        simp [programs]
      rw [hprograms] at hless
      exact hless.of_le (by simpa using hle)

/-- A sound configuration has no endless run. -/
theorem Sound.terminates (hadm : m.Admits upd D sized Q) (hpays : m.Pays upd D idle budget)
    {c : Config C R ε σ ℓ τ α} {g : γ} (hc : m.Sound upd D sized Q c g) :
    Acc (fun c' c => m.Progress idle c c') c := by
  obtain ⟨p,hp⟩ : ∃ p, p = (budget (c.state,g),programs c) := ⟨_,rfl⟩
  induction p using less_wf.induction generalizing c g with
  | _ p ih =>
    subst hp
    refine ⟨c,fun c' h => ?_⟩
    obtain ⟨g',hsound,hless⟩ := h.less hadm hpays hc
    exact ih _ hless hsound rfl

/-- In other words: no sequence of configurations goes on for ever. -/
theorem no_endless_run {c : Config C R ε σ ℓ τ α} (h : Acc (fun c' c => m.Progress idle c c') c)
    (run : ℕ → Config C R ε σ ℓ τ α) (h0 : run 0 = c) : ¬∀ n, m.Progress idle (run n) (run (n+1)) := by
  intro hrun
  induction h generalizing run with
  | intro c _ ih => exact ih (run 1) (h0 ▸ hrun 0) (fun n => run (n+1)) rfl fun n => hrun (n+1)

end Machine
end SafeDecoder
