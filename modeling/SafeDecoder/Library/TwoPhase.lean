import SafeDecoder.Library.Interleaving

/-! # Commands in two phases

A command with a key may take effect in two steps: it reserves the key, for which
others have to wait, and is committed later. Every run of the machine in which
commands are split is a run of the one in which they are not, with the commands
where they are committed or refused.
-/
namespace SafeDecoder

inductive Phase (C : Type)
  | reserve (c : C)
  | commit (c : C)

@[reducible] def Phase.Answer {C : Type} (R : C → Type) : Phase C → Type
  | reserve _ => Unit
  | commit c => R c

variable {C K : Type} {R : C → Type} {ε σ ℓ M τ α : Type}

namespace Proc

/-- A command with a key is committed after it has been reserved. -/
def split (key : C → Option K) : Proc C R ε α → Proc (Phase C) (Phase.Answer R) ε α
  | ret a => ret a
  | raise e => raise e
  | call c next =>
    if (key c).isSome then
      call (.reserve c) fun
        | .ok _ => call (.commit c) fun r => (next r).split key
        | .error e => (next (.error e)).split key
    else call (.commit c) fun r => (next r).split key

theorem split_outcome? (key : C → Option K) (x : Proc C R ε α) :
    (x.split key).outcome? = x.outcome? := by
  cases x with
  | ret a => rfl
  | raise e => rfl
  | call c next =>
    rw [split]
    split <;> rfl

end Proc

/-- What others can see of a program: its label, its session and its outcome. -/
def Thread.view (th : Thread C R ε ℓ τ α) : τ × ℓ × Option (Except ε α) :=
  (th.label,th.session,th.prog.outcome?)

def Thread.split (key : C → Option K) (th : Thread C R ε ℓ τ α) :
    Thread (Phase C) (Phase.Answer R) ε ℓ τ α := ⟨th.label,th.session,th.prog.split key⟩

def Config.views (c : Config C R ε σ ℓ τ α) : List (τ × ℓ × Option (Except ε α)) :=
  c.threads.map Thread.view

namespace Machine

section Definitions
variable [DecidableEq K] (m : Machine C R ε σ ℓ M τ α) (key : C → Option K)

/-- Keys that are reserved are part of the shared state. A key that another program
has reserved can only be waited for. -/
inductive SplitExec : σ × List K → ℓ → (p : Phase C) → Except ε (p.Answer R) → σ × List K → ℓ → Prop
  | reserved {s held l c k} (hk : key c = some k) (hfree : k ∉ held)
      (hok : ∃ a s' l', m.exec s l c (.ok a) s' l') :
      SplitExec (s,held) l (.reserve c) (.ok ()) (s,k :: held) l
  | refused {s held l c e s' l'} (he : m.exec s l c (.error e) s' l') :
      SplitExec (s,held) l (.reserve c) (.error e) (s',held) l'
  | committed {s held l c r s' l'} (he : m.exec s l c r s' l') :
      SplitExec (s,held) l (.commit c) r (s',(key c).elim held held.erase) l'

def split : Machine (Phase C) (Phase.Answer R) ε (σ × List K) ℓ M τ α where
  exec := m.SplitExec key
  move := fun mv s t labels => m.move mv s.1 t.1 labels ∧ t.2 = s.2
  program := fun label => (m.program label).split key
  session := m.session

end Definitions

section Simulation
variable {m : Machine C R ε σ ℓ M τ α} {key : C → Option K}

/-- The program has reserved a command that it has yet to commit. -/
def Between (key : C → Option K) (y : Proc (Phase C) (Phase.Answer R) ε α) (x : Proc C R ε α) : Prop :=
  ∃ c next, x = .call c next ∧ y = .call (.commit c) fun r => (next r).split key

/-- A program is where its split one is, or has yet to commit a command. -/
structure ThreadSim (key : C → Option K) (tf : Thread (Phase C) (Phase.Answer R) ε ℓ τ α)
    (tc : Thread C R ε ℓ τ α) : Prop where
  label : tf.label = tc.label
  session : tf.session = tc.session
  prog : tf.prog = tc.prog.split key ∨ Between key tf.prog tc.prog

structure Sim (key : C → Option K) (d : Config (Phase C) (Phase.Answer R) ε (σ × List K) ℓ τ α)
    (c : Config C R ε σ ℓ τ α) : Prop where
  state : d.state.1 = c.state
  length : d.threads.length = c.threads.length
  threads : ∀ {i : ℕ} {tf tc}, d.threads[i]? = some tf → c.threads[i]? = some tc → ThreadSim key tf tc

theorem ThreadSim.view {tf : Thread (Phase C) (Phase.Answer R) ε ℓ τ α} {tc : Thread C R ε ℓ τ α}
    (h : ThreadSim key tf tc) : tf.view = tc.view := by
  have hprog : tf.prog.outcome? = tc.prog.outcome? := by
    rcases h.prog with hp | ⟨c,next,hc,hf⟩
    · rw [hp, Proc.split_outcome?]
    · rw [hc, hf]
      rfl
  rw [Thread.view, Thread.view, h.label, h.session, hprog]

/-- Nothing can be seen of the difference. -/
theorem Sim.views {d : Config (Phase C) (Phase.Answer R) ε (σ × List K) ℓ τ α}
    {c : Config C R ε σ ℓ τ α} (h : Sim key d c) : d.views = c.views := by
  apply List.ext_getElem (by simp [Config.views, h.length])
  intro i hd hc
  simp only [Config.views, List.getElem_map, List.length_map] at hd hc ⊢
  exact (h.threads (List.getElem?_eq_getElem hd) (List.getElem?_eq_getElem hc)).view

/-- Two related programs take a step each, or only the split one does. -/
theorem Sim.set {d : Config (Phase C) (Phase.Answer R) ε (σ × List K) ℓ τ α}
    {c : Config C R ε σ ℓ τ α} (h : Sim key d c) {i : ℕ}
    {tf : Thread (Phase C) (Phase.Answer R) ε ℓ τ α} {tc : Thread C R ε ℓ τ α}
    (ht : ThreadSim key tf tc) {s : σ} {held : List K} :
    Sim key ⟨(s,held),d.threads.set i tf⟩ ⟨s,c.threads.set i tc⟩ := by
  refine ⟨rfl,by simp [h.length],fun {j tf' tc'} hf hc => ?_⟩
  by_cases hij : i = j
  · subst hij
    simp only [List.getElem?_set_self', Option.map_eq_map, Option.map_eq_some_iff] at hf hc
    obtain ⟨_,_,rfl⟩ := hf
    obtain ⟨_,_,rfl⟩ := hc
    exact ht
  · rw [List.getElem?_set_ne hij] at hf hc
    exact h.threads hf hc

variable [DecidableEq K]

/-- A split program starts where the program does. -/
theorem threadSim_spawn {labels : List τ} {i : ℕ} {tf : Thread (Phase C) (Phase.Answer R) ε ℓ τ α}
    {tc : Thread C R ε ℓ τ α} (hf : (labels.map (m.split key).spawn)[i]? = some tf)
    (hc : (labels.map m.spawn)[i]? = some tc) : ThreadSim key tf tc := by
  rw [List.getElem?_map, Option.map_eq_some_iff] at hf hc
  obtain ⟨label,hlabel,rfl⟩ := hf
  obtain ⟨label',hlabel',rfl⟩ := hc
  obtain rfl : label = label' := Option.some.inj (hlabel.symm.trans hlabel')
  exact ⟨rfl,rfl,.inl rfl⟩

theorem sim_initial (s : σ) (labels : List τ) :
    Sim key ((m.split key).initial (s,[]) labels) (m.initial s labels) := by
  exact ⟨rfl,by simp [initial],fun hf hc => threadSim_spawn hf hc⟩

/-- One step of a split program: it reserves, or its command takes effect. -/
theorem SplitExec.sim {x : Proc C R ε α} {p : Phase C}
    {next : Except ε (p.Answer R) → Proc (Phase C) (Phase.Answer R) ε α}
    (hx : .call p next = x.split key ∨ Between key (.call p next) x) {s : σ} {held : List K} {l l' : ℓ}
    {r : Except ε (p.Answer R)} {t : σ × List K} (he : m.SplitExec key (s,held) l p r t l') :
    (t.1 = s ∧ l' = l ∧ Between key (next r) x) ∨
      ∃ c nx r', x = .call c nx ∧ m.exec s l c r' t.1 l' ∧ next r = (nx r').split key := by
  rcases hx with hx | ⟨c,nx,rfl,hx⟩
  · cases x with
    | ret a => cases hx
    | raise e => cases hx
    | call c nx =>
      rw [Proc.split] at hx
      split at hx
      · cases hx
        cases he with
        | reserved => exact .inl ⟨rfl,rfl,c,nx,rfl,rfl⟩
        | refused he => exact .inr ⟨c,nx,_,rfl,he,rfl⟩
      · cases hx
        cases he with
        | committed he => exact .inr ⟨c,nx,_,rfl,he,rfl⟩
  · cases hx
    cases he with
    | committed he => exact .inr ⟨c,nx,_,rfl,he,rfl⟩

theorem Step.sim {d d' : Config (Phase C) (Phase.Answer R) ε (σ × List K) ℓ τ α}
    {c : Config C R ε σ ℓ τ α} {e : Event (Phase C) (Phase.Answer R) ε M}
    (hstep : (m.split key).Step d e d') (h : Sim key d c) :
    ∃ tr c', m.Run c tr c' ∧ Sim key d' c' := by
  cases hstep with
  | @env move s' labels hm =>
    obtain ⟨hmove,_⟩ := hm
    rw [h.state] at hmove
    refine ⟨_,_,.step .refl (.env hmove),rfl,by simp [h.length],fun {i tf tc} hf hc => ?_⟩
    by_cases hi : i < c.threads.length
    · rw [List.getElem?_append_left (h.length ▸ hi)] at hf
      rw [List.getElem?_append_left hi] at hc
      exact h.threads hf hc
    · have hle := Nat.le_of_not_lt hi
      rw [List.getElem?_append_right (h.length ▸ hle), h.length] at hf
      rw [List.getElem?_append_right hle] at hc
      exact threadSim_spawn hf hc
  | @own i label l l' cmd next r s' hi he =>
    obtain ⟨tc,hc⟩ : ∃ tc, c.threads[i]? = some tc :=
      ⟨_,List.getElem?_eq_getElem (h.length ▸ (List.getElem?_eq_some_iff.mp hi).1)⟩
    obtain ⟨hlabel,hsession,hprog⟩ := h.threads hi hc
    obtain ⟨label',l₀,x⟩ := tc
    obtain rfl : label = label' := hlabel
    obtain rfl : l = l₀ := hsession
    rw [show d.state = (c.state,d.state.2) from Prod.ext h.state rfl] at he
    rcases SplitExec.sim hprog he with ⟨hs,rfl,hbetween⟩ | ⟨cmd',nx,r',rfl,hexec,hnext⟩
    · obtain ⟨t,held⟩ := s'
      obtain rfl : t = c.state := hs
      have hsame : c.threads.set i ⟨label,l',x⟩ = c.threads := by
        obtain ⟨_,hx⟩ := List.getElem?_eq_some_iff.mp hc
        rw [← hx, List.set_getElem_self]
      have hthread : ThreadSim key (⟨label,l',next r⟩ : Thread _ _ ε ℓ τ α) ⟨label,l',x⟩ :=
        ⟨rfl,rfl,.inr hbetween⟩
      have hset : Sim key ⟨(c.state,held),d.threads.set i ⟨label,l',next r⟩⟩
          ⟨c.state,c.threads.set i ⟨label,l',x⟩⟩ := h.set hthread
      rw [hsame] at hset
      exact ⟨[],c,.refl,hset⟩
    · exact ⟨_,_,.step .refl (.own hc hexec),h.set ⟨rfl,rfl,.inl hnext⟩⟩

/-- Every run of the split programs is matched. -/
theorem Run.sim {d d' : Config (Phase C) (Phase.Answer R) ε (σ × List K) ℓ τ α}
    {c : Config C R ε σ ℓ τ α} {tr : List ((σ × List K) × Event (Phase C) (Phase.Answer R) ε M)}
    (hrun : (m.split key).Run d tr d') (h : Sim key d c) :
    ∃ tr' c', m.Run c tr' c' ∧ Sim key d' c' := by
  induction hrun with
  | refl => exact ⟨[],c,.refl,h⟩
  | step _ hstep ih =>
    obtain ⟨tr₁,c₁,hrun₁,hsim₁⟩ := ih
    obtain ⟨tr₂,c₂,hrun₂,hsim₂⟩ := hstep.sim hsim₁
    exact ⟨_,c₂,hrun₁.trans hrun₂,hsim₂⟩

end Simulation

section Converse
variable {m : Machine C R ε σ ℓ M τ α} {key : C → Option K}

/-- Nothing is reserved. -/
def settled (key : C → Option K) (c : Config C R ε σ ℓ τ α) :
    Config (Phase C) (Phase.Answer R) ε (σ × List K) ℓ τ α :=
  ⟨(c.state,[]),c.threads.map (Thread.split key)⟩

variable [DecidableEq K]

theorem settled_initial (s : σ) (labels : List τ) :
    settled key (m.initial s labels) = (m.split key).initial (s,[]) labels := by
  rw [settled, initial, initial, List.map_map]
  rfl

theorem Step.split {c c' : Config C R ε σ ℓ τ α} {e : Event C R ε M} (h : m.Step c e c') :
    ∃ tr, (m.split key).Run (settled key c) tr (settled key c') := by
  cases h with
  | @env move s' labels hm =>
    have hend : settled key ⟨s',c.threads ++ labels.map m.spawn⟩ =
        ⟨(s',[]),(settled key c).threads ++ labels.map (m.split key).spawn⟩ := by
      rw [settled, List.map_append, List.map_map]
      rfl
    have hmove : (m.split key).move move (settled key c).state (s',[]) labels := ⟨hm,rfl⟩
    rw [hend]
    exact ⟨_,.step .refl (.env hmove)⟩
  | @own i label l l' cmd next r s' hi he =>
    have hsplit : (settled key c).threads[i]? =
        some ⟨label,l,(Proc.call cmd next).split key⟩ := by
      rw [settled, List.getElem?_map, hi]
      rfl
    have hend : settled key ⟨s',c.threads.set i ⟨label,l',next r⟩⟩ =
        ⟨(s',[]),(settled key c).threads.set i ⟨label,l',(next r).split key⟩⟩ := by
      rw [settled, List.map_set]
      rfl
    rw [hend]
    rw [Proc.split] at hsplit
    cases hk : key cmd with
    | none =>
      rw [hk, Option.isSome_none, if_neg Bool.false_ne_true] at hsplit
      have hcommit : (m.split key).exec (c.state,[]) l (.commit cmd) r (s',(key cmd).elim [] [].erase) l' :=
        .committed he
      rw [hk] at hcommit
      exact ⟨_,.step .refl (.own hsplit hcommit)⟩
    | some k =>
      rw [hk, Option.isSome_some, if_pos rfl] at hsplit
      cases r with
      | error e =>
        have hrefused : (m.split key).exec (c.state,[]) l (.reserve cmd) (.error e) (s',[]) l' :=
          .refused he
        exact ⟨_,.step .refl (.own hsplit hrefused)⟩
      | ok a =>
        have hreserved : (m.split key).exec (c.state,[]) l (.reserve cmd) (.ok ()) (c.state,[k]) l :=
          .reserved hk List.not_mem_nil ⟨a,s',l',he⟩
        have hcommit : (m.split key).exec (c.state,[k]) l (.commit cmd) (.ok a)
            (s',(key cmd).elim [k] [k].erase) l' := .committed he
        rw [hk, Option.elim_some, List.erase_cons_head] at hcommit
        have hfirst := Step.own hsplit hreserved
        have hset := List.getElem?_set_self (a := (⟨label,l,.call (.commit cmd) fun r =>
          (next r).split key⟩ : Thread (Phase C) (Phase.Answer R) ε ℓ τ α))
          (List.getElem?_eq_some_iff.mp hsplit).1
        have hsecond := Step.own (c := ⟨(c.state,[k]),_⟩) hset hcommit
        rw [List.set_set] at hsecond
        exact ⟨_,.step (.step .refl hfirst) hsecond⟩

/-- A run can be made of split steps, with nothing else in between. -/
theorem Run.split {c c' : Config C R ε σ ℓ τ α} {tr : List (σ × Event C R ε M)} (h : m.Run c tr c') :
    ∃ tr', (m.split key).Run (settled key c) tr' (settled key c') := by
  induction h with
  | refl => exact ⟨[],.refl⟩
  | @step d d' tr e _ hstep ih =>
    obtain ⟨tr₁,hrun⟩ := ih
    have hnext : ∃ tr₂, (m.split key).Run (settled key d) tr₂ (settled key d') := hstep.split
    obtain ⟨tr₂,hlast⟩ := hnext
    exact ⟨tr₁ ++ tr₂,hrun.trans hlast⟩

end Converse

section Waiting
variable {m : Machine C R ε σ ℓ M τ α} {key : C → Option K}

/-- Whoever has reserved a key is about to commit, and nobody else has reserved it. -/
structure Holding (key : C → Option K) (d : Config (Phase C) (Phase.Answer R) ε (σ × List K) ℓ τ α) :
    Prop where
  nodup : d.state.2.Nodup
  holder : ∀ k ∈ d.state.2, ∃ (i : ℕ) (label : τ) (l : ℓ) (c : C)
    (next : Except ε (R c) → Proc (Phase C) (Phase.Answer R) ε α),
    d.threads[i]? = some ⟨label,l,.call (.commit c) next⟩ ∧ key c = some k

/-- Only commands with a key are reserved, and what is reserved is committed next. -/
theorem of_reserve {x : Proc C R ε α} {c : C}
    {next : Except ε Unit → Proc (Phase C) (Phase.Answer R) ε α}
    (hx : .call (.reserve c) next = x.split key ∨ Between key (.call (.reserve c) next) x) :
    (key c).isSome ∧ ∃ next', next (.ok ()) = .call (.commit c) next' := by
  rcases hx with hx | ⟨c',nx,rfl,hx⟩
  · cases x with
    | ret a => cases hx
    | raise e => cases hx
    | call c' nx =>
      rw [Proc.split] at hx
      split at hx
      · rename_i hk
        cases hx
        exact ⟨hk,_,rfl⟩
      · cases hx
  · cases hx

variable [DecidableEq K]

theorem Step.holding {d d' : Config (Phase C) (Phase.Answer R) ε (σ × List K) ℓ τ α}
    {c : Config C R ε σ ℓ τ α} {e : Event (Phase C) (Phase.Answer R) ε M}
    (hstep : (m.split key).Step d e d') (hsim : Sim key d c) (h : Holding key d) :
    Holding key d' := by
  cases hstep with
  | @env move s' labels hm =>
    obtain ⟨_,hheld⟩ := hm
    refine ⟨hheld ▸ h.nodup,fun k hk => ?_⟩
    obtain ⟨i,label,l,c,next,hi,hkey⟩ := h.holder k (hheld ▸ hk)
    exact ⟨i,label,l,c,next,List.getElem?_append_left (List.getElem?_eq_some_iff.mp hi).1 ▸ hi,hkey⟩
  | @own i label l l' p next r s' hi he =>
    have hlt := (List.getElem?_eq_some_iff.mp hi).1
    -- whoever holds a key that this step leaves alone goes on holding it
    have hothers : ∀ k ∈ d.state.2, (∀ c, p = .commit c → key c ≠ some k) →
        ∃ (j : ℕ) (label' : τ) (l₀ : ℓ) (c : C)
          (next' : Except ε (R c) → Proc (Phase C) (Phase.Answer R) ε α),
          (d.threads.set i ⟨label,l',next r⟩)[j]? = some ⟨label',l₀,.call (.commit c) next'⟩ ∧
            key c = some k := by
      intro k hk hp
      obtain ⟨j,label',l₀,c,next',hj,hkey⟩ := h.holder k hk
      have hij : i ≠ j := by
        rintro rfl
        rw [hi] at hj
        cases hj
        exact hp c rfl hkey
      exact ⟨j,label',l₀,c,next',by rwa [List.getElem?_set_ne hij],hkey⟩
    obtain ⟨tc,hc⟩ : ∃ tc, c.threads[i]? = some tc :=
      ⟨_,List.getElem?_eq_getElem (hsim.length ▸ hlt)⟩
    have hprog := (hsim.threads hi hc).prog
    obtain ⟨⟨s,held⟩,threads⟩ := d
    cases he with
    | @reserved _ _ _ c k hk hfree _ =>
      obtain ⟨_,next',hnext⟩ := of_reserve hprog
      refine ⟨List.nodup_cons.mpr ⟨hfree,h.nodup⟩,fun k' hk' => ?_⟩
      rcases List.mem_cons.mp hk' with rfl | hk'
      · refine ⟨i,label,l,c,next',?_,hk⟩
        rw [← hnext]
        exact List.getElem?_set_self hlt
      · exact hothers k' hk' fun _ hp => nomatch hp
    | refused => exact ⟨h.nodup,fun k hk => hothers k hk fun _ hp => nomatch hp⟩
    | @committed _ _ _ c =>
      cases hkey : key c with
      | none =>
        refine ⟨h.nodup,fun k hk => hothers k hk fun c' hp => ?_⟩
        cases hp
        simp [hkey]
      | some k =>
        refine ⟨h.nodup.erase k,fun k' hk' => ?_⟩
        obtain ⟨hne,hmem⟩ := h.nodup.mem_erase_iff.mp hk'
        apply hothers k' hmem
        intro c' hp hkey'
        cases hp
        exact hne (Option.some.inj (hkey'.symm.trans hkey))

theorem Run.holding {d d' : Config (Phase C) (Phase.Answer R) ε (σ × List K) ℓ τ α}
    {c : Config C R ε σ ℓ τ α} {tr : List ((σ × List K) × Event (Phase C) (Phase.Answer R) ε M)}
    (hrun : (m.split key).Run d tr d') (hsim : Sim key d c) (h : Holding key d) :
    Holding key d' := by
  induction hrun with
  | refl => exact h
  | step hrun hstep ih =>
    obtain ⟨_,_,_,hsim'⟩ := hrun.sim hsim
    exact hstep.holding hsim' ih

/-- Nobody waits for ever: as long as a program is not through, one can take a step. -/
theorem Sim.progress (htotal : ∀ s l c, ∃ r s' l', m.exec s l c r s' l')
    {d : Config (Phase C) (Phase.Answer R) ε (σ × List K) ℓ τ α} {c : Config C R ε σ ℓ τ α}
    (hsim : Sim key d c) (h : Holding key d) : d.finished ∨ ∃ e d', (m.split key).Step d e d' := by
  have hcommits : ∀ {i : ℕ} {label : τ} {l : ℓ} {c : C}
      {next : Except ε (R c) → Proc (Phase C) (Phase.Answer R) ε α},
      d.threads[i]? = some ⟨label,l,.call (.commit c) next⟩ → ∃ e d', (m.split key).Step d e d' := by
    intro i label l c next hi
    obtain ⟨r,s',l',he⟩ := htotal d.state.1 l c
    exact ⟨_,_,.own hi (.committed he)⟩
  by_cases hfinished : d.finished
  · exact .inl hfinished
  · right
    simp only [Config.finished, not_forall, exists_prop] at hfinished
    obtain ⟨th,hth,hnone⟩ := hfinished
    obtain ⟨i,hi⟩ := List.mem_iff_getElem?.mp hth
    obtain ⟨tc,hc⟩ : ∃ tc, c.threads[i]? = some tc :=
      ⟨_,List.getElem?_eq_getElem (hsim.length ▸ (List.getElem?_eq_some_iff.mp hi).1)⟩
    have hprog := (hsim.threads hi hc).prog
    obtain ⟨label,l,x⟩ := th
    obtain ⟨p,next,rfl⟩ := Proc.outcome?_eq_none.mp (Option.not_isSome_iff_eq_none.mp hnone)
    cases p with
    | commit c => exact hcommits hi
    | reserve c =>
      obtain ⟨hkey,_⟩ := of_reserve hprog
      obtain ⟨k,hk⟩ := Option.isSome_iff_exists.mp hkey
      by_cases hfree : k ∈ d.state.2
      · obtain ⟨_,_,_,_,_,hj,_⟩ := h.holder k hfree
        exact hcommits hj
      · obtain ⟨r,s',l',he⟩ := htotal d.state.1 l c
        cases r with
        | error e => exact ⟨_,_,.own hi (.refused he)⟩
        | ok a => exact ⟨_,_,.own hi (.reserved hk hfree ⟨a,s',l',he⟩)⟩

end Waiting
end Machine
end SafeDecoder
