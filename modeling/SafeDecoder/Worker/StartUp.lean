import SafeDecoder.Worker.System

/-! # Start-ups that load the bundled ABIs together

A start-up looks for the source and for each document before it inserts it, and
another process may insert the same in between. The unique index refuses the
second document, which ends the start-up; nothing refuses the second source.
-/
namespace SafeDecoder.StartUp
open Worker Machine

variable {pg : Postgres} (inst : Installation)

section Processes

/-- Who is at work: a start-up of a web process, or a worker that stores an ABI. -/
inductive Participant
  | web
  | worker (abiJson : Json) (sourceId : ℕ) (relevance : Int)

def bundledAbis : List Json :=
  inst.safeContractsAbis ++ ((inst.ercAbis ++ inst.safeAbis) ++ inst.thirdPartiesAbis)

/-- The documents that a participant stores. -/
def Participant.documents : Participant → List Json
  | .web => bundledAbis inst
  | .worker abiJson _ _ => [abiJson]

def Participant.program : Participant → Worker.Task Unit
  | .web => loadLocalAbisInDatabase inst
  | .worker abiJson sourceId relevance => do
    let _ ← Abi.getOrCreateAbi abiJson sourceId relevance

/-- Participants that take turns on one database. -/
abbrev processes (pg : Postgres) :
    Machine Command Command.Answer PyError (World pg) DbSession Empty Participant Unit :=
  pool pg (fun _ _ _ _ => True) (Participant.program inst)

abbrev ProcessConfig (pg : Postgres) :=
  Config Command Command.Answer PyError (World pg) DbSession Participant Unit

abbrev ProcessEvent := Event Command Command.Answer PyError Empty

/-- The rows of the source that the bundled ABIs have. -/
def localSources (w : World pg) : ℕ :=
  w.db.sources.countP fun s => s.name = "localstorage" && s.url = "decoder-service"

/-- Nobody has failed, the source is there once, and so is each bundled ABI. -/
structure Loaded (c : ProcessConfig pg) : Prop where
  completes : ∀ th ∈ c.threads, th.prog.outcome? = some (.ok ())
  source : localSources c.state = 1
  abis : ∀ j ∈ bundledAbis inst,
    (c.state.db.abis.countP fun r => pg.abiHash r.abiJson = pg.abiHash j) = 1

/-- What a start-up inserts is still not there. -/
def Fresh (participants : List Participant) (w : World pg) : ProcessEvent → Prop
  | .own _ (.insertAbiSource name url) _ => w.source name url = none
  | .own i (.insertAbi abiJson _ _) _ =>
    participants[i]? = some .web → w.abiOf abiJson = none
  | _ => True

instance (p : Option Participant) : Decidable (p = some .web) :=
  match p with
  | some .web => .isTrue rfl
  | some (.worker _ _ _) => .isFalse fun h => by cases h
  | none => .isFalse fun h => by cases h

instance (participants : List Participant) (w : World pg) (e : ProcessEvent) :
    Decidable (Fresh participants w e) := by
  unfold Fresh
  split <;> infer_instance

end Processes

section History

/-- What goes wrong: a second source, or a document that is refused to a participant. -/
inductive Mishap
  | doubled
  | refused (i : ℕ)

def happens (w : World pg) : ProcessEvent → Mishap → Prop
  | .own _ (.insertAbiSource name url) _, .doubled => w.source name url ≠ none
  | .own i (.insertAbi abiJson _ _) _, .refused k => i = k ∧ w.abiOf abiJson ≠ none
  | _, _ => False

/-- Nothing is deleted. -/
structure Grows (w w' : World pg) : Prop where
  abi : ∀ j, w.abiOf j ≠ none → w'.abiOf j ≠ none
  sources : localSources w ≤ localSources w'

namespace Grows

theorem refl (w : World pg) : Grows w w := ⟨fun _ h => h,le_rfl⟩

theorem trans {w w' w'' : World pg} (h : Grows w w') (h' : Grows w' w'') : Grows w w'' :=
  ⟨fun j hj => h'.abi j (h.abi j hj),h.sources.trans h'.sources⟩

theorem addAbi {w : World pg} {abiJson : Json} {sourceId : ℕ} {relevance : Int}
    (h : pg.abiHash abiJson ∉ w.db.abis.map fun r => pg.abiHash r.abiJson) :
    Grows w (w.addAbi abiJson sourceId relevance h) := by
  refine ⟨fun j hj => ?_,le_rfl⟩
  obtain ⟨r,hr⟩ := Option.ne_none_iff_exists'.mp hj
  rw [(Persists.addAbi h).abi j r hr]
  simp

end Grows

theorem localSources_addSource (w : World pg) :
    localSources (w.addSource "localstorage" "decoder-service") = localSources w + 1 := by
  simp [localSources, World.addSource]

theorem localSources_eq_zero (w : World pg) :
    localSources w = 0 ↔ w.source "localstorage" "decoder-service" = none := by
  rw [localSources, List.countP_eq_zero, World.source, List.find?_eq_none]

/-- From `b` rows of the source at the start: there is one at most unless there were
more from the start or one was inserted twice. Task `i` alone says what it was refused. -/
def loading (b : ℕ) : Discipline (World pg × (Mishap → Prop)) where
  inv := fun s => localSources s.1 ≤ 1 ↔ b ≤ 1 ∧ ¬s.2 .doubled
  rely := fun i s t => Grows s.1 t.1 ∧ (s.2 (.refused i) ↔ t.2 (.refused i))
  guar := fun i s t => Grows s.1 t.1 ∧ ∀ k, k ≠ i → (s.2 (.refused k) ↔ t.2 (.refused k))
  rely_refl := fun _ s => ⟨Grows.refl s.1,Iff.rfl⟩
  rely_trans := fun _ _ _ _ h h' => ⟨h.1.trans h'.1,h.2.trans h'.2⟩

theorem loading_shared {b : ℕ} : (loading b : Discipline (World pg × (Mishap → Prop))).Shared :=
  fun {_ j _ _} hij h => ⟨h.1,h.2 j (Ne.symm hij)⟩

end History
section Commands
variable {inst} {b i : ℕ} {s : World pg × (Mishap → Prop)} {β : Type}
  {Q : Except PyError β → World pg × (Mishap → Prop) → DbSession → Prop}

theorem processes_exec : (processes inst pg).exec = Exec fun _ _ _ _ => True := rfl

theorem silent_meets {c : Command} {l l' : DbSession} (answer : World pg → Except PyError c.Answer)
    (hc : ∀ client address chainId, c ≠ .fetch client address chainId)
    (hread : ∀ w, respond unasked w l c = (answer w,w,l'))
    (hsilent : ∀ (w : World pg) r k, ¬happens w (.own i c r) k)
    {next : Except PyError c.Answer → Worker.Task β}
    (h : ∀ t, (loading b).rely i s t →
      Meets (loading b) i ((processes inst pg).recorded (note happens) i) Q (next (answer t.1)) t l') :
    Meets (loading b) i ((processes inst pg).recorded (note happens) i) Q (.call c next) s l := by
  apply meets_command processes_exec hc
  intro t ht hi r w' l'' hr
  rw [hread, Prod.mk.injEq, Prod.mk.injEq] at hr
  obtain ⟨rfl,rfl,rfl⟩ := hr
  rw [note_of_not (hsilent t.1 _)]
  exact ⟨⟨hi,Grows.refl t.1,fun _ _ => Iff.rfl⟩,h t ht⟩

theorem selectAbi_meets {abiJson : Json} (haccepts : pg.acceptsJson abiJson)
    {next : Except PyError (Option AbiRow) → Worker.Task β}
    (h : ∀ t, (loading b).rely i s t → Meets (loading b) i
      ((processes inst pg).recorded (note happens) i) Q (next (.ok (t.1.abiOf abiJson))) t active) :
    Meets (loading b) i ((processes inst pg).recorded (note happens) i) Q
      (.call (.selectAbi abiJson) next) s active :=
  silent_meets (fun w => .ok (w.abiOf abiJson)) (by simp)
    (fun w => by simp [respond, active, haccepts]) (fun _ _ _ => by simp [happens]) h

/-- The document is stored, or it is there and the task is refused. -/
theorem insertAbi_meets {abiJson : Json} (haccepts : pg.acceptsJson abiJson) {sourceId : ℕ}
    {relevance : Int} {next : Except PyError AbiRow → Worker.Task β}
    (hnew : ∀ t row, (loading b).rely i s t → t.1.abiOf abiJson ≠ none → Meets (loading b) i
      ((processes inst pg).recorded (note happens) i) Q (next (.ok row)) t active)
    (hold : ∀ t, Grows s.1 t.1 → t.1.abiOf abiJson ≠ none → t.2 (.refused i) → Meets (loading b) i
      ((processes inst pg).recorded (note happens) i) Q (next (.error integrityError)) t ⟨true⟩) :
    Meets (loading b) i ((processes inst pg).recorded (note happens) i) Q
      (.call (.insertAbi abiJson sourceId relevance) next) s active := by
  apply meets_command processes_exec (by simp)
  intro t ht hi r w' l' hr
  simp only [respond, active, Bool.false_eq_true, if_false, haccepts, if_true] at hr
  by_cases hmem : pg.abiHash abiJson ∈ t.1.db.abis.map fun r => pg.abiHash r.abiJson
  · have hrow : t.1.abiOf abiJson ≠ none := fun hnone => (abiOf_eq_none t.1).mp hnone hmem
    rw [dif_pos hmem, Prod.mk.injEq, Prod.mk.injEq] at hr
    obtain ⟨rfl,rfl,rfl⟩ := hr
    refine ⟨⟨?_,Grows.refl t.1,fun k hk => ?_⟩,hold _ ht.1 hrow (.inr ⟨rfl,hrow⟩)⟩
    · simpa [loading, note, happens] using hi
    · simp [note, happens, Ne.symm hk]
  · have hnone := (abiOf_eq_none t.1).mpr hmem
    rw [dif_neg hmem, Prod.mk.injEq, Prod.mk.injEq] at hr
    obtain ⟨rfl,rfl,rfl⟩ := hr
    rw [note_of_not fun k => by cases k <;> simp [happens, hnone]]
    refine ⟨⟨hi,Grows.addAbi hmem,fun _ _ => Iff.rfl⟩,hnew _ _ ⟨ht.1.trans (Grows.addAbi hmem),ht.2⟩ ?_⟩
    rw [abiOf_addAbi, if_pos rfl]
    simp

/-- Nothing refuses a second row of the source. -/
theorem insertAbiSource_meets {next : Except PyError AbiSourceRow → Worker.Task β}
    (h : ∀ t row, (loading b).rely i s t → 1 ≤ localSources t.1 → Meets (loading b) i
      ((processes inst pg).recorded (note happens) i) Q (next (.ok row)) t active) :
    Meets (loading b) i ((processes inst pg).recorded (note happens) i) Q
      (.call (.insertAbiSource "localstorage" "decoder-service") next) s active := by
  apply meets_command processes_exec (by simp)
  intro t ht hi r w' l' hr
  simp only [respond, active, Bool.false_eq_true, if_false, Prod.mk.injEq] at hr
  obtain ⟨rfl,rfl,rfl⟩ := hr
  have hcount := localSources_addSource t.1
  have hgrows : Grows t.1 (t.1.addSource "localstorage" "decoder-service") :=
    ⟨fun _ hj => hj,by omega⟩
  refine ⟨⟨?_,hgrows,fun k _ => by simp [note, happens]⟩,h _ _ ⟨ht.1.trans hgrows,?_⟩ (by simp [hcount])⟩
  · change localSources t.1 ≤ 1 ↔ _ at hi
    change localSources (t.1.addSource "localstorage" "decoder-service") ≤ 1 ↔ _
    rw [hcount]
    by_cases hnone : t.1.source "localstorage" "decoder-service" = none
    · have hzero := (localSources_eq_zero t.1).mpr hnone
      simpa [note, happens, hnone, hzero] using hi
    · have hsome := mt (localSources_eq_zero t.1).mp hnone
      simp only [note, happens, ne_eq, hnone, not_false_eq_true, or_true, not_true_eq_false, and_false,
        iff_false]
      omega
  · simpa [note, happens] using ht.2

end Commands

section Programs
variable {inst} {b i : ℕ} {s : World pg × (Mishap → Prop)}

theorem getOrCreate_bind {β : Type} (name url : String) (f : AbiSourceRow × Bool → Worker.Task β) :
    (AbiSource.getOrCreate name url).bind f =
      .call (.selectAbiSource name url) fun
        | .ok (some source) => f (source,false)
        | .ok none => .call (.insertAbiSource name url) fun
          | .ok source => f (source,true)
          | .error e => .raise e
        | .error e => .raise e := by
  refine congrArg (Proc.call _) (funext fun r => ?_)
  rcases r with e | (_ | source)
  · rfl
  · refine congrArg (Proc.call _) (funext fun r => ?_)
    cases r <;> rfl
  · rfl

/-- A part of a start-up has stored its documents, or the task has been refused one. -/
def Stored (i : ℕ) (docs : List Json) (s : World pg × (Mishap → Prop)) :
    Except PyError Unit → World pg × (Mishap → Prop) → DbSession → Prop
  | .ok _, t, l => l = active ∧ (loading 0).rely i s t ∧ ∀ j ∈ docs, t.1.abiOf j ≠ none
  | .error _, t, _ => t.2 (.refused i)

theorem storeAbis_meets {docs : List Json} (haccepts : ∀ j ∈ docs, pg.acceptsJson j)
    (relevance : Int) (source : AbiSourceRow) :
    Meets (loading b) i ((processes inst pg).recorded (note happens) i) (Stored i docs s)
      (storeAbisInDatabase relevance source docs) s active := by
  induction docs generalizing s with
  | nil => exact Meets.ret fun t ht _ => ⟨rfl,ht,fun _ h => nomatch h⟩
  | cons j docs ih =>
    have hrest : ∀ t, (loading b).rely i s t → t.1.abiOf j ≠ none →
        Meets (loading b) i ((processes inst pg).recorded (note happens) i) (Stored i (j :: docs) s)
          (storeAbisInDatabase relevance source docs) t active := by
      intro t ht hj
      apply (ih fun j' hj' => haccepts j' (List.mem_cons_of_mem _ hj')).mono
      intro r u l _ h
      cases r with
      | error e => exact h
      | ok _ =>
        obtain ⟨hl,hu,hdocs⟩ := h
        refine ⟨hl,(loading b).rely_trans i ht hu,fun j' hj' => ?_⟩
        rcases List.mem_cons.mp hj' with rfl | hj'
        · exact hu.1.abi _ hj
        · exact hdocs j' hj'
    have hj := haccepts j List.mem_cons_self
    apply selectAbi_meets hj
    intro t ht
    cases hrow : t.1.abiOf j with
    | some row => exact hrest t ht (by simp [hrow])
    | none =>
      refine insertAbi_meets hj (fun u row hu hnew => ?_) fun u _ _ hrefused => ?_
      · exact hrest u ((loading b).rely_trans i ht hu) hnew
      · exact Meets.raise fun v hv _ => (hv.2).mp hrefused

/-- What a start-up ends with: it has loaded everything, or it has been refused a document. -/
def WebOutcome (inst : Installation) (i : ℕ) :
    Except PyError Unit → World pg × (Mishap → Prop) → DbSession → Prop
  | .ok _, t, _ => ¬t.2 (.refused i) ∧ 1 ≤ localSources t.1 ∧ ∀ j ∈ bundledAbis inst, t.1.abiOf j ≠ none
  | .error _, t, _ => t.2 (.refused i)

theorem web_meets (haccepts : ∀ j ∈ bundledAbis inst, pg.acceptsJson j)
    (hs : ¬s.2 (.refused i)) :
    Meets (loading b) i ((processes inst pg).recorded (note happens) i) (WebOutcome inst i)
      (loadLocalAbisInDatabase inst) s active := by
  have hstore : ∀ t source, (loading b).rely i s t → 1 ≤ localSources t.1 →
      Meets (loading b) i ((processes inst pg).recorded (note happens) i) (WebOutcome inst i)
        ((storeAbisInDatabase 100 source inst.safeContractsAbis).bind fun _ =>
          (storeAbisInDatabase 90 source (inst.ercAbis ++ inst.safeAbis)).bind fun _ =>
            storeAbisInDatabase 50 source inst.thirdPartiesAbis) t active := by
    intro t source ht hsource
    simp only [bundledAbis, List.mem_append] at haccepts
    refine (storeAbis_meets (fun j hj => haccepts j (.inl hj)) 100 source).bind
      (fun _ u l _ hu => ?_) fun _ _ _ _ h => h
    obtain ⟨rfl,htu,hfirst⟩ := hu
    refine (storeAbis_meets (fun j hj => haccepts j (.inr (.inl (List.mem_append.mp hj)))) 90
      source).bind (fun _ v l _ hv => ?_) fun _ _ _ _ h => h
    obtain ⟨rfl,huv,hsecond⟩ := hv
    refine (storeAbis_meets (fun j hj => haccepts j (.inr (.inr hj))) 50 source).mono
      fun r x l _ hx => ?_
    cases r with
    | error e => exact hx
    | ok _ =>
      obtain ⟨-,hvx,hthird⟩ := hx
      refine ⟨fun h => hs ?_,?_,fun j hj => ?_⟩
      · exact ht.2.mpr (htu.2.mpr (huv.2.mpr (hvx.2.mpr h)))
      · exact hsource.trans (htu.1.trans (huv.1.trans hvx.1)).sources
      · simp only [bundledAbis, List.mem_append] at hj
        rcases hj with hj | hj | hj
        · exact (huv.1.trans hvx.1).abi j (hfirst j hj)
        · exact hvx.1.abi j (hsecond j (List.mem_append.mpr hj))
        · exact hthird j hj
  unfold loadLocalAbisInDatabase
  simp only [Proc.bind_eq]
  rw [getOrCreate_bind]
  refine silent_meets (fun w => .ok (w.source "localstorage" "decoder-service")) (by simp) (fun w => rfl)
    (fun _ _ _ => by simp [happens]) fun t ht => ?_
  cases hrow : t.1.source "localstorage" "decoder-service" with
  | some source =>
    refine hstore t source ht (Nat.one_le_iff_ne_zero.mpr fun hzero => ?_)
    rw [(localSources_eq_zero t.1).mp hzero] at hrow
    cases hrow
  | none =>
    exact insertAbiSource_meets fun u row hu hsource =>
      hstore u row ((loading b).rely_trans i ht hu) hsource

/-- A worker gets its document, whoever stores it. -/
theorem worker_meets {abiJson : Json} (haccepts : pg.acceptsJson abiJson) (sourceId : ℕ)
    (relevance : Int) :
    Meets (loading b) i ((processes inst pg).recorded (note happens) i) (fun r _ _ => r = .ok ())
      (Participant.program inst (.worker abiJson sourceId relevance)) s active := by
  change Meets _ i _ _ ((Abi.getOrCreateAbi abiJson sourceId relevance).bind fun _ => .ret ()) s active
  rw [getOrCreateAbi_bind]
  refine insertAbi_meets haccepts (fun t row _ _ => Meets.ret fun _ _ _ => rfl) fun t _ hrow _ => ?_
  refine silent_meets (fun _ => .ok ()) (by simp) (fun w => rfl)
    (fun _ _ _ => by simp [happens]) fun u hu => ?_
  apply selectAbi_meets haccepts
  intro v hv
  cases hv' : v.1.abiOf abiJson with
  | none => exact absurd hv' (hv.1.abi _ (hu.1.abi _ hrow))
  | some row => exact Meets.ret fun _ _ _ => rfl

end Programs

section Main
variable {inst}

theorem fresh_iff {participants : List Participant} {w : World pg} {e : ProcessEvent} :
    Fresh participants w e ↔ ¬happens w e .doubled ∧
      ∀ i, participants[i]? = some .web → ¬happens w e (.refused i) := by
  cases e with
  | env m => cases m
  | own k c r =>
    cases c with
    | insertAbi abiJson sourceId relevance =>
      simp only [Fresh, happens, not_false_eq_true, true_and, not_and, ne_eq, not_not]
      exact ⟨fun h i hi hk => h (hk ▸ hi),fun h hi => h k hi rfl⟩
    | _ => simp [Fresh, happens]

/-- The unique index has a document once. -/
theorem countP_of_abiOf {w : World pg} {j : Json} (h : w.abiOf j ≠ none) :
    (w.db.abis.countP fun r => pg.abiHash r.abiJson = pg.abiHash j) = 1 := by
  have hmem : pg.abiHash j ∈ w.db.abis.map fun r => pg.abiHash r.abiJson := by
    by_contra hno
    exact h ((abiOf_eq_none w).mpr hno)
  have hcount := List.count_eq_one_of_mem w.abiHashes hmem
  rw [List.count, List.countP_map] at hcount
  rw [← hcount]
  exact List.countP_congr fun r _ => by simp

/-- What has gone wrong in a run. -/
abbrev mishaps (tr : List (World pg × ProcessEvent)) : Mishap → Prop :=
  observe (note happens) (fun _ => False) tr

/-- What the participants end with. -/
def Outcome (inst : Installation) (i : ℕ) :
    Participant → Except PyError Unit → World pg × (Mishap → Prop) → DbSession → Prop
  | .web => WebOutcome inst i
  | .worker _ _ _ => fun r _ _ => r = .ok ()

theorem processes_sound {participants : List Participant}
    (haccepts : ∀ p ∈ participants, ∀ j ∈ p.documents inst, pg.acceptsJson j) {w : World pg}
    {tr : List (World pg × ProcessEvent)} {c : ProcessConfig pg}
    (h : (processes inst pg).Run ((processes inst pg).initial w participants) tr c) :
    (processes inst pg).Sound (note happens) (loading (localSources w))
      (fun _ n => n = participants.length) (Outcome inst) c (mishaps tr) := by
  refine h.sound (admits_closed loading_shared (fun _ _ _ _ h => h) id)
    (sound_initial ?_ rfl fun i p hp => ?_)
  · simp [loading]
  · have hdocuments := haccepts p (List.mem_of_getElem? hp)
    cases p with
    | web => exact web_meets hdocuments id
    | worker abiJson sourceId relevance =>
      exact worker_meets (hdocuments abiJson (List.mem_singleton_self _)) sourceId relevance

/-- When everybody is through, the bundled ABIs have been loaded exactly once if every
insert of a start-up still found nothing, and otherwise not. -/
theorem loaded_iff {participants : List Participant} (hweb : .web ∈ participants)
    (haccepts : ∀ p ∈ participants, ∀ j ∈ p.documents inst, pg.acceptsJson j) {w : World pg}
    {tr : List (World pg × ProcessEvent)} {c : ProcessConfig pg}
    (h : (processes inst pg).Run ((processes inst pg).initial w participants) tr c)
    (hfinished : c.finished) :
    Loaded inst c ↔ localSources w ≤ 1 ∧ ∀ x ∈ tr, Fresh participants x.1 x.2 := by
  have hsound := processes_sound haccepts h
  have hinv : localSources c.state ≤ 1 ↔
      localSources w ≤ 1 ∧ ¬mishaps tr .doubled := hsound.inv
  have hthread : ∀ {i : ℕ} {p : Participant}, participants[i]? = some p →
      ∃ th : Thread Command Command.Answer PyError DbSession Participant Unit,
        c.threads[i]? = some th ∧ th.label = p := by
    intro i p hp
    have hspawn : ((processes inst pg).initial w participants).threads[i]? =
        some ((processes inst pg).spawn p) := by simp [initial, hp]
    exact h.label hspawn
  have hfresh : (∀ x ∈ tr, Fresh participants x.1 x.2) ↔
      ¬mishaps tr .doubled ∧ ∀ i, participants[i]? = some .web →
        ¬mishaps tr (.refused i) := by
    simp only [mishaps, observe_note, false_or, fresh_iff, not_exists, not_and]
    exact ⟨fun hx => ⟨fun x hx' => (hx x hx').1,fun i hi x hx' => (hx x hx').2 i hi⟩,
      fun hx x hx' => ⟨hx.1 x hx',fun i hi => hx.2 i hi x hx'⟩⟩
  obtain ⟨k,hk⟩ := List.getElem?_of_mem hweb
  obtain ⟨web,hweb',hlabel⟩ := hthread hk
  rw [hfresh, ← and_assoc, ← hinv]
  constructor
  · intro hloaded
    refine ⟨hloaded.source.le,fun i hi => ?_⟩
    obtain ⟨th,hth,hl⟩ := hthread hi
    have hout := hsound.outcome hth (hloaded.completes th (List.mem_of_getElem? hth))
    rw [hl] at hout
    exact hout.1
  · rintro ⟨hsource,hrefused⟩
    have hcompletes : ∀ th ∈ c.threads, th.prog.outcome? = some (.ok ()) := by
      intro th hmem
      obtain ⟨i,hi⟩ := List.getElem?_of_mem hmem
      have hlt : i < participants.length := hsound.size ▸ (List.getElem?_eq_some_iff.mp hi).1
      obtain ⟨th',hth',hl⟩ := hthread (List.getElem?_eq_getElem hlt)
      obtain rfl : th = th' := Option.some.inj (hi.symm.trans hth')
      obtain ⟨r,hr⟩ := Option.isSome_iff_exists.mp (hfinished th hmem)
      have hout := hsound.outcome hi hr
      rw [hr]
      rw [hl] at hout
      cases hp : participants[i] with
      | worker abiJson sourceId relevance =>
        rw [hp] at hout
        exact congrArg some hout
      | web =>
        rw [hp] at hout
        cases r with
        | ok _ => rfl
        | error e => exact absurd hout (hrefused i ((List.getElem?_eq_getElem hlt).trans (congrArg some hp)))
    have hout := hsound.outcome hweb' (hcompletes web (List.mem_of_getElem? hweb'))
    rw [hlabel] at hout
    obtain ⟨-,hpresent,habis⟩ := hout
    exact ⟨hcompletes,le_antisymm hsource hpresent,fun j hj => countP_of_abiOf (habis j hj)⟩

end Main

section Examples
open Reference

def transferAbi : Json :=
  .arr [.obj [("name",.str "transfer"), ("type",.str "function"), ("inputs",.arr [])]]

theorem accepts_transferAbi : database.acceptsJson transferAbi := by decide +kernel

/-- One document in the first tier and in the last. -/
def bundling : Installation :=
  { installation with safeContractsAbis := [transferAbi], thirdPartiesAbis := [transferAbi] }

theorem bundling_abis {j : Json} (h : j ∈ bundledAbis bundling) : j = transferAbi := by
  simpa [bundledAbis, bundling, installation] using h

def player : (processes bundling database).Player :=
  poolPlayer (Participant.program bundling) unasked fun _ _ _ => trivial

abbrev Performance := Played Command Command.Answer PyError (World database) DbSession Empty Participant Unit

/-- One start-up after the other, then a worker that stores the same document. -/
def participants : List Participant := [.web, .web, .worker transferAbi 1 0]

theorem participants_abis {p : Participant} (hp : p ∈ participants) {j : Json}
    (hj : j ∈ p.documents bundling) : j = transferAbi := by
  cases p with
  | web => exact bundling_abis hj
  | worker abiJson sourceId relevance =>
    simp only [participants, List.mem_cons, reduceCtorEq, Participant.worker.injEq, List.not_mem_nil,
      or_false, false_or] at hp
    rw [List.mem_singleton.mp hj]
    exact hp.1

def oneByOne : Performance :=
  play player ((processes bundling database).initial (World.empty database) participants)
    [.inl 0, .inl 0, .inl 0, .inl 0, .inl 0, .inl 1, .inl 1, .inl 1, .inl 2, .inl 2, .inl 2]

theorem loaded_oneByOne : Loaded bundling oneByOne.2 := by
  have haccepts : ∀ p ∈ participants, ∀ j ∈ p.documents bundling, database.acceptsJson j := by
    intro p hp j hj
    rw [participants_abis hp hj]
    exact accepts_transferAbi
  have hfinished : oneByOne.2.finished := by decide +kernel
  exact (loaded_iff List.mem_cons_self haccepts (play_run player _ _) hfinished).mpr
    ⟨by decide,by decide +kernel⟩

/-- Both start-ups look before either inserts. -/
def together : Performance :=
  play player ((processes bundling database).initial (World.empty database) [.web, .web])
    [.inl 0, .inl 1, .inl 0, .inl 1, .inl 0, .inl 1, .inl 0, .inl 1, .inl 0]

/-- There are two sources, and the second start-up fails. -/
theorem together_notLoaded : ∃ (tr : List (World database × ProcessEvent)) (c : ProcessConfig database),
    (processes bundling database).Run
      ((processes bundling database).initial (World.empty database) [.web, .web]) tr c ∧
      c.finished ∧ ¬Loaded bundling c ∧ localSources c.state = 2 ∧
      ∃ th ∈ c.threads, th.prog.outcome? = some (.error integrityError) := by
  refine ⟨together.1,together.2,play_run player _ _,by decide +kernel,fun h => ?_,by decide +kernel,
    by decide +kernel⟩
  exact absurd h.source (by decide +kernel)

end Examples
end SafeDecoder.StartUp
