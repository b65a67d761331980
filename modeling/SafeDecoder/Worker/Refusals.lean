import SafeDecoder.Worker.Downloads

/-! # A cached refusal is never wrong

`should_attempt_download` caches that a contract need not be tried and nobody
ever removes the entry. In every run of the workers the row still says the same,
whatever updates were lost and whatever keys expired.
-/
namespace SafeDecoder.Refusals
open Worker Machine

variable {pg : Postgres} {inst : Installation} {explorers : Explorers}

/-- The row of the contract has counted a failed attempt or has an ABI. -/
def Tried (w : World pg) (k : ContractKey) : Prop :=
  ∃ c, w.contract k = some c ∧ (0 < c.fetchRetries ∨ c.abiId.isSome)

theorem tried_iff {w : World pg} {k : ContractKey} : Tried w k ↔ refusedBy (w.contract k) 0 := by
  unfold Tried
  cases w.contract k with
  | none => simp
  | some c => simp

/-- Every refusal for the first attempt is a refusal, and the row bears it out. -/
def Justified (inst : Installation) (w : World pg) : Prop :=
  ∀ address chainId v, w.redis (.shouldAttemptDownload address chainId 0) = some v →
    v = 0 ∧ Tried w (inst.addresses.toBytes address,chainId)

/-- All tasks, with any further tasks arriving at any time. -/
abbrev system (pg : Postgres) (inst : Installation) (explorers : Explorers) :=
  workers pg inst explorers fun _ => True

section Invariant

theorem floored_iff {w : World pg} : Floored inst (fun _ => 0) w ↔ Justified inst w := by
  constructor
  · intro h address chainId v hv
    obtain ⟨hzero,hr⟩ := h.refusals address chainId v hv
    exact ⟨hzero,tried_iff.mpr hr⟩
  · intro h
    refine ⟨fun _ _ _ => Nat.zero_le _,fun _ _ => rfl,fun address chainId v hv => ?_⟩
    obtain ⟨hzero,hr⟩ := h address chainId v hv
    exact ⟨hzero,tried_iff.mp hr⟩

abbrev discipline (pg : Postgres) (inst : Installation) : Discipline (World pg × Unit) :=
  marks inst (fun _ => 0) .free

theorem regular (i : ℕ) : Regular explorers (discipline pg inst) i
    ((system pg inst explorers).recorded (fun _ _ _ => ()) i) :=
  recorded_regular id (fun _ _ _ _ _ => rfl) fun s => ⟨Grows.refl s.1,trivial⟩

theorem indifferent (i : ℕ) : Indifferent (fun _ => 0) (fun _ => True) .free i
    ((system pg inst explorers).recorded (fun _ _ _ => ()) i) where
  quiet := fun _ => rfl
  kept := fun _ _ _ _ => ⟨trivial,trivial⟩
  knows := fun _ _ _ _ => trivial

/-- Every task keeps the refusals justified. -/
theorem job_meets (i : ℕ) (job : Job) (s : World pg × Unit) :
    Meets (discipline pg inst) i ((system pg inst explorers).recorded (fun _ _ _ => ()) i)
      (fun _ _ _ => True) (job.program inst) s active :=
  ((indifferent i).job_meets (regular i) job s).mono fun _ _ _ _ _ => trivial

/-- Neither an expiry nor a delivery takes anything back. -/
theorem move_grows {floor : ContractKey → ℕ} {arrivals : Job → Prop} {move : Move} {w w' : World pg}
    {jobs : List Job} (h : Moves arrivals move w w' jobs) (hw : Floored inst floor w) :
    Floored inst floor w' ∧ Grows floor w w' := by
  cases h with
  | expire key => exact hw.setRedis _ _ fun _ _ _ => .inl rfl
  | deliver h =>
    exact hw.of_queue _
  | start => exact ⟨hw,Grows.refl w⟩

theorem admits : (system pg inst explorers).Admits (fun _ _ _ => ()) (discipline pg inst)
    (fun _ _ => True) fun _ _ _ _ _ => True where
  shared := marks_shared Discipline.free_shared
  own := fun _ => trivial
  move := fun hm hs => by
    obtain ⟨hfloored,hgrows⟩ := move_grows hm hs.1
    exact ⟨⟨hfloored,trivial⟩,fun _ => ⟨hgrows,trivial⟩⟩
  grows := fun _ _ => trivial
  starts := fun _ _ _ _ _ => job_meets _ _ _

theorem run_justified {w : World pg} {jobs : List Job} {tr : WorkersTrace pg} {c : WorkersConfig pg}
    (hw : Justified inst w)
    (hrun : (system pg inst explorers).Run ((system pg inst explorers).initial w jobs) tr c) :
    Justified inst c.state := by
  have hstart : (system pg inst explorers).Sound (fun _ _ _ => ()) (discipline pg inst)
      (fun _ _ => True) (fun _ _ _ _ _ => True) ((system pg inst explorers).initial w jobs) () :=
    sound_initial ⟨floored_iff.mpr hw,trivial⟩ trivial fun i job _ => job_meets i job _
  exact floored_iff.mp (hrun.sound admits hstart).inv.1

end Invariant

section Answers

/-- The call, without interruption, from this state can return `b`. -/
def Returns (inst : Installation) (explorers : Explorers) (w : World pg) (address : String)
    (chainId : Int) (b : Bool) : Prop :=
  (system pg inst explorers).EndsAs (shouldAttemptDownload inst address chainId 0) w active (.ret b)

def withEmptyCache (w : World pg) : World pg := { w with redis := fun _ => none }

/-- What the call returns from a state, read off its commands. -/
theorem returns_iff {w : World pg} {address : String} {chainId : Int} {b : Bool} :
    Returns inst explorers w address chainId b ↔
      match w.redis (.shouldAttemptDownload address chainId 0) with
      | some v => b = decide (v ≠ 0)
      | none => fitsBigInt chainId ∧
        b = !refusedBy (w.contract (inst.addresses.toBytes address,chainId)) 0 := by
  have hret : ∀ {w : World pg} {l : DbSession} {b' : Bool},
      (system pg inst explorers).EndsAs (.ret b') w l (.ret b) ↔ b = b' := fun {w l b'} => by
    rw [endsAs_outcome (r := .ok b') rfl, Proc.ret.injEq]
  unfold Returns
  rw [← Proc.bind_ret (shouldAttemptDownload inst address chainId 0), shouldAttemptDownload_bind,
    endsAs_command rfl (by simp) (r := .ok b) rfl]
  simp only [respond]
  cases hcached : w.redis (.shouldAttemptDownload address chainId 0) with
  | some v => exact hret
  | none =>
    dsimp only
    rw [endsAs_command rfl (by simp) (r := .ok b) rfl]
    by_cases hfits : fitsBigInt chainId
    · simp only [respond, active, hfits, Bool.false_eq_true, if_false, if_true, true_and]
      by_cases href : refusedBy (w.contract (inst.addresses.toBytes address,chainId)) 0
      · simp only [href, if_true]
        rw [endsAs_command rfl (by simp) (r := .ok b) rfl]
        exact hret
      · simp only [href, Bool.not_false]
        exact hret
    · simp only [respond, active, hfits, Bool.false_eq_true, if_false, false_and, iff_false]
      rw [endsAs_outcome (r := .error .dbApiError) rfl]
      simp

/-- A row that is refused is in the table, so its chain is one the table can hold. -/
theorem fits_of_tried {w : World pg} {k : ContractKey} (h : Tried w k) : fitsBigInt k.2 := by
  obtain ⟨c,hc,_⟩ := h
  have hchain : c.chainId = k.2 := congrArg Prod.snd (contract_key w hc)
  rw [← hchain]
  exact w.chainIdsFit c (mem_of_contract w hc)

/-- A justified cache answers what the row answers. -/
theorem returns_withEmptyCache {w : World pg} (hw : Justified inst w) (address : String)
    (chainId : Int) (b : Bool) :
    Returns inst explorers w address chainId b ↔
      Returns inst explorers (withEmptyCache w) address chainId b := by
  rw [returns_iff, returns_iff]
  cases hcached : w.redis (.shouldAttemptDownload address chainId 0) with
  | none => rfl
  | some v =>
    obtain ⟨rfl,htried⟩ := hw address chainId v hcached
    have href : refusedBy ((withEmptyCache w).contract (inst.addresses.toBytes address,chainId)) 0 :=
      tried_iff.mp htried
    have hfits := fits_of_tried htried
    change b = decide ((0 : ℕ) ≠ 0) ↔ fitsBigInt chainId ∧ b = !refusedBy _ 0
    rw [href]
    simp [hfits]

/-- In every run of the workers a refusal in Redis is borne out by the row, so
the cache never changes what `should_attempt_download` returns. -/
theorem run_refusals {w : World pg} (hw : Justified inst w) {jobs : List Job} {tr : WorkersTrace pg}
    {c : WorkersConfig pg}
    (hrun : (system pg inst explorers).Run ((system pg inst explorers).initial w jobs) tr c) :
    Justified inst c.state ∧ ∀ address chainId b,
      Returns inst explorers c.state address chainId b ↔
        Returns inst explorers (withEmptyCache c.state) address chainId b := by
  have hend := run_justified hw hrun
  exact ⟨hend,returns_withEmptyCache hend⟩

end Answers

section Examples
open Reference

def player : (system database installation fun _ _ _ _ => True).Player :=
  workersPlayer (fun _ _ _ => .ok none) fun _ _ _ => trivial

def message : Message := { address := to0xHexStr [1], chainId := 1 }

/-- Two downloads fail side by side, and one of them overwrites what the other has counted. The
third task is refused. -/
def threeTasks : Played Command Command.Answer PyError (World database) DbSession Move Job Unit :=
  play player ((system database installation fun _ _ _ _ => True).initial (World.empty database)
      (List.replicate 3 (.getContractMetadata message)))
    [.inl 0, .inl 0, .inl 1, .inl 1, .inl 0, .inl 0, .inl 1, .inl 1, .inl 1, .inl 1, .inl 0, .inl 1,
      .inl 2, .inl 2, .inl 2]

/-- The refusal that the third task has left is borne out by the row. -/
theorem run_refusals_threeTasks :
    threeTasks.2.state.redis (.shouldAttemptDownload (to0xHexStr [1]) 1 0) = some 0 ∧
      Justified installation threeTasks.2.state ∧ ∀ address chainId b,
        Returns installation (fun _ _ _ _ => True) threeTasks.2.state address chainId b ↔
          Returns installation (fun _ _ _ _ => True) (withEmptyCache threeTasks.2.state) address
            chainId b := by
  have hempty : Justified installation (World.empty database) := fun _ _ _ h => nomatch h
  exact ⟨by decide +kernel,run_refusals hempty (play_run player _ _)⟩

end Examples
end SafeDecoder.Refusals
