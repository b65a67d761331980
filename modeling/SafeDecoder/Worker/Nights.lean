import Mathlib.Algebra.GroupWithZero.Nat
import SafeDecoder.Worker.FetchRetries
import SafeDecoder.Worker.Refusals

/-! # Nightly retries

Every midnight `get_missing_contract_metadata_task` schedules a download for each
contract that has no ABI and has not failed too often. When each answer about a
contract can be counted, a night that schedules it ends above the number it
started from or with an ABI, and that bounds the nights.
-/
namespace SafeDecoder.Nights
open Worker Machine FetchRetries

variable {pg : Postgres} {inst : Installation} {explorers : Explorers}

section Runs

/-- Whatever else a day brings. -/
def arrivals : Job → Prop
  | .getMissingContractMetadata => False
  | _ => True

abbrev system (pg : Postgres) (inst : Installation) (explorers : Explorers) :=
  workers pg inst explorers arrivals

/-- From one midnight to the next. -/
structure Night (pg : Postgres) where
  before : World pg
  trace : WorkersTrace pg
  after : World pg

/-- The task of the night runs, and all that is sent has ended before the next one. -/
def Night.Passes (inst : Installation) (explorers : Explorers) (n : Night pg) : Prop :=
  ∃ c, (system pg inst explorers).Run
      ((system pg inst explorers).initial n.before [.getMissingContractMetadata]) n.trace c ∧
    c.finished ∧ c.state = n.after ∧ n.after.queue = []

inductive Consecutive (inst : Installation) (explorers : Explorers) :
    World pg → List (Night pg) → Prop
  | nil {w} : Consecutive inst explorers w []
  | cons {n nights} (h : n.Passes inst explorers) (rest : Consecutive inst explorers n.after nights) :
      Consecutive inst explorers n.before (n :: nights)

/-- The task of the night selects the contract. -/
def yields (k : ContractKey) : WorkerEvent Move → Bool
  | .own 0 (.selectContractsWithoutAbi _) (.ok rows) => rows.any fun c => c.key = k
  | _ => false

/-- The message for the contract that the task of the night sends. -/
def download (inst : Installation) (k : ContractKey) : WorkerEvent Move → Option Message
  | .own 0 (.send m) (.ok _) => if m.key inst = k then some m else none
  | _ => none

def Night.yields (k : ContractKey) (n : Night pg) : Bool :=
  n.trace.any fun e => Nights.yields k e.2

def Night.downloads (inst : Installation) (k : ContractKey) (n : Night pg) : List Message :=
  n.trace.filterMap fun e => download inst k e.2

/-- An answer about the contract that the attempt can count: no exception but those
that are caught, and nothing to be stored that Postgres refuses. -/
def Countable (pg : Postgres) (known : String → Prop) (k : ContractKey) :
    (c : Command) → Except PyError c.Answer → Prop
  | .fetch client address chainId, r => (address,chainId) = k → match r with
    | .error e => isClientFailure e
    | .ok none => True
    | .ok (some metadata) => known client.value → metadata.abi.truthy → Storable pg metadata
  | _, _ => True

def Knows (w : World pg) (name : String) : Prop := w.db.getAbiSource name ≠ none

def Night.Countable (k : ContractKey) (n : Night pg) : Prop :=
  ∀ w i c r, (w,Event.own i c r) ∈ n.trace → Nights.Countable pg (Knows n.before) k c r

end Runs

section Tally
variable (inst) (k : ContractKey)

/-- Whether the contract was selected, and what was sent for it. -/
structure Tally where
  yielded : Bool
  sent : List Message

def Tally.upd (g : Tally) (_ : World pg) (e : WorkerEvent Move) : Tally :=
  ⟨g.yielded || yields k e,g.sent ++ (download inst k e).toList⟩

def Tally.start : Tally := ⟨false,[]⟩

variable {inst k}

theorem Tally.observe_eq (g : Tally) (tr : WorkersTrace pg) :
    observe (Tally.upd inst k) g tr =
      ⟨g.yielded || tr.any fun e => yields k e.2,
        g.sent ++ tr.filterMap fun e => download inst k e.2⟩ := by
  induction tr generalizing g with
  | nil => simp
  | cons e tr ih =>
    change observe (Tally.upd inst k) (g.upd inst k e.1 e.2) tr = _
    rw [ih, Tally.upd, List.any_cons, List.filterMap_cons, Bool.or_assoc]
    cases download inst k e.2 <;> simp

theorem Tally.upd_own {i : ℕ} (hi : i ≠ 0) (g : Tally) (w : World pg) (c : Command)
    (r : Except PyError c.Answer) : g.upd inst k w (.own i c r) = g := by
  cases i with
  | zero => exact absurd rfl hi
  | succ i => simp [Tally.upd, yields, download]

theorem Tally.upd_env (g : Tally) (w : World pg) (move : Move) : g.upd inst k w (.env move) = g := by
  simp [Tally.upd, yields, download]

end Tally

section Night
variable (inst) (k : ContractKey) (w₀ : World pg)

/-- The night can select the contract. -/
structure Eligible : Prop where
  fits : fitsBigInt k.2
  without : ¬hasAbi (w₀.contract k)
  le : fetchRetries w₀ k ≤ inst.maxDownloadRetries

/-- What the night has done so far for the contract. -/
structure Kept (s : World pg × Tally) : Prop where
  grows : Grows (fetchRetries w₀) w₀ s.1
  eligible : s.2.yielded → Eligible inst k w₀
  sent : ∀ m ∈ s.2.sent, m.key inst = k ∧ m.skipAttemptDownload
  once : s.2.sent.length ≤ s.2.yielded.toNat

/-- Only the task of the night does what is recorded. -/
def recording : Discipline (World pg × Tally) where
  inv := Kept inst k w₀
  rely := fun i s t => i = 0 → t.2 = s.2
  guar := fun i s t => i ≠ 0 → t.2 = s.2
  rely_refl := fun _ _ _ => rfl
  rely_trans := fun _ _ _ _ h h' hi => (h' hi).trans (h hi)

abbrev discipline : Discipline (World pg × Tally) :=
  marks inst (fetchRetries w₀) (recording inst k w₀)

/-- The runs of a night in which every answer about the contract can be counted. -/
abbrev tameSystem (explorers : Explorers) :=
  (system pg inst explorers).restrict fun _ => Countable pg (Knows w₀) k

def tame (explorers : Explorers) : Explorers := fun client address chainId r =>
  explorers client address chainId r ∧
    Countable pg (Knows w₀) k (.fetch client address chainId) r

variable {inst k w₀}

theorem recording_shared : (recording inst k w₀).Shared :=
  fun hij h hj => h fun hi => hij (hi.trans hj.symm)

theorem tame_exec {w w' : World pg} {l l' : DbSession} {c : Command} {r : Except PyError c.Answer}
    (h : (tameSystem inst k w₀ explorers).exec w l c r w' l') :
    Exec (tame k w₀ explorers) w l c r w' l' := by
  obtain ⟨⟨answers,hr,hanswers⟩,hok⟩ := h
  refine ⟨answers,hr,?_⟩
  rintro client address chainId rfl
  cases hr
  exact ⟨hanswers client address chainId rfl,hok⟩

theorem calmFor (h : Eligible inst k w₀) : CalmFor pg (Knows w₀) (tame k w₀ explorers) k where
  fits := h.fits
  caught := fun _ _ he => he.2 rfl
  storable := fun _ _ he => he.2 rfl

theorem Kept.unchanged {s : World pg × Tally} {w' : World pg} (h : Kept inst k w₀ s)
    (hg : Grows (fetchRetries w₀) s.1 w') : Kept inst k w₀ (w',s.2) :=
  ⟨h.grows.trans hg,h.eligible,h.sent,h.once⟩

theorem indifferent {i : ℕ} (hi : i ≠ 0) :
    Indifferent (fetchRetries w₀) (Knows w₀) (recording inst k w₀) i
      ((tameSystem inst k w₀ explorers).recorded (Tally.upd inst k) i) where
  quiet := fun he => he.2.trans (Tally.upd_own hi _ _ _ _)
  kept := fun _ _ hs hg => ⟨hs.unchanged hg,fun _ => rfl⟩
  knows := by
    intro s name hs hname
    rwa [Db.getAbiSource, hs.grows.sources] at hname

theorem regular {i : ℕ} (hi : i ≠ 0) :
    Regular (tame k w₀ explorers) (discipline inst k w₀) i
      ((tameSystem inst k w₀ explorers).recorded (Tally.upd inst k) i) :=
  recorded_regular tame_exec (fun g w c r _ => g.upd_own hi w c r)
    fun s => ⟨Grows.refl s.1,fun _ => rfl⟩

/-- The contract has been sent once if it was selected. -/
def SentOnce (s : World pg × Tally) : Prop := s.2.sent.length = s.2.yielded.toNat

theorem sendDownloads_meets (rows : List ContractRow) {s : World pg × Tally}
    (hs : s.2.sent.length + (rows.countP fun c => c.key = k) = s.2.yielded.toNat) :
    Meets (discipline inst k w₀) 0
      ((tameSystem inst k w₀ explorers).recorded (Tally.upd inst k) 0)
      (fun _ s _ => SentOnce s) (sendDownloads rows) s active := by
  induction rows generalizing s with
  | nil =>
    apply Meets.ret
    intro t ht _
    rw [SentOnce, ht.2 rfl]
    simpa using hs
  | cons c rest ih =>
    apply Meets.call
    intro t ht hi r t' l' he
    obtain ⟨w',g'⟩ := t'
    obtain ⟨⟨⟨answers,hr,_⟩,_⟩,hg⟩ := he
    cases hr
    have hsent := ht.2 rfl
    have hkey : (Message.mk (to0xHexStr c.address) c.chainId true).key inst = c.key := by
      rw [Message.key, inst.addresses.toBytes_to0xHexStr, ContractRow.key]
    have hg' : g' = ⟨t.2.yielded,t.2.sent ++ if c.key = k then
        [⟨to0xHexStr c.address,c.chainId,true⟩] else []⟩ := by
      apply hg.trans
      simp only [Tally.upd, yields, download, hkey, Bool.or_false]
      split <;> rfl
    subst hg'
    rw [← hsent, List.countP_cons] at hs
    obtain ⟨hfloored,hgrows⟩ := hi.1.of_queue (t.1.queue ++ [⟨to0xHexStr c.address,c.chainId,true⟩])
    have hkept := hi.2.unchanged hgrows
    have hstep : t.2.sent.length + (if c.key = k then 1 else 0) +
        (rest.countP fun c => c.key = k) = t.2.yielded.toNat := by
      simp only [decide_eq_true_eq] at hs
      omega
    have hlen : (t.2.sent ++ if c.key = k then
        [Message.mk (to0xHexStr c.address) c.chainId true] else []).length =
        t.2.sent.length + if c.key = k then 1 else 0 := by
      split <;> simp
    refine ⟨⟨⟨hfloored,hkept.grows,hkept.eligible,?_,?_⟩,hgrows,fun h => absurd rfl h⟩,ih ?_⟩
    · intro m hm
      rcases List.mem_append.mp hm with hm | hm
      · exact hi.2.sent m hm
      · split at hm
        · rename_i hc
          rw [List.mem_singleton.mp hm]
          exact ⟨hkey.trans hc,rfl⟩
        · cases hm
    · change List.length _ ≤ t.2.yielded.toNat
      rw [hlen]
      omega
    · rw [hlen]
      exact hstep

/-- A row that the night selects was there to be selected at midnight. -/
theorem eligible_of_row {s : World pg × Tally} (hf : Floored inst (fetchRetries w₀) s.1)
    (hs : Kept inst k w₀ s) {c : ContractRow} (hc : c ∈ s.1.db.contracts) (hkey : c.key = k)
    (habi : c.abiId = none) (hle : c.fetchRetries ≤ inst.maxDownloadRetries) :
    Eligible inst k w₀ := by
  have hrow := contract_of_mem s.1 hc
  rw [hkey] at hrow
  refine ⟨?_,fun h => ?_,(hf.le k c hrow).trans hle⟩
  · rw [← hkey]
    exact s.1.chainIdsFit c hc
  · have hstored := hs.grows.stored k h
    rw [hrow] at hstored
    simp [hasAbi, habi] at hstored

theorem countP_key_le (w : World pg) (p : ContractRow → Bool) :
    ((w.db.contracts.filter p).countP fun c => c.key = k) =
      ((w.db.contracts.filter p).any fun c => c.key = k).toNat := by
  have hnodup : ((w.db.contracts.filter p).map ContractRow.key).Nodup :=
    w.db.contractKeys.sublist (List.filter_sublist.map _)
  have hcount : ((w.db.contracts.filter p).countP fun c => c.key = k) =
      ((w.db.contracts.filter p).map ContractRow.key).count k := by
    rw [List.count, List.countP_map]
    exact List.countP_congr fun c _ => by simp
  rw [hcount]
  cases hany : (w.db.contracts.filter p).any fun c => c.key = k with
  | true =>
    obtain ⟨c,hc,hkey⟩ := List.any_eq_true.mp hany
    have hmem := List.mem_map_of_mem (f := ContractRow.key) hc
    rw [of_decide_eq_true hkey] at hmem
    exact List.count_eq_one_of_mem hnodup hmem
  | false =>
    apply List.count_eq_zero.mpr
    intro hmem
    obtain ⟨c,hc,hkey⟩ := List.mem_map.mp hmem
    have hno := List.any_eq_false.mp hany c hc
    exact hno (decide_eq_true hkey)

/-- The task of the night sends each contract that it selects, once. -/
theorem getMissing_meets {s : World pg × Tally} (hs : s.2 = Tally.start) :
    Meets (discipline inst k w₀) 0
      ((tameSystem inst k w₀ explorers).recorded (Tally.upd inst k) 0)
      (fun _ s _ => SentOnce s) (getMissingContractMetadataTask inst) s active := by
  apply Meets.call
  intro t ht hi r t' l' he
  obtain ⟨w',g'⟩ := t'
  obtain ⟨⟨⟨answers,hr,_⟩,_⟩,hg⟩ := he
  cases hr
  have hstart := (ht.2 rfl).trans hs
  have hg' : g' = ⟨(t.1.db.contracts.filter fun c =>
      c.abiId = none && c.fetchRetries ≤ inst.maxDownloadRetries).any fun c => c.key = k,[]⟩ := by
    apply hg.trans
    rw [hstart]
    rfl
  subst hg'
  refine ⟨⟨⟨hi.1,hi.2.grows,fun hy => ?_,(fun _ h => nomatch h),Nat.zero_le _⟩,Grows.refl t.1,
    fun h => absurd rfl h⟩,sendDownloads_meets _ ?_⟩
  · obtain ⟨c,hc,hkey⟩ := List.any_eq_true.mp hy
    obtain ⟨hmem,hopen⟩ := List.mem_filter.mp hc
    simp only [Bool.and_eq_true, decide_eq_true_eq] at hopen
    exact eligible_of_row hi.1 hi.2 hmem (of_decide_eq_true hkey) hopen.1 hopen.2
  · rw [countP_key_le]
    exact Nat.zero_add _

def Outcome (inst : Installation) (k : ContractKey) (w₀ : World pg) (explorers : Explorers) (i : ℕ)
    (job : Job) (r : Except PyError Unit) (s : World pg × Tally) : Prop :=
  (i = 0 → SentOnce s) ∧
    JobOutcome inst (fetchRetries w₀) (Knows w₀) (tame k w₀ explorers) job r s

theorem admits : (tameSystem inst k w₀ explorers).Admits (Tally.upd inst k) (discipline inst k w₀)
    (fun _ n => 1 ≤ n) fun i job r s _ => Outcome inst k w₀ explorers i job r s where
  shared := marks_shared recording_shared
  own := id
  move := by
    intro move w w' jobs g hm hs
    obtain ⟨hfloored,hgrows⟩ := Refusals.move_grows hm hs.1
    rw [Tally.upd_env]
    exact ⟨⟨hfloored,hs.2.unchanged hgrows⟩,fun _ => ⟨hgrows,fun _ => rfl⟩⟩
  grows := fun _ hn => Nat.le_add_right_of_le hn
  starts := by
    intro move w w' jobs job g n j _ hn _ _ _
    have hne : n + j ≠ 0 := by omega
    exact ((indifferent hne).job_meets (regular hne) job _).mono
      fun _ _ _ _ h => ⟨fun h0 => absurd h0 hne,h⟩

end Night

section Bound
variable {k : ContractKey} {n : Night pg}

/-- What one night comes to for one contract. -/
structure NightOutcome (inst : Installation) (k : ContractKey) (n : Night pg) : Prop where
  justified : Refusals.Justified inst n.after
  once : (n.downloads inst k).length = (n.yields k).toNat
  eligible : n.yields k → Eligible inst k n.before
  counted : n.yields k → hasAbi (n.after.contract k) ∨
    fetchRetries n.before k < fetchRetries n.after k
  stored : hasAbi (n.before.contract k) → hasAbi (n.after.contract k)
  le : fetchRetries n.before k ≤ fetchRetries n.after k

theorem floored_start {w : World pg} (hw : Refusals.Justified inst w) :
    Floored inst (fetchRetries w) w where
  le := fun k c hc => by rw [fetchRetries, hc]; rfl
  absent := fun k hk => by rw [fetchRetries, hk]; rfl
  refusals := (Refusals.floored_iff.mpr hw).refusals

theorem counted_of_refused {contract : Option ContractRow} {v : ℕ} (h : refusedBy contract v) :
    hasAbi contract ∨ v < contract.elim 0 ContractRow.fetchRetries := by
  cases contract with
  | none => exact absurd h (refusedBy_none v)
  | some c => exact ((refusedBy_some c v).mp h).symm

/-- Everybody has kept to the discipline until the next midnight. -/
theorem Night.sound (hw : Refusals.Justified inst n.before) (hcountable : n.Countable k)
    {c : WorkersConfig pg} (hrun : (system pg inst explorers).Run
      ((system pg inst explorers).initial n.before [.getMissingContractMetadata]) n.trace c) :
    (tameSystem inst k n.before explorers).Sound (Tally.upd inst k) (discipline inst k n.before)
      (fun _ n => 1 ≤ n) (fun i job r s _ => Outcome inst k n.before explorers i job r s) c
      ⟨n.yields k,n.downloads inst k⟩ := by
  have hrestricted : (tameSystem inst k n.before explorers).Run
      ((tameSystem inst k n.before explorers).initial n.before [.getMissingContractMetadata])
      n.trace c := hrun.restrict hcountable
  have hkept : Kept inst k n.before (n.before,Tally.start) :=
    ⟨Grows.refl _,(fun h => nomatch h),(fun _ h => nomatch h),le_rfl⟩
  have hobserved : observe (Tally.upd inst k) Tally.start n.trace =
      ⟨n.yields k,n.downloads inst k⟩ := by
    rw [Tally.observe_eq, Tally.start, Bool.false_or, List.nil_append]
    rfl
  rw [← hobserved]
  refine hrestricted.sound admits (sound_initial ⟨floored_start hw,hkept⟩ le_rfl fun i job hi => ?_)
  cases i with
  | zero =>
    cases hi
    exact (getMissing_meets rfl).mono fun _ _ _ _ h => ⟨fun _ => h,trivial⟩
  | succ i => simp at hi

/-- A download that the night sent has its task, and the task has been through. -/
theorem Night.refused (h : n.Passes inst explorers) (hw : Refusals.Justified inst n.before)
    (hcountable : n.Countable k) {m : Message} (hm : m ∈ n.downloads inst k) :
    refusedBy (n.after.contract k) (fetchRetries n.before k) := by
  obtain ⟨c,hrun,hfinished,hafter,hqueue⟩ := h
  have hsound := Night.sound hw hcountable hrun
  rw [← hafter] at hqueue ⊢
  obtain ⟨hkey,hskip⟩ := hsound.inv.2.sent m hm
  obtain ⟨⟨w,e⟩,hmem,hsend⟩ := List.mem_filterMap.mp hm
  have hpending : Pending m c := by
    change download inst k e = some m at hsend
    unfold download at hsend
    split at hsend
    · split at hsend
      · cases hsend
        exact run_pending hrun hmem
      · cases hsend
    · cases hsend
  rcases hpending with hwaits | ⟨i,th,hi,hlabel⟩
  · rw [hqueue] at hwaits
    cases hwaits
  · obtain ⟨r,hr⟩ := Option.isSome_iff_exists.mp (hfinished th (List.mem_of_getElem? hi))
    have hend := (hsound.outcome hi hr).2
    rw [hlabel] at hend
    have heligible : Eligible inst k n.before := by
      apply hsound.inv.2.eligible
      have honce := hsound.inv.2.once
      have hpos := List.length_pos_of_mem hm
      cases hy : n.yields k with
      | true => rfl
      | false =>
        simp only [hy, Bool.toNat_false] at honce
        omega
    cases r with
    | error err =>
      rw [← hkey] at heligible
      exact absurd (calmFor heligible) (hkey ▸ hend)
    | ok a =>
      simp only [JobOutcome, TaskOutcome, hskip, if_true, hkey] at hend
      exact hend

theorem Night.outcome (h : n.Passes inst explorers) (hw : Refusals.Justified inst n.before)
    (hcountable : n.Countable k) : NightOutcome inst k n := by
  have hcounted : n.downloads inst k ≠ [] → refusedBy (n.after.contract k) (fetchRetries n.before k) := by
    intro hne
    obtain ⟨m,hm⟩ := List.exists_mem_of_ne_nil _ hne
    exact Night.refused h hw hcountable hm
  obtain ⟨c,hrun,hfinished,hafter,_⟩ := h
  have hsound := Night.sound hw hcountable hrun
  have hinv := hsound.inv
  rw [hafter] at hinv
  have hfirst : ((system pg inst explorers).initial n.before [.getMissingContractMetadata]).threads[0]? =
      some ((system pg inst explorers).spawn .getMissingContractMetadata) := rfl
  obtain ⟨th,hth,_⟩ := hrun.label hfirst
  obtain ⟨r,hr⟩ := Option.isSome_iff_exists.mp (hfinished th (List.mem_of_getElem? hth))
  have honce := (hsound.outcome hth hr).1 rfl
  have hfloored := hinv.1
  refine ⟨Refusals.floored_iff.mp ⟨fun _ _ _ => Nat.zero_le _,fun _ _ => rfl,hfloored.refusals⟩,honce,
    hinv.2.eligible,fun hy => ?_,hinv.2.grows.stored k,?_⟩
  · refine counted_of_refused (hcounted fun hnil => ?_)
    rw [SentOnce, hnil, hy] at honce
    cases honce
  · cases hc : n.after.contract k with
    | none =>
      rw [hfloored.absent k hc]
      exact Nat.zero_le _
    | some row =>
      have hle := hfloored.le k row hc
      rwa [show fetchRetries n.after k = row.fetchRetries by rw [fetchRetries, hc]; rfl]

/-- How often the nights send a download for the contract. -/
def attempts (inst : Installation) (k : ContractKey) (nights : List (Night pg)) : ℕ :=
  (nights.map fun n => (n.downloads inst k).length).sum

/-- A contract without an ABI can be attempted until its number has passed the limit. -/
theorem Consecutive.spent {w : World pg} {nights : List (Night pg)}
    (h : Consecutive inst explorers w nights) (hw : Refusals.Justified inst w)
    (hcountable : ∀ n ∈ nights, n.Countable k) :
    attempts inst k nights = 0 ∨ ¬hasAbi (w.contract k) ∧
      attempts inst k nights + fetchRetries w k ≤ inst.maxDownloadRetries + 1 := by
  induction h with
  | nil => exact .inl rfl
  | @cons n nights hn _ ih =>
    obtain ⟨hfirst,hlater⟩ := List.forall_mem_cons.mp hcountable
    have hnight := Night.outcome hn hw hfirst
    have hrest := ih hnight.justified hlater
    have hsum : attempts inst k (n :: nights) = (n.yields k).toNat + attempts inst k nights := by
      rw [attempts, List.map_cons, List.sum_cons, hnight.once]
      rfl
    have hle := hnight.le
    cases hy : n.yields k with
    | false =>
      rw [hsum, hy, Bool.toNat_false, Nat.zero_add]
      refine hrest.imp_right fun hrest => ⟨fun habi => hrest.1 (hnight.stored habi),?_⟩
      omega
    | true =>
      have heligible := hnight.eligible hy
      have hmax := heligible.le
      refine .inr ⟨heligible.without,?_⟩
      rw [hsum, hy, Bool.toNat_true]
      rcases hrest with hzero | ⟨hwithout,hrest⟩
      · omega
      · have hcounted := (hnight.counted hy).resolve_left hwithout
        omega

theorem Consecutive.before {w : World pg} {earlier later : List (Night pg)}
    (h : Consecutive inst explorers w (earlier ++ later)) : Consecutive inst explorers w earlier := by
  induction earlier generalizing w with
  | nil => exact .nil
  | cons n earlier ih =>
    cases h with
    | cons hn hrest => exact .cons hn (ih hrest)

theorem Consecutive.outcome {w : World pg} {nights : List (Night pg)}
    (h : Consecutive inst explorers w nights) (hw : Refusals.Justified inst w)
    (hcountable : ∀ n ∈ nights, n.Countable k) : ∀ n ∈ nights, NightOutcome inst k n := by
  induction h with
  | nil => exact fun _ h => nomatch h
  | @cons n nights hn _ ih =>
    obtain ⟨hfirst,hlater⟩ := List.forall_mem_cons.mp hcountable
    have hnight := Night.outcome hn hw hfirst
    exact List.forall_mem_cons.mpr ⟨hnight,ih hnight.justified hlater⟩

/-- The nights attempt the contract at most once more often than the limit says,
select it no more afterwards, and each attempt stores an ABI or is counted. -/
def Bounded (inst : Installation) (k : ContractKey) (nights : List (Night pg)) : Prop :=
  attempts inst k nights ≤ inst.maxDownloadRetries + 1 ∧
  (∀ earlier n later, nights = earlier ++ n :: later →
    attempts inst k earlier = inst.maxDownloadRetries + 1 → n.yields k = false) ∧
  ∀ n ∈ nights, (n.downloads inst k).length = (n.yields k).toNat ∧
    (n.yields k → hasAbi (n.after.contract k) ∨
      fetchRetries n.before k < fetchRetries n.after k)

end Bound

section Examples
open Reference

/-- A contract that was never tried. -/
def untried : ContractRow := ⟨1,[1],none,none,none,false,none,0,none,none,1⟩

def start : World database := worldWith untried rfl

def retry : Message := ⟨to0xHexStr [1],1,true⟩

/-- The client answers with a `ValueError` of its own. -/
def valueError : PyError := .other "ValueError"

def broken : Explorers := fun _ _ _ r => r = .error valueError

/-- The download raises, and nothing is counted. -/
def brokenNight : Night database where
  before := start
  trace := [(start,.own 0 (.selectContractsWithoutAbi 90) (.ok [untried])),
    (start,.own 0 (.send retry) (.ok ())),
    (start.send retry,.env (.deliver retry)),
    ((start.send retry).take retry,.own 1
      (.fetch .etherscan (addresses.toBytes (to0xHexStr [1])) 1) (.error valueError))]
  after := start

theorem take_send (m : Message) : (start.send m).take m = start := by
  have hqueue : ([] ++ [m]).erase m = ([] : List Message) := by simp
  exact congrArg (fun queue => { start with queue := queue }) hqueue

/-- The steps of that night, one configuration after the other. -/
def asked : WorkersConfig database :=
  ⟨start,[⟨.getMissingContractMetadata,active,sendDownloads [untried]⟩]⟩

def sent : WorkersConfig database :=
  ⟨start.send retry,[⟨.getMissingContractMetadata,active,.ret ()⟩]⟩

def delivered : WorkersConfig database :=
  ⟨(start.send retry).take retry,[⟨.getMissingContractMetadata,active,.ret ()⟩,
    ⟨.getContractMetadata retry,active,getContractMetadataTask installation retry⟩]⟩

def raised : WorkersConfig database :=
  ⟨(start.send retry).take retry,[⟨.getMissingContractMetadata,active,.ret ()⟩,
    ⟨.getContractMetadata retry,active,.raise valueError⟩]⟩

theorem brokenNight_passes : brokenNight.Passes installation broken := by
  refine ⟨raised,?_,fun th hth => ?_,take_send retry,rfl⟩
  · have hasked : (system database installation broken).Step
        ((system database installation broken).initial start [.getMissingContractMetadata])
        (.own 0 (.selectContractsWithoutAbi 90) (.ok [untried])) asked := by
      refine Step.own (c := (system database installation broken).initial start
        [.getMissingContractMetadata]) (i := 0) rfl ?_
      exact ⟨unasked,rfl,fun _ _ _ h => nomatch h⟩
    have hsent : (system database installation broken).Step asked (.own 0 (.send retry) (.ok ()))
        sent := by
      apply Step.own (c := asked) (i := 0) rfl
      exact ⟨unasked,rfl,fun _ _ _ h => nomatch h⟩
    have hdelivered : (system database installation broken).Step sent (.env (.deliver retry))
        delivered := by
      have hmove : (system database installation broken).move (.deliver retry) sent.state
          delivered.state [.getContractMetadata retry] :=
        Moves.deliver (List.mem_singleton_self retry)
      exact Step.env hmove
    have hraised : (system database installation broken).Step delivered
        (.own 1 (.fetch .etherscan (addresses.toBytes (to0xHexStr [1])) 1) (.error valueError))
        raised := by
      apply Step.own (c := delivered) (i := 1) rfl
      exact ⟨fun _ _ _ => .error valueError,rfl,fun _ _ _ _ => rfl⟩
    exact (((Run.step .refl hasked).step hsent).step hdelivered).step hraised
  · rcases List.mem_pair.mp hth with rfl | rfl <;> rfl

theorem brokenNight_downloads : brokenNight.downloads installation ([1],1) = [retry] := by
  have hkey : retry.key installation = ([1],1) :=
    Prod.ext (addresses.toBytes_to0xHexStr [1]) rfl
  simp [Night.downloads, brokenNight, download, hkey]

theorem broken_consecutive (n : ℕ) :
    Consecutive installation broken start (List.replicate n brokenNight) := by
  induction n with
  | zero => exact .nil
  | succ n ih => exact .cons brokenNight_passes ih

/-- No client has anything, and each failure of one is caught. -/
def nothingFound : WorkerEvent Move → Bool
  | .own _ (.fetch _ _ _) (.ok found) => found.isNone
  | .own _ (.fetch _ _ _) (.error e) => isClientFailure e
  | _ => true

theorem countable_of_nothingFound {k : ContractKey} {n : Night database}
    (h : ∀ e ∈ n.trace, nothingFound e.2) : n.Countable k := by
  intro w i c r he
  have hnothing := h _ he
  cases c with
  | fetch client address chainId =>
    intro _
    cases r with
    | error e => exact hnothing
    | ok found =>
      cases found with
      | none => trivial
      | some metadata => cases hnothing
  | _ => trivial

/-- A contract may fail twice. -/
def impatient : Installation := { installation with maxDownloadRetries := 1 }

def player (answer : Except PyError (Option ContractMetadata)) :
    (system database impatient fun _ _ _ _ => True).Player :=
  workersPlayer (fun _ _ _ => answer) fun _ _ _ => trivial

/-- The client says the same to all who ask in a night. -/
def performed (answer : Except PyError (Option ContractMetadata)) (w : World database) :
    Played Command Command.Answer PyError (World database) DbSession Move Job Unit :=
  play (player answer)
    ((system database impatient fun _ _ _ _ => True).initial w [.getMissingContractMetadata])
    [.inl 0, .inl 0, .inr (.deliver retry), .inl 1, .inl 1, .inl 1, .inl 1, .inl 1]

def nightOf (answer : Except PyError (Option ContractMetadata)) (w : World database) : Night database :=
  ⟨w,(performed answer w).1,(performed answer w).2.state⟩

theorem nightOf_passes {answer : Except PyError (Option ContractMetadata)} {w : World database}
    (hfinished : (performed answer w).2.finished) (hqueue : (nightOf answer w).after.queue = []) :
    (nightOf answer w).Passes impatient fun _ _ _ _ => True := by
  have hrun : (system database impatient fun _ _ _ _ => True).Run
      ((system database impatient fun _ _ _ _ => True).initial w [.getMissingContractMetadata])
      (performed answer w).1 (performed answer w).2 := by
    unfold performed
    exact play_run (player answer) _ _
  exact ⟨(performed answer w).2,hrun,hfinished,by rw [nightOf],hqueue⟩

/-- The client knows no such contract, it cannot be reached, and the third night leaves the
contract alone. -/
def night₁ : Night database := nightOf (.ok none) start
def night₂ : Night database := nightOf (.error .timeoutError) night₁.after
def night₃ : Night database := nightOf (.ok none) night₂.after

end Examples
end SafeDecoder.Nights
