import SafeDecoder.Worker.System

/-! # Counting failed downloads

`process_contract_metadata` loads `fetch_retries`, adds one in Python and writes
the sum in a later transaction. Concurrent calls for one contract count every
failed attempt exactly when each of them still finds, as it writes, the number
that it had loaded.
-/
namespace SafeDecoder.FetchRetries
open Worker Machine

variable {pg : Postgres}

/-- A row that is going to be inserted starts at zero. -/
def fetchRetries (w : World pg) (k : ContractKey) : ℕ :=
  (w.contract k).elim 0 ContractRow.fetchRetries

/-- Concurrent calls of `process_contract_metadata`, each with its own session. -/
abbrev calls (pg : Postgres) :
    Machine Command Command.Answer PyError (World pg) DbSession Empty EnhancedContractMetadata Bool :=
  pool pg (fun _ _ _ _ => True) Worker.processContractMetadata

abbrev Trace (pg : Postgres) := List (World pg × WorkerEvent Empty)

abbrev CallsConfig (pg : Postgres) :=
  Config Command Command.Answer PyError (World pg) DbSession EnhancedContractMetadata Bool

/-- When an attempt is written, the row still has the number that the call had loaded. -/
def FindsLoaded (k : ContractKey) (w : World pg) : WorkerEvent Empty → Prop
  | .own _ (.updateContract key changes) (.ok _) =>
    key = k → ∀ v, changes.fetchRetries = some v → v = fetchRetries w k + 1
  | _ => True

/-- The counter before each step and at the end. -/
def seen (k : ContractKey) (tr : Trace pg) (w : World pg) : List ℕ :=
  (tr.map fun e => fetchRetries e.1 k) ++ [fetchRetries w k]

def NeverDecreases (k : ContractKey) (tr : Trace pg) (w : World pg) : Prop :=
  (seen k tr w).Pairwise (· ≤ ·)

section Tally

/-- Who has written the counter, and whether every write found what was loaded. -/
structure Tally where
  writers : List ℕ
  exact : Bool

def Tally.upd (k : ContractKey) (g : Tally) (w : World pg) : WorkerEvent Empty → Tally
  | .own i (.updateContract key changes) (.ok _) =>
    match changes.fetchRetries with
    | some v => if key = k then ⟨i :: g.writers,g.exact && v = fetchRetries w k + 1⟩ else g
    | none => g
  | _ => g

def Tally.start : Tally := ⟨[],true⟩

/-- The number that the counter cannot exceed: one less as soon as a write was lost. -/
def Tally.bound (g : Tally) (before : ℕ) : ℕ :=
  before + g.writers.length - if g.exact then 0 else 1

theorem Tally.upd_silent {k : ContractKey} (g : Tally) (w : World pg) {i : ℕ} (c : Command)
    (r : Except PyError c.Answer) (h : Silent c r) : g.upd k w (.own i c r) = g := by
  cases c <;> cases r <;> first | rfl | exact absurd h id

theorem Tally.upd_length {k : ContractKey} (g : Tally) (w : World pg) (e : WorkerEvent Empty) :
    g.writers.length ≤ (g.upd k w e).writers.length := by
  unfold Tally.upd
  split
  · split
    · split
      · simp
      · exact le_rfl
    · exact le_rfl
  · exact le_rfl

theorem Tally.upd_exact {k : ContractKey} (g : Tally) (w : World pg) (e : WorkerEvent Empty) :
    (g.upd k w e).exact ↔ g.exact ∧ FindsLoaded k w e := by
  unfold Tally.upd FindsLoaded
  split
  · rename_i i key changes a
    cases changes.fetchRetries with
    | none => simp
    | some v =>
      by_cases hk : key = k
      · simp [hk]
      · simp [hk]
  · simp

theorem exact_iff {k : ContractKey} (g : Tally) (tr : Trace pg) :
    (observe (Tally.upd k) g tr).exact ↔ g.exact ∧ ∀ e ∈ tr, FindsLoaded k e.1 e.2 := by
  induction tr generalizing g with
  | nil => simp
  | cons e tr ih =>
    change (observe (Tally.upd k) (g.upd k e.1 e.2) tr).exact ↔ _
    rw [ih, Tally.upd_exact, List.forall_mem_cons, and_assoc]

end Tally

section Discipline
variable (k : ContractKey) (before n : ℕ)

structure Counted (s : World pg × Tally) : Prop where
  le : fetchRetries s.1 k ≤ s.2.bound before
  eq : s.2.exact → fetchRetries s.1 k = s.2.bound before
  nonempty : s.2.exact = false → s.2.writers ≠ []
  lt : ∀ i ∈ s.2.writers, i < n

/-- What everybody keeps; nobody writes in the name of another. -/
def discipline : Discipline (World pg × Tally) where
  inv := Counted k before n
  rely := fun i s t => Persists s.1 t.1 ∧ s.2.bound before ≤ t.2.bound before ∧
    t.2.writers.count i = s.2.writers.count i
  guar := fun i s t => Persists s.1 t.1 ∧ s.2.bound before ≤ t.2.bound before ∧
    ∀ j, j ≠ i → t.2.writers.count j = s.2.writers.count j
  rely_refl := fun _ s => ⟨Persists.refl s.1,le_rfl,rfl⟩
  rely_trans := fun _ _ _ _ h h' => ⟨h.1.trans h'.1,h.2.1.trans h'.2.1,h'.2.2.trans h.2.2⟩

theorem discipline_shared : (discipline k before n : Discipline (World pg × Tally)).Shared :=
  fun hij h => ⟨h.1,h.2.1,h.2.2 _ hij.symm⟩

end Discipline

section Calls
variable {k : ContractKey} {before n : ℕ}

/-- A call that has loaded `c` has not written yet and cannot write too much. -/
structure Loaded (k : ContractKey) (before i : ℕ) (c : ContractRow) (s : World pg × Tally) : Prop where
  row : s.1.contract k ≠ none
  le : c.fetchRetries ≤ s.2.bound before
  unwritten : s.2.writers.count i = 0

def Outcome (i : ℕ) (r : Except PyError Bool) (s : World pg × Tally) : Prop :=
  r = .ok false → s.2.writers.count i = 1

/-- A step that leaves the counter and the tally alone is always allowed. -/
theorem Counted.unchanged {s : World pg × Tally} {w : World pg} (h : Counted k before n s)
    (hw : fetchRetries w k = fetchRetries s.1 k) : Counted k before n (w,s.2) :=
  ⟨hw ▸ h.le,fun he => hw ▸ h.eq he,h.nonempty,h.lt⟩

theorem fetchRetries_addContract {w : World pg} {m : EnhancedContractMetadata}
    (hkey : (m.address,m.chainId) = k)
    (h : w.Takes (w.newContract m.address m.chainId {})) :
    fetchRetries (w.addContract _ h) k = fetchRetries w k := by
  have hnone := (contract_eq_none w).mpr h.1
  have hk : (w.newContract m.address m.chainId {}).key = k := hkey
  rw [hk] at hnone
  rw [fetchRetries, fetchRetries, contract_addContract, hk, if_pos rfl, hnone]
  rfl

theorem fetchRetries_updateContract {w : World pg} (hrow : w.contract k ≠ none)
    (changes : ContractChanges) :
    fetchRetries (w.updateContract k changes) k =
      changes.fetchRetries.getD (fetchRetries w k) := by
  obtain ⟨c,hc⟩ := Option.ne_none_iff_exists'.mp hrow
  simp [fetchRetries, contract_updateContract, hc, ContractChanges.apply]

theorem Counted.write {s : World pg × Tally} {c : ContractRow} {i : ℕ}
    (h : Counted k before n s) (hc : Loaded k before i c s) (hi : i < n) :
    Counted k before n (s.1.updateContract k { fetchRetries := some (c.fetchRetries + 1) },
      ⟨i :: s.2.writers,s.2.exact && c.fetchRetries + 1 = fetchRetries s.1 k + 1⟩) := by
  have hle := hc.le
  have heq := h.eq
  have hne := h.nonempty
  have hnew := fetchRetries_updateContract hc.row { fetchRetries := some (c.fetchRetries + 1) }
  simp only [Option.getD_some] at hnew
  refine ⟨?_,fun hx => ?_,by simp,?_⟩
  · rw [hnew]
    cases hx : s.2.exact with
    | true =>
      have hcurrent := heq hx
      simp only [Tally.bound, hx, if_true, Nat.sub_zero] at hle hcurrent
      by_cases hv : c.fetchRetries = fetchRetries s.1 k
      · simp [Tally.bound, hv]
        omega
      · simp [Tally.bound, hv]
        omega
    | false =>
      have hpos := List.length_pos_of_ne_nil (hne hx)
      simp only [Tally.bound, hx, Bool.false_eq_true, if_false] at hle
      simp only [Tally.bound, Bool.false_and, Bool.false_eq_true, if_false, List.length_cons]
      omega
  · rw [hnew]
    simp only [Bool.and_eq_true, decide_eq_true_eq] at hx
    have hcurrent := heq hx.1
    simp only [Tally.bound, hx.1, if_true, Nat.sub_zero] at hcurrent
    simp only [Tally.bound, hx.1, hx.2, decide_true, Bool.and_self, if_true, List.length_cons]
    omega
  · intro j hj
    rcases List.mem_cons.mp hj with rfl | hj
    · exact hi
    · exact h.lt j hj

theorem bound_write (g : Tally) (i : ℕ) (b : Bool) (hg : g.exact = false → g.writers ≠ []) :
    g.bound before ≤ (⟨i :: g.writers,g.exact && b⟩ : Tally).bound before := by
  cases hx : g.exact with
  | true => cases b <;> simp [Tally.bound, hx]
  | false =>
    have hpos := List.length_pos_of_ne_nil (hg hx)
    simp only [Tally.bound, hx, Bool.false_and, Bool.false_eq_true, if_false, List.length_cons]
    omega

/-- What a write of the counter does, for the call that writes and for the others. -/
theorem Counted.fail {s : World pg × Tally} {c : ContractRow} {i : ℕ}
    (h : Counted k before n s) (hc : Loaded k before i c s) (hi : i < n) {g' : Tally}
    (hg : g' = ⟨i :: s.2.writers,s.2.exact && c.fetchRetries + 1 = fetchRetries s.1 k + 1⟩) :
    (Counted k before n (s.1.updateContract k { fetchRetries := some (c.fetchRetries + 1) },g') ∧
      (discipline k before n).guar i s
        (s.1.updateContract k { fetchRetries := some (c.fetchRetries + 1) },g')) ∧
      g'.writers.count i = 1 := by
  subst hg
  refine ⟨⟨h.write hc hi,Persists.updateContract _ _,bound_write _ _ _ h.nonempty,fun j hj => ?_⟩,?_⟩
  · exact List.count_cons_of_ne hj.symm
  · simp [hc.unwritten]

theorem processKeeps {m : EnhancedContractMetadata} (hkey : (m.address,m.chainId) = k) {i : ℕ}
    (hi : i < n) :
    ProcessKeeps (discipline k before n) i ((calls pg).recorded (Tally.upd k) i) m
      (fun s => s.2.writers.count i = 0) (Loaded k before i) fun r s _ => Outcome i r s where
  stays_contract := fun _ _ _ h _ => h.1.contract _
  stays_abi := fun _ _ j r _ h _ => h.1.abi j r
  pre := fun _ _ hs h _ => h.2.2.trans hs
  held := fun _ _ _ hs h _ => ⟨h.1.contract _ hs.row,hs.le.trans h.2.1,h.2.2.trans hs.unwritten⟩
  create := by
    intro t hfresh hinv hpre _ g' he
    obtain rfl : g' = t.2 := he.2
    refine ⟨⟨hinv.unchanged (fetchRetries_addContract hkey hfresh),Persists.addContract hfresh,
      le_rfl,fun _ _ => rfl⟩,?_,Nat.zero_le _,hpre⟩
    have hk : (t.1.newContract m.address m.chainId {}).key = k := hkey
    rw [contract_addContract, hk, if_pos rfl]
    simp
  load := by
    intro t c hinv hpre hc
    rw [hkey] at hc
    refine ⟨by rw [hc]; simp,?_,hpre⟩
    have hle := hinv.le
    rwa [fetchRetries, hc] at hle
  fail := by
    intro t c hinv hc hck _ g' he
    rw [hck.trans hkey] at he ⊢
    have hg : g' = ⟨i :: t.2.writers,t.2.exact && c.fetchRetries + 1 = fetchRetries t.1 k + 1⟩ :=
      he.2.trans (by simp [Tally.upd])
    obtain ⟨hkept,hcount⟩ := hinv.fail hc hi hg
    exact ⟨hkept,fun u hu _ _ => hu.2.2.trans hcount⟩
  storeAbi := by
    intro t c metadata source hfresh hinv hc _ g' he
    obtain rfl : g' = t.2 := he.2
    exact ⟨⟨hinv.unchanged rfl,Persists.addAbi hfresh,le_rfl,fun _ _ => rfl⟩,hc.row,hc.le,
      hc.unwritten⟩
  store := by
    intro t c metadata source abi changes hinv hc hck _ _ hchanges g' he
    have hnone : changes.fetchRetries = none := by
      rcases hchanges with rfl | rfl <;> rfl
    rw [hck.trans hkey] at he ⊢
    obtain rfl : g' = t.2 := he.2.trans (by simp [Tally.upd, hnone])
    refine ⟨⟨hinv.unchanged ?_,Persists.updateContract _ _,le_rfl,fun _ _ => rfl⟩,
      fun _ _ _ h => nomatch h⟩
    rw [fetchRetries_updateContract hc.row, hnone]
    rfl
  error := fun _ _ _ _ h => nomatch h

end Calls

section Runs
variable {k : ContractKey} {w : World pg} {ms : List EnhancedContractMetadata}

theorem calls_sound (hkey : ∀ m ∈ ms, (m.address,m.chainId) = k) {tr : Trace pg}
    {c : CallsConfig pg} (hrun : (calls pg).Run ((calls pg).initial w ms) tr c) :
    (calls pg).Sound (Tally.upd k) (discipline k (fetchRetries w k) ms.length) (fun _ _ => True)
      (fun i _ r s _ => Outcome i r s) c (observe (Tally.upd k) Tally.start tr) := by
  refine hrun.sound (admits_closed (discipline_shared k _ _) (fun _ _ _ _ => id) id)
    (sound_initial ?_ trivial fun i m hi => ?_)
  · exact ⟨by simp [Tally.bound, Tally.start],fun _ => by simp [Tally.bound, Tally.start],
      (fun h => nomatch h),fun _ h => nomatch h⟩
  · have hlt := (List.getElem?_eq_some_iff.mp hi).1
    have hregular : Regular (fun _ _ _ _ => True) (discipline k (fetchRetries w k) ms.length) i
        ((calls pg).recorded (Tally.upd k) i) :=
      recorded_regular id (fun g w c r h => g.upd_silent w c r h)
        fun s => ⟨Persists.refl s.1,le_rfl,fun _ _ => rfl⟩
    exact (processKeeps (hkey m (List.mem_of_getElem? hi)) hlt).meets hregular rfl

/-- When every call has ended without storing an ABI, each of them has written once. -/
theorem writers_length (hkey : ∀ m ∈ ms, (m.address,m.chainId) = k) {tr : Trace pg}
    {c : CallsConfig pg} (hrun : (calls pg).Run ((calls pg).initial w ms) tr c)
    (hend : ∀ th ∈ c.threads, th.prog = .ret false) :
    (observe (Tally.upd k) Tally.start tr).writers.length = ms.length := by
  have hsound := calls_sound hkey hrun
  have hperm : (observe (Tally.upd k) Tally.start tr).writers.Perm (List.range ms.length) := by
    rw [List.perm_iff_count]
    intro i
    by_cases hi : i < ms.length
    · have hfirst : ((calls pg).initial w ms).threads[i]? = some ((calls pg).spawn ms[i]) := by
        simp [initial, hi]
      obtain ⟨th,hth,_⟩ := hrun.label hfirst
      have hprog := hend th (List.mem_of_getElem? hth)
      rw [hsound.outcome hth (r := .ok false) (by rw [hprog]; rfl) rfl]
      exact (List.count_eq_one_of_mem List.nodup_range (List.mem_range.mpr hi)).symm
    · rw [List.count_eq_zero_of_not_mem fun h => hi (hsound.inv.lt i h),
        List.count_eq_zero_of_not_mem fun h => hi (List.mem_range.mp h)]
  rw [hperm.length_eq, List.length_range]

/-- As long as every write finds what was loaded, the counter only grows. -/
theorem neverDecreases (hkey : ∀ m ∈ ms, (m.address,m.chainId) = k) {tr : Trace pg}
    {c : CallsConfig pg} (hrun : (calls pg).Run ((calls pg).initial w ms) tr c)
    (hexact : (observe (Tally.upd k) Tally.start tr).exact) :
    NeverDecreases k tr c.state ∧ ∀ v ∈ seen k tr c.state, v ≤ fetchRetries c.state k := by
  induction hrun with
  | refl => simp [NeverDecreases, seen]
  | @step d d' tr e hrun hstep ih =>
    have hafter := (calls_sound hkey (hrun.step hstep)).inv
    rw [observe_append] at hafter hexact
    have hbefore := (Tally.upd_exact _ _ _).mp hexact |>.1
    obtain ⟨hsorted,hle⟩ := ih hbefore
    have hgrows : fetchRetries d.state k ≤ fetchRetries d'.state k := by
      have hd := (calls_sound hkey hrun).inv.eq hbefore
      have hd' := hafter.eq hexact
      have hlen := Tally.upd_length (k := k) (observe (Tally.upd k) Tally.start tr) d.state e
      simp only [Tally.bound, hbefore, hexact, if_true, Nat.sub_zero] at hd hd'
      omega
    have hseen : seen k (tr ++ [(d.state,e)]) d'.state =
        seen k tr d.state ++ [fetchRetries d'.state k] := by
      simp [seen]
    rw [NeverDecreases, hseen]
    refine ⟨List.pairwise_append.mpr ⟨hsorted,List.pairwise_singleton _ _,fun v hv v' hv' => ?_⟩,
      fun v hv => ?_⟩
    · rw [List.mem_singleton.mp hv']
      exact (hle v hv).trans hgrows
    · rcases List.mem_append.mp hv with hv | hv
      · exact (hle v hv).trans hgrows
      · rw [List.mem_singleton.mp hv]

/-- Every failed attempt is counted, and the counter never decreases, exactly when
each call still finds the number it had loaded as it writes. -/
theorem run_countsAttempts_iff (hkey : ∀ m ∈ ms, (m.address,m.chainId) = k) {tr : Trace pg}
    {c : CallsConfig pg} (hrun : (calls pg).Run ((calls pg).initial w ms) tr c)
    (hend : ∀ th ∈ c.threads, th.prog = .ret false) :
    fetchRetries c.state k = fetchRetries w k + ms.length ∧ NeverDecreases k tr c.state ↔
      ∀ e ∈ tr, FindsLoaded k e.1 e.2 := by
  have hinv := (calls_sound hkey hrun).inv
  have hlen := writers_length hkey hrun hend
  have hiff := exact_iff (k := k) Tally.start tr
  constructor
  · rintro ⟨hcount,_⟩
    refine (hiff.mp ?_).2
    by_contra hx
    have hx' := Bool.eq_false_iff.mpr hx
    have hpos : 0 < (observe (Tally.upd k) Tally.start tr).writers.length :=
      List.length_pos_of_ne_nil (hinv.nonempty hx')
    have hle := hinv.le
    simp only [Tally.bound, hx', Bool.false_eq_true, if_false, hlen] at hle
    omega
  · intro hfinds
    have hx := hiff.mpr ⟨rfl,hfinds⟩
    refine ⟨?_,(neverDecreases hkey hrun hx).1⟩
    rw [hinv.eq hx]
    simp [Tally.bound, hx, hlen]

end Runs

section Examples
open Reference

/-- No explorer knows the contract. -/
def unknown : EnhancedContractMetadata := ⟨[1],none,none,1⟩

def player : (calls database).Player :=
  poolPlayer Worker.processContractMetadata (fun _ _ _ => .ok none) fun _ _ _ => trivial

/-- The second call loads the row that the first one has inserted, then both write. -/
def turns : List (ℕ ⊕ Empty) := [.inl 0, .inl 1, .inl 1, .inl 1, .inl 0, .inl 1]

def twoCalls : Played Command Command.Answer PyError (World database) DbSession Empty
    EnhancedContractMetadata Bool :=
  play player ((calls database).initial (World.empty database) [unknown, unknown]) turns

/-- Two failed attempts are counted as one. -/
theorem twoCalls_countsOne : ∃ (tr : Trace database) (c : CallsConfig database),
    (calls database).Run ((calls database).initial (World.empty database) [unknown, unknown]) tr c ∧
      (∀ th ∈ c.threads, th.prog = .ret false) ∧
      fetchRetries c.state ([1],1) ≠ fetchRetries (World.empty database) ([1],1) + 2 := by
  refine ⟨twoCalls.1,twoCalls.2,play_run player _ turns,?_,by decide⟩
  intro th hth
  have hthreads : twoCalls.2.threads =
      [⟨unknown,active,.ret false⟩, ⟨unknown,active,.ret false⟩] := rfl
  rw [hthreads] at hth
  rcases List.mem_pair.mp hth with rfl | rfl <;> rfl

/-- The second call begins before the first one writes, and loads the row after that. -/
def inTurn : Played Command Command.Answer PyError (World database) DbSession Empty
    EnhancedContractMetadata Bool :=
  play player ((calls database).initial (World.empty database) [unknown, unknown])
    [.inl 0, .inl 1, .inl 0, .inl 1, .inl 1, .inl 1]

/-- Both attempts are counted. -/
theorem run_countsAttempts_iff_inTurn :
    fetchRetries inTurn.2.state ([1],1) = fetchRetries (World.empty database) ([1],1) + 2 ∧
      NeverDecreases ([1],1) inTurn.1 inTurn.2.state := by
  have hrun : (calls database).Run ((calls database).initial (World.empty database) [unknown, unknown])
      inTurn.1 inTurn.2 := play_run player _ _
  have hfinds : ∀ e ∈ inTurn.1, FindsLoaded ([1],1) e.1 e.2 :=
    ((exact_iff Tally.start inTurn.1).mp (by decide)).2
  have hthreads : inTurn.2.threads = [⟨unknown,active,.ret false⟩, ⟨unknown,active,.ret false⟩] := rfl
  refine (run_countsAttempts_iff (by simp [unknown]) hrun fun th hth => ?_).mpr hfinds
  rw [hthreads] at hth
  rcases List.mem_pair.mp hth with rfl | rfl <;> rfl

end Examples
end SafeDecoder.FetchRetries
