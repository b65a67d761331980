import SafeDecoder.Library.Termination
import SafeDecoder.Worker.Refusals

/-! # The chase of proxy implementations

`get_contract_metadata_task` sends itself to the implementation of a proxy, and
implementations may form cycles. What it has tried is refused afterwards, so the
contracts that have not been tried pay for the messages still to be sent.
-/
namespace SafeDecoder.ProxyChase
open Worker Machine

variable {pg : Postgres} (inst : Installation) (S : Finset Bytes)

/-- Nothing but the messages of the chase itself arrives. -/
abbrev system (pg : Postgres) (inst : Installation) (explorers : Explorers) :=
  workers pg inst explorers fun _ => False

/-- The explorers name implementations of these contracts among these contracts only. -/
def ClosedUnder (explorers : Explorers) (S : Finset Bytes) : Prop :=
  ∀ client address chainId metadata implementation, address ∈ S →
    explorers client address chainId (.ok (some metadata)) →
    metadata.implementation = some implementation → implementation ≠ nullAddress →
    implementation ∈ S

section Budget

/-- The contracts of `S` that are not refused on a chain. -/
def untried (w : World pg) (chainId : Int) : Finset Bytes :=
  S.filter fun a => ¬refusedBy (w.contract (a,chainId)) 0

/-- The messages that may follow from one message, counting from this state. -/
def price (w : World pg) (m : Message) : ℕ :=
  (untried S w m.chainId).card + if m.skipAttemptDownload then 1 else 0

def queued (w : World pg) : ℕ := (w.queue.map fun m => price S w m + 1).sum

/-- What the running tasks may still send, one entry for each, and what waits. -/
def budget (s : World pg × List ℕ) : ℕ := s.2.sum + queued S s.1

/-- A task pays for the message it sends, and hands the rest to the task that receives it. -/
def upd (g : List ℕ) (w : World pg) : WorkerEvent Move → List ℕ
  | .own i (.send m) (.ok _) => g.set i (g.getD i 0 - (price S w m + 1))
  | .env (.deliver m) => g ++ [price S w m]
  | .env (.start _) => g ++ [0]
  | _ => g

variable {inst S}

theorem untried_subset {w w' : World pg} (h : Grows (fun _ => 0) w w') (chainId : Int) :
    untried S w' chainId ⊆ untried S w chainId := by
  intro a ha
  simp only [untried, Finset.mem_filter] at ha ⊢
  exact ⟨ha.1,fun hr => ha.2 (h.refused _ 0 le_rfl hr)⟩

theorem price_le {w w' : World pg} (h : Grows (fun _ => 0) w w') (m : Message) :
    price S w' m ≤ price S w m :=
  Nat.add_le_add_right (Finset.card_le_card (untried_subset h m.chainId)) _

theorem budget_le {s : World pg × List ℕ} {w' : World pg} (h : Grows (fun _ => 0) s.1 w')
    (hq : w'.queue = s.1.queue) : budget S (w',s.2) ≤ budget S s := by
  refine Nat.add_le_add_left ?_ _
  rw [queued, queued, hq]
  exact List.sum_le_sum fun m _ => Nat.add_le_add_right (price_le h m) 1

theorem sum_set {g : List ℕ} {i b x : ℕ} (h : g[i]? = some b) :
    (g.set i x).sum + b = g.sum + x := by
  simpa using congrArg Multiset.sum (set_add_singleton (b := x) h)

/-- A message that is paid for leaves the budget as it is. -/
theorem budget_send {s : World pg × List ℕ} {i b : ℕ} {m : Message} (hb : s.2[i]? = some b)
    (hpaid : price S s.1 m + 1 ≤ b) :
    budget S (s.1.send m,s.2.set i (b - (price S s.1 m + 1))) ≤ budget S s := by
  have hsum := sum_set (x := b - (price S s.1 m + 1)) hb
  have hqueue : queued S (s.1.send m) = queued S s.1 + (price S s.1 m + 1) := by
    simp only [queued, World.send, List.map_append, List.sum_append]
    rfl
  simp only [budget, hqueue]
  omega

theorem budget_deliver {w : World pg} {g : List ℕ} {m : Message} (h : m ∈ w.queue) :
    budget S (w.take m,g ++ [price S w m]) + 1 ≤ budget S (w,g) := by
  have hqueue : (price S w m + 1) + queued S (w.take m) = queued S w :=
    List.sum_map_erase (fun m => price S w m + 1) h
  simp only [budget, List.sum_append, List.sum_singleton]
  omega

theorem upd_silent (g : List ℕ) (w : World pg) {i : ℕ} {c : Command} {r : Except PyError c.Answer}
    (h : ∀ m, c ≠ .send m) : upd S g w (.own i c r) = g := by
  cases c <;> first | rfl | exact absurd rfl (h _)

end Budget

section Discipline

/-- Messages stay within `S`; nobody spends what belongs to another. -/
def spending : Discipline (World pg × List ℕ) where
  inv := fun s => ∀ m ∈ s.1.queue, inst.addresses.toBytes m.address ∈ S
  rely := fun i s t => ∀ b, s.2[i]? = some b → t.2[i]? = some b
  guar := fun i s t => (∀ j, j ≠ i → ∀ b, s.2[j]? = some b → t.2[j]? = some b) ∧
    budget S t ≤ budget S s
  rely_refl := fun _ _ _ h => h
  rely_trans := fun _ _ _ _ h h' b hb => h' b (h b hb)

theorem spending_shared : (spending inst S : Discipline (World pg × List ℕ)).Shared :=
  fun hij h b hb => h.1 _ hij.symm b hb

/-- A task that has not been checked can pay for its message. -/
def CanPay (i : ℕ) (m : Message) (s : World pg × List ℕ) : Prop :=
  ∃ b, s.2[i]? = some b ∧ price S s.1 m ≤ b

/-- A task that has passed the check can also pay for its own contract. -/
def CanPayMore (i : ℕ) (m : Message) (s : World pg × List ℕ) : Prop :=
  ∃ b, s.2[i]? = some b ∧ (insert (m.key inst).1 (untried S s.1 m.chainId)).card ≤ b

variable {inst S} {explorers : Explorers}

abbrev discipline (pg : Postgres) (inst : Installation) (S : Finset Bytes) :
    Discipline (World pg × List ℕ) := marks inst (fun _ => 0) (spending inst S)

theorem tolerates (hclosed : ClosedUnder explorers S) {m : Message}
    (hm : (m.key inst).1 ∈ S) (i : ℕ) :
    TaskTolerates inst (fun _ => 0) (fun _ => True) explorers (spending inst S) i
      ((system pg inst explorers).recorded (upd S) i) m (CanPay S i m) (CanPayMore inst S i m) where
  quiet := fun he hc => he.2.trans (upd_silent _ _ hc)
  indifferent := by
    intro s w' hinv hg hq
    exact ⟨fun m hm => hinv m (hq ▸ hm),fun _ _ _ hb => hb,budget_le hg hq⟩
  passed := by
    rintro s t ⟨b,hb,hle⟩ hg hr
    exact ⟨b,hr b hb,(Finset.card_le_card (Finset.insert_subset_insert _ (untried_subset hg _))).trans hle⟩
  passed_own := by
    rintro s w' ⟨b,hb,hle⟩ hg
    exact ⟨b,hb,(Finset.card_le_card (Finset.insert_subset_insert _ (untried_subset hg _))).trans hle⟩
  knows := fun _ _ _ _ => trivial
  pre := by
    rintro s t ⟨b,hb,hle⟩ hg hr
    exact ⟨b,hr b hb,(price_le hg m).trans hle⟩
  check := by
    rintro s ⟨b,hb,hle⟩ hcheck
    refine ⟨b,hb,?_⟩
    cases hskip : m.skipAttemptDownload with
    | true =>
      rw [price, hskip, if_pos rfl] at hle
      exact (Finset.card_insert_le _ _).trans hle
    | false =>
      have hopen : (m.key inst).1 ∈ untried S s.1 m.chainId := by
        rw [hskip] at hcheck
        exact Finset.mem_filter.mpr ⟨hm,hcheck.resolve_left Bool.false_ne_true⟩
      rw [Finset.insert_eq_of_mem hopen]
      exact (Nat.le_add_right _ _).trans hle
  send := by
    rintro s metadata implementation client _ hinv ⟨b,hb,hle⟩ hrefused hanswer himpl hnull g' he
    have htried : (m.key inst).1 ∉ untried S s.1 m.chainId := fun h =>
      (Finset.mem_filter.mp h).2 hrefused
    rw [Finset.card_insert_of_notMem htried] at hle
    have hg : g' = s.2.set i (b - (price S s.1
        { address := inst.addresses.toChecksum implementation, chainId := m.chainId } + 1)) := by
      apply he.2.trans
      simp [upd, List.getD_eq_getElem?_getD, hb]
    subst hg
    refine ⟨⟨?_,fun j hj b' hb' => ?_,budget_send hb hle⟩,trivial⟩
    · intro m' hm'
      rcases List.mem_append.mp hm' with hm' | hm'
      · exact hinv m' hm'
      · rw [List.mem_singleton.mp hm', inst.addresses.toBytes_toChecksum]
        exact hclosed client _ _ metadata implementation hm hanswer himpl hnull
    · rwa [List.getElem?_set_ne hj.symm]

theorem regular (i : ℕ) : Regular explorers (discipline pg inst S) i
    ((system pg inst explorers).recorded (upd S) i) :=
  recorded_regular id
    (fun g w c r h => by
      cases c with
      | send m =>
        cases r with
        | ok _ => exact absurd h id
        | error e => rfl
      | _ => rfl)
    fun s => ⟨Grows.refl s.1,fun _ _ _ hb => hb,le_rfl⟩

end Discipline

section Runs
variable {inst S} {explorers : Explorers}

theorem move_keeps {move : Move} {w w' : World pg} {jobs : List Job} {g : List ℕ}
    (h : Moves (fun _ => False) move w w' jobs) (hs : (discipline pg inst S).inv (w,g)) :
    (discipline pg inst S).inv (w',upd S g w (.env move)) ∧
      (∀ i, (discipline pg inst S).rely i (w,g) (w',upd S g w (.env move))) ∧
      budget S (w',upd S g w (.env move)) + jobs.length ≤ budget S (w,g) := by
  obtain ⟨hfloored,hgrows⟩ := Refusals.move_grows h hs.1
  cases h with
  | expire key => exact ⟨⟨hfloored,hs.2⟩,fun _ => ⟨hgrows,fun _ hb => hb⟩,budget_le (s := (w,g)) hgrows rfl⟩
  | @deliver m _ hm =>
    refine ⟨⟨hfloored,fun m' hm' => hs.2 m' (List.mem_of_mem_erase hm')⟩,fun i => ⟨hgrows,fun b hb => ?_⟩,
      budget_deliver hm⟩
    exact List.getElem?_append_left (List.getElem?_eq_some_iff.mp hb).1 ▸ hb
  | start _ h => exact h.elim

theorem job_meets (hclosed : ClosedUnder explorers S) {m : Message} (hm : (m.key inst).1 ∈ S)
    {i : ℕ} {s : World pg × List ℕ} (hpay : CanPay S i m s) :
    Meets (discipline pg inst S) i ((system pg inst explorers).recorded (upd S) i)
      (fun _ _ _ => True) (getContractMetadataTask inst m) s active :=
  ((tolerates hclosed hm i).meets (regular i) hpay).mono fun _ _ _ _ _ => trivial

theorem admits (hclosed : ClosedUnder explorers S) :
    (system pg inst explorers).Admits (upd S) (discipline pg inst S) (fun g n => g.length = n)
      fun _ _ _ _ _ => True where
  shared := marks_shared (spending_shared inst S)
  own := by
    intro g n s i c r hn
    unfold upd
    split
    · simpa using hn
    · rename_i h
      cases h
    · rename_i h
      cases h
    · exact hn
  move := fun hm hs => ⟨(move_keeps hm hs).1,(move_keeps hm hs).2.1⟩
  grows := by
    intro move w w' jobs g n h hn
    cases h with
    | expire => exact hn
    | deliver hm => simpa [upd] using hn
    | start _ h => exact h.elim
  starts := by
    intro move w w' jobs job g n j h hn hbefore _ hj
    cases h with
    | expire => simp at hj
    | @deliver m _ hm =>
      cases j with
      | zero =>
        cases hj
        refine job_meets hclosed (hbefore.2 m hm) ⟨price S w m,?_,le_rfl⟩
        simp [upd, ← hn]
      | succ j => simp at hj
    | start _ h => exact h.elim

theorem pays : (system pg inst explorers).Pays (upd S) (discipline pg inst S)
    (fun move => ∃ key, move = .expire key) (budget S) where
  own := fun h => h.2.2
  move := fun hm hs => (move_keeps hm hs).2.2
  busy := by
    intro move w w' jobs h
    cases h with
    | expire key => simp
    | deliver hm => simp
    | start _ h => exact h.elim

/-- The chase from one message: the contracts of `S` bound the tasks that it starts. -/
theorem sound_initial_message (hclosed : ClosedUnder explorers S) {w : World pg}
    (hw : Refusals.Justified inst w) (hq : w.queue = []) {m : Message} (hm : (m.key inst).1 ∈ S) :
    (system pg inst explorers).Sound (upd S) (discipline pg inst S) (fun g n => g.length = n)
      (fun _ _ _ _ _ => True) ((system pg inst explorers).initial w [.getContractMetadata m])
      [price S w m] := by
  refine sound_initial ⟨Refusals.floored_iff.mpr hw,fun m' hm' => ?_⟩ rfl fun i job hi => ?_
  · rw [hq] at hm'
    cases hm'
  · cases i with
    | zero =>
      cases hi
      exact job_meets hclosed hm ⟨_,rfl,le_rfl⟩
    | succ i => simp at hi

theorem run_tasks_le (hclosed : ClosedUnder explorers S) {w : World pg}
    (hw : Refusals.Justified inst w) (hq : w.queue = []) {m : Message} (hm : (m.key inst).1 ∈ S)
    {tr : WorkersTrace pg} {c : WorkersConfig pg}
    (hrun : (system pg inst explorers).Run
      ((system pg inst explorers).initial w [.getContractMetadata m]) tr c) :
    c.threads.length ≤ S.card + 2 := by
  have hspent := hrun.spent (admits hclosed) pays (sound_initial_message hclosed hw hq hm)
  have hstart : budget S (w,[price S w m]) ≤ S.card + 1 := by
    have hcard : (untried S w m.chainId).card ≤ S.card := Finset.card_filter_le _ _
    have hskip : (if m.skipAttemptDownload then 1 else 0) ≤ 1 := by split <;> omega
    simp only [budget, List.sum_singleton, queued, hq, List.map_nil, List.sum_nil, price]
    omega
  have hlen : ((system pg inst explorers).initial w [.getContractMetadata m]).threads.length = 1 := rfl
  have hstate : ((system pg inst explorers).initial w [.getContractMetadata m]).state = w := rfl
  rw [hlen, hstate] at hspent
  omega

theorem run_terminates (hclosed : ClosedUnder explorers S) {w : World pg}
    (hw : Refusals.Justified inst w) (hq : w.queue = []) {m : Message} (hm : (m.key inst).1 ∈ S) :
    Acc (fun c' c => (system pg inst explorers).Progress (fun move => ∃ key, move = .expire key) c c')
      ((system pg inst explorers).initial w [.getContractMetadata m]) :=
  (sound_initial_message hclosed hw hq hm).terminates (admits hclosed) pays

end Runs

section OneAtATime
variable {inst} {explorers : Explorers}

/-- Some keys of Redis have expired. -/
def Expired (w w' : World pg) : Prop :=
  ∃ keys : List RedisKey, w' = keys.foldl (fun w key => w.setRedis key none) w

/-- Messages are taken in any order, and each task returns before the next one starts. -/
inductive OneAtATime (inst : Installation) (explorers : Explorers) :
    World pg → List (Message × WorkersTrace pg) → World pg → Prop
  | nil {w} : OneAtATime inst explorers w [] w
  | task {w₀ w w' w'' done m tr l} (before : OneAtATime inst explorers w₀ done w) (hm : m ∈ w.queue)
      (hexpired : Expired (w.take m) w')
      (hrun : (system pg inst explorers).Alone (getContractMetadataTask inst m) w' active tr (.ret ())
        w'' l) :
      OneAtATime inst explorers w₀ (done ++ [(m,tr)]) w''

/-- The task has asked a client or has gone on to store what it was told. -/
def Downloads (tr : WorkersTrace pg) : Prop :=
  ∃ s c r, (s,Event.own 0 c r) ∈ tr ∧
    ((∃ client address chainId, c = .fetch client address chainId) ∨
      ∃ address chainId values, c = .insertContract address chainId values)

/-- What has been reached from `w`. -/
def reached (w : World pg) : Discipline (World pg × Unit) where
  inv := fun s => Grows (fun _ => 0) w s.1
  rely := fun _ _ _ => True
  guar := fun _ _ _ => True
  rely_refl := fun _ _ => trivial
  rely_trans := fun _ _ _ _ _ _ => trivial

theorem reached_tolerates (explorers : Explorers) (w : World pg) (m : Message) :
    TaskTolerates inst (fun _ => 0) (fun _ => True) explorers (reached w) 0
      ((system pg inst explorers).recorded (fun _ _ _ => ()) 0) m (fun _ => True) fun _ => True where
  quiet := fun _ _ => rfl
  indifferent := fun _ _ hinv hg _ => ⟨hinv.trans hg,trivial⟩
  passed := fun _ _ _ _ _ => trivial
  passed_own := fun _ _ _ _ => trivial
  knows := fun _ _ _ _ => trivial
  pre := fun _ _ _ _ _ => trivial
  check := fun _ _ _ => trivial
  send := fun _ _ _ _ _ hinv _ _ _ _ _ _ _ =>
    ⟨⟨hinv.trans (Grows.of_db rfl),trivial⟩,trivial⟩

/-- A task that returns leaves its contract refused, and takes nothing back. -/
theorem task_refuses {w w' : World pg} {m : Message} {tr : WorkersTrace pg} {l : DbSession}
    (hw : Floored inst (fun _ => 0) w)
    (h : (system pg inst explorers).Alone (getContractMetadataTask inst m) w active tr (.ret ()) w' l) :
    Floored inst (fun _ => 0) w' ∧ Grows (fun _ => 0) w w' ∧
      refusedBy (w'.contract (m.key inst)) 0 := by
  have hregular : Regular explorers (marks inst (fun _ => 0) (reached w)) 0
      ((system pg inst explorers).recorded (fun _ _ _ => ()) 0) :=
    recorded_regular id (fun _ _ _ _ _ => rfl) fun s => ⟨Grows.refl s.1,trivial⟩
  have hmeets := (reached_tolerates explorers w m).meets (s := (w,())) hregular trivial
  have hinv : (marks inst (fun _ => 0) (reached w)).inv (w,()) := ⟨hw,Grows.refl w⟩
  obtain ⟨hfloored,hgrows⟩ := (h.meets hmeets hinv).2
  refine ⟨hfloored,hgrows,?_⟩
  have hend := h.outcome hmeets hinv (r := .ok ()) rfl
  rwa [TaskOutcome, ite_self] at hend

/-- A task that asks first does not download a contract that is refused. -/
theorem refused_not_downloaded {w w' : World pg} {m : Message} {tr : WorkersTrace pg} {l : DbSession}
    (hw : Floored inst (fun _ => 0) w) (hskip : m.skipAttemptDownload = false)
    (hrefused : refusedBy (w.contract (m.key inst)) 0)
    (h : (system pg inst explorers).Alone (getContractMetadataTask inst m) w active tr (.ret ()) w' l) :
    ¬Downloads tr := by
  rw [getContractMetadataTask, hskip] at h
  change (system pg inst explorers).Alone
    (Proc.bind (shouldAttemptDownload inst m.address m.chainId 0) _) w active tr _ w' l at h
  rw [shouldAttemptDownload_bind] at h
  obtain ⟨r,_,_,tr₁,⟨_,hr,_⟩,rfl,h⟩ := h.of_call rfl
  cases hr
  cases hcached : w.redis (.shouldAttemptDownload m.address m.chainId 0) with
  | some v =>
    obtain ⟨rfl,-⟩ := hw.refusals m.address m.chainId v hcached
    simp only [hcached] at h
    obtain ⟨rfl,-⟩ := h.of_outcome rfl
    simp [Downloads]
  | none =>
    simp only [hcached] at h
    obtain ⟨r,w₁,l₁,tr₂,⟨_,hr,_⟩,rfl,h⟩ := h.of_call rfl
    by_cases hfits : fitsBigInt m.chainId
    · simp only [respond, active, hfits, Bool.false_eq_true, if_false, if_true] at hr
      cases hr
      rw [Message.key] at hrefused
      simp only [hrefused, if_true] at h
      obtain ⟨r,_,_,tr₃,⟨_,hr,_⟩,rfl,h⟩ := h.of_call rfl
      cases hr
      obtain ⟨rfl,-⟩ := h.of_outcome rfl
      rintro ⟨s,c,r,hmem,hc⟩
      simp only [List.mem_cons, Prod.mk.injEq, Event.own.injEq, List.not_mem_nil, or_false] at hmem
      rcases hmem with ⟨-,-,rfl,-⟩ | ⟨-,-,rfl,-⟩ | ⟨-,-,rfl,-⟩ <;> simp at hc
    · simp only [respond, active, hfits, Bool.false_eq_true, if_false] at hr
      cases hr
      obtain ⟨-,habsurd,-⟩ := h.of_outcome rfl
      cases habsurd

theorem floored_expired {w w' : World pg} (h : Expired w w') (hw : Floored inst (fun _ => 0) w) :
    Floored inst (fun _ => 0) w' ∧ Grows (fun _ => 0) w w' := by
  obtain ⟨keys,rfl⟩ := h
  induction keys generalizing w with
  | nil => exact ⟨hw,Grows.refl w⟩
  | cons key keys ih =>
    obtain ⟨hfloored,hgrows⟩ := hw.setRedis key none fun _ _ _ => .inl rfl
    obtain ⟨hend,hend'⟩ := ih hfloored
    exact ⟨hend,hgrows.trans hend'⟩

/-- No two tasks that were sent without `skip_attempt_download` download one contract. -/
def OncePerContract (inst : Installation) (done : List (Message × WorkersTrace pg)) : Prop :=
  done.Pairwise fun a b => a.1.key inst = b.1.key inst → a.1.skipAttemptDownload = false →
    b.1.skipAttemptDownload = false → Downloads a.2 → ¬Downloads b.2

theorem OneAtATime.once {w₀ w : World pg} {done : List (Message × WorkersTrace pg)}
    (hw : Floored inst (fun _ => 0) w₀) (h : OneAtATime inst explorers w₀ done w) :
    Floored inst (fun _ => 0) w ∧ (∀ e ∈ done, refusedBy (w.contract (e.1.key inst)) 0) ∧
      OncePerContract inst done := by
  induction h with
  | nil => exact ⟨hw,(by simp),List.Pairwise.nil⟩
  | @task w w' w'' done m tr l _ hm hexpired hrun ih =>
    obtain ⟨hfloored,hrefused,honce⟩ := ih
    have htaken : Floored inst (fun _ => 0) (w.take m) ∧ Grows (fun _ => 0) w (w.take m) :=
      hfloored.of_queue _
    obtain ⟨hfloored',hgrows'⟩ := floored_expired hexpired htaken.1
    obtain ⟨hend,hgrows,hmarked⟩ := task_refuses hfloored' hrun
    have hall := htaken.2.trans hgrows'
    refine ⟨hend,fun e he => ?_,?_⟩
    · rcases List.mem_append.mp he with he | he
      · exact (hall.trans hgrows).refused _ 0 le_rfl (hrefused e he)
      · rw [List.mem_singleton.mp he]
        exact hmarked
    · refine List.pairwise_append.mpr ⟨honce,List.pairwise_singleton _ _,fun a ha b hb => ?_⟩
      rw [List.mem_singleton.mp hb]
      intro hkey _ hskip _
      refine refused_not_downloaded hfloored' hskip (hall.refused _ 0 le_rfl ?_) hrun
      rw [← hkey]
      exact hrefused a ha

end OneAtATime

/-- The chase from one message starts at most two tasks more than there are
contracts, every order and interleaving of its tasks comes to an end, and when
they run one at a time no contract is downloaded by two tasks that asked first. -/
theorem chase_terminates_and_downloads_once {explorers : Explorers}
    (hclosed : ClosedUnder explorers S) {w : World pg} (hw : Refusals.Justified inst w)
    (hq : w.queue = []) {m : Message} (hm : (m.key inst).1 ∈ S) :
    (∀ tr c, (system pg inst explorers).Run
        ((system pg inst explorers).initial w [.getContractMetadata m]) tr c →
      c.threads.length ≤ S.card + 2) ∧
    (∀ run : ℕ → WorkersConfig pg,
      run 0 = (system pg inst explorers).initial w [.getContractMetadata m] →
      ¬∀ n, (system pg inst explorers).Progress (fun move => ∃ key, move = .expire key)
        (run n) (run (n+1))) ∧
    ∀ done w', OneAtATime inst explorers (w.send m) done w' → OncePerContract inst done := by
  refine ⟨fun tr c hrun => run_tasks_le hclosed hw hq hm hrun,fun run h0 => ?_,fun done w' h => ?_⟩
  · exact no_endless_run (run_terminates hclosed hw hq hm) run h0
  · have hsent : Floored inst (fun _ => 0) (w.send m) ∧ Grows (fun _ => 0) w (w.send m) :=
      (Refusals.floored_iff.mpr hw).of_queue _
    exact (h.once hsent.1).2.2

section Examples
open Reference

/-- Every contract is its own implementation. -/
def selfProxy : Explorers := fun _ address _ r =>
  r = .ok (some ⟨none,.arr [.null],some address⟩)

theorem selfProxy_closed (S : Finset Bytes) : ClosedUnder selfProxy S := by
  intro client address chainId metadata implementation ha h himpl _
  cases h
  exact Option.some.inj himpl ▸ ha

def player : (system database installation selfProxy).Player :=
  workersPlayer (fun _ address _ => .ok (some ⟨none,.arr [.null],some address⟩)) fun _ _ _ => rfl

def message (address : String) : Message := { address := address, chainId := 1 }

/-- The contract is tried, its implementation is sent, and the second task is refused. -/
def chased : Played Command Command.Answer PyError (World database) DbSession Move Job Unit :=
  play player ((system database installation selfProxy).initial (World.empty database)
      [.getContractMetadata (message (to0xHexStr [1]))])
    [.inl 0, .inl 0, .inl 0, .inl 0, .inl 0, .inl 0, .inl 0,
      .inr (.deliver (message (addresses.toChecksum [1]))), .inl 1, .inl 1, .inl 1]

/-- What a task for a message of the queue does, when nobody disturbs it. -/
def taken (m : Message) (w : World database) :
    List (World database × WorkerEvent Move) × Except PyError Unit × World database × DbSession :=
  player.complete (getContractMetadataTask installation m) (w.take m) active

theorem taken_alone {m : Message} {w : World database} (h : (taken m w).2.1 = .ok ()) :
    (system database installation selfProxy).Alone (getContractMetadataTask installation m) (w.take m)
      active (taken m w).1 (.ret ()) (taken m w).2.2.1 (taken m w).2.2.2 := by
  obtain ⟨y,halone,hr⟩ :=
    player.complete_alone (getContractMetadataTask installation m) (w.take m) active
  rw [taken] at h
  rw [h] at hr
  rcases Proc.eq_of_outcome? hr with ⟨_,-,rfl⟩ | ⟨_,hfails,-⟩
  · exact halone
  · cases hfails

def sent : World database := (World.empty database).send (message (to0xHexStr [1]))

/-- The task of the message, and the task of the message that it sends. -/
def first := taken (message (to0xHexStr [1])) sent
def second := taken (message (addresses.toChecksum [1])) first.2.2.1

theorem selfProxy_oneAtATime : OneAtATime installation selfProxy sent
    [(message (to0xHexStr [1]),first.1), (message (addresses.toChecksum [1]),second.1)]
    second.2.2.1 := by
  have hfirst : OneAtATime installation selfProxy sent ([] ++ [(message (to0xHexStr [1]),first.1)])
      first.2.2.1 :=
    .task .nil (List.mem_singleton_self _) ⟨[],rfl⟩ (taken_alone (by decide +kernel))
  exact .task hfirst (by decide +kernel) ⟨[],rfl⟩ (taken_alone (by decide +kernel))

theorem first_downloads : Downloads first.1 :=
  ⟨_,_,_,List.mem_cons_of_mem _ (List.mem_cons_of_mem _ List.mem_cons_self),.inl ⟨_,_,_,rfl⟩⟩

theorem selfProxy_chase_ends :
    chased.2.threads.length = 2 ∧ chased.2.threads.length ≤ 3 ∧
      (∀ run : ℕ → WorkersConfig database,
        run 0 = (system database installation selfProxy).initial (World.empty database)
          [.getContractMetadata (message (to0xHexStr [1]))] →
        ¬∀ n, (system database installation selfProxy).Progress (fun move => ∃ key, move = .expire key)
          (run n) (run (n+1))) ∧
      ¬Downloads second.1 := by
  have hkey : ((message (to0xHexStr [1])).key installation).1 = [1] :=
    addresses.toBytes_to0xHexStr [1]
  obtain ⟨htasks,hends,honce⟩ := chase_terminates_and_downloads_once installation {[1]}
    (selfProxy_closed _) (w := World.empty database) (fun _ _ _ h => nomatch h) rfl
    (by rw [hkey]; exact Finset.mem_singleton_self _)
  refine ⟨by decide +kernel,htasks _ _ (play_run player _ _),hends,?_⟩
  obtain ⟨hpair,-⟩ := List.pairwise_cons.mp (honce _ _ selfProxy_oneAtATime)
  exact hpair _ (List.mem_singleton_self _) rfl rfl rfl first_downloads

end Examples
end SafeDecoder.ProxyChase
