import SafeDecoder.Worker.Marks

/-! # Downloads under a discipline

`get_contract_metadata_task` from the check to the message for an implementation.
A task that returns leaves its contract above the floor, and one that finds
nothing surprising returns.
-/
namespace SafeDecoder.Worker

variable {pg : Postgres} {inst : Installation} {floor : ContractKey → ℕ} {known : String → Prop}

section Tasks
variable {γ : Type}

/-- Rows above their floor stay there; `extra` is what is kept besides. -/
def marks (inst : Installation) (floor : ContractKey → ℕ) (extra : Discipline (World pg × γ)) :
    Discipline (World pg × γ) where
  inv := fun s => Floored inst floor s.1 ∧ extra.inv s
  rely := fun i s t => Grows floor s.1 t.1 ∧ extra.rely i s t
  guar := fun i s t => Grows floor s.1 t.1 ∧ extra.guar i s t
  rely_refl := fun i s => ⟨Grows.refl s.1,extra.rely_refl i s⟩
  rely_trans := fun i _ _ _ h h' => ⟨h.1.trans h'.1,extra.rely_trans i h.2 h'.2⟩

theorem marks_shared {extra : Discipline (World pg × γ)} (h : extra.Shared) :
    (marks inst floor extra).Shared := fun hij hg => ⟨hg.1,h hij hg.2⟩

def Message.key (inst : Installation) (m : Message) : ContractKey :=
  (inst.addresses.toBytes m.address,m.chainId)

/-- What the rest of the discipline has to tolerate: only messages that are sent
matter to it. The database knows none but the `known` sources. -/
structure Tolerates (floor : ContractKey → ℕ) (known : String → Prop)
    (extra : Discipline (World pg × γ)) (i : ℕ) (exec : Semantics pg γ)
    (Passed : World pg × γ → Prop) : Prop where
  quiet : ∀ {s l c r t l'}, exec s l c r t l' → (∀ m', c ≠ .send m') → t.2 = s.2
  indifferent : ∀ s w', extra.inv s → Grows floor s.1 w' → w'.queue = s.1.queue →
    extra.inv (w',s.2) ∧ extra.guar i s (w',s.2)
  passed : ∀ s t, Passed s → Grows floor s.1 t.1 → extra.rely i s t → Passed t
  passed_own : ∀ s w', Passed s → Grows floor s.1 w' → Passed (w',s.2)
  knows : ∀ s name, extra.inv s → s.1.db.getAbiSource name ≠ none → known name

/-- A call that holds the row `c` of the contract `k`. -/
structure Holds (floor : ContractKey → ℕ) (k : ContractKey) (Passed : World pg × γ → Prop)
    (c : ContractRow) (s : World pg × γ) : Prop where
  le : floor k ≤ c.fetchRetries
  row : s.1.contract k ≠ none
  abi : c.abiId.isSome → refusedBy (s.1.contract k) (floor k)
  passed : Passed s

/-- The explorers and Postgres do with a document what the task is prepared for. -/
def Calm (pg : Postgres) (known : String → Prop) (m : EnhancedContractMetadata) : Prop :=
  fitsBigInt m.chainId ∧ ∀ metadata source, m.metadata = some metadata → m.source = some source →
    known source.value → metadata.abi.truthy → Storable pg metadata

def ProcessOutcome (floor : ContractKey → ℕ) (known : String → Prop) (m : EnhancedContractMetadata)
    (Passed : World pg × γ → Prop) : Except PyError Bool → World pg × γ → DbSession → Prop
  | .ok _, s, l => l = active ∧
    refusedBy (s.1.contract (m.address,m.chainId)) (floor (m.address,m.chainId)) ∧ Passed s
  | .error _, _, _ => ¬Calm pg known m

section Process
variable {extra : Discipline (World pg × γ)} {i : ℕ} {exec : Semantics pg γ}
  {Passed : World pg × γ → Prop} {m : EnhancedContractMetadata}

/-- A write of the task itself, seen by the rest of the discipline. -/
theorem Tolerates.own (h : Tolerates floor known extra i exec Passed) {s : World pg × γ} {w' : World pg}
    (hi : (marks inst floor extra).inv s) (hw : Floored inst floor w' ∧ Grows floor s.1 w')
    (hq : w'.queue = s.1.queue) :
    (marks inst floor extra).inv (w',s.2) ∧ (marks inst floor extra).guar i s (w',s.2) := by
  obtain ⟨hinv,hguar⟩ := h.indifferent s w' hi.2 hw.2 hq
  exact ⟨⟨hw.1,hinv⟩,hw.2,hguar⟩

theorem Holds.own {k : ContractKey} {c : ContractRow} {s : World pg × γ}
    (h : Tolerates floor known extra i exec Passed) (hs : Holds floor k Passed c s) {w' : World pg}
    (hw : Grows floor s.1 w') : Holds floor k Passed c (w',s.2) :=
  ⟨hs.le,hw.contract k hs.row,fun hc => hw.refused k _ le_rfl (hs.abi hc),
    h.passed_own s w' hs.passed hw⟩

/-- After its last write the contract is above the floor. -/
theorem refusedBy_updateContract {w : World pg} {k : ContractKey} {changes : ContractChanges}
    (hrow : w.contract k ≠ none) {n : ℕ} (hnew : (∃ v, changes.fetchRetries = some v ∧ n < v) ∨
      changes.abiId.isSome ∨ changes.fetchRetries = none ∧ refusedBy (w.contract k) n) :
    refusedBy ((w.updateContract k changes).contract k) n := by
  obtain ⟨c,hc⟩ := Option.ne_none_iff_exists'.mp hrow
  rw [contract_updateContract, if_pos rfl, hc, Option.map_some, refusedBy_some]
  rcases hnew with ⟨v,hv,hlt⟩ | hid | ⟨hr,hk⟩
  · simp [ContractChanges.apply, hv, hlt]
  · obtain ⟨id,hid⟩ := Option.isSome_iff_exists.mp hid
    simp [ContractChanges.apply, hid]
  · rw [hc, refusedBy_some] at hk
    rcases hk with hk | hk
    · simp [ContractChanges.apply, hr, hk]
    · right
      cases h : changes.abiId <;> simp [ContractChanges.apply, h, hk]

theorem Tolerates.processKeeps (h : Tolerates floor known extra i exec Passed) :
    ProcessKeeps (marks inst floor extra) i exec m Passed
      (Holds floor (m.address,m.chainId) Passed) (ProcessOutcome floor known m Passed) where
  stays_contract := fun _ _ _ hr _ => hr.1.contract _
  stays_abi := fun _ _ j r _ hr _ => hr.1.abi j r
  pre := fun s t hs hr _ => h.passed s t hs hr.1 hr.2
  held := fun c s t hs hr _ =>
    ⟨hs.le,hr.1.contract _ hs.row,fun hc => hr.1.refused _ _ le_rfl (hs.abi hc),
      h.passed s t hs.passed hr.1 hr.2⟩
  create := by
    intro t hfresh hinv hpre _ g' he
    obtain rfl : g' = t.2 := h.quiet he (by simp)
    have hw := hinv.1.addContract hfresh
    have hkey : (t.1.newContract m.address m.chainId {}).key = (m.address,m.chainId) := rfl
    refine ⟨h.own hinv hw rfl,?_,?_,(nomatch ·),h.passed_own t _ hpre hw.2⟩
    · have habsent := hinv.1.absent _ ((contract_eq_none t.1).mpr hfresh.1)
      rw [hkey] at habsent
      exact habsent.le.trans (Nat.zero_le _)
    · rw [contract_addContract, hkey, if_pos rfl]
      simp
  load := by
    intro t c hinv hpre hc
    refine ⟨hinv.1.le _ c hc,by rw [hc]; simp,fun habi => ?_,hpre⟩
    rw [hc, refusedBy_some]
    exact .inr habi
  fail := by
    intro t c hinv hc hkey _ g' he
    obtain rfl : g' = t.2 := h.quiet he (by simp)
    rw [hkey]
    have hlt : floor (m.address,m.chainId) < c.fetchRetries + 1 := Nat.lt_succ_of_le hc.le
    have hw := hinv.1.updateContract (m.address,m.chainId)
      { fetchRetries := some (c.fetchRetries + 1) } fun v hv => by
        rw [← Option.some.inj hv]
        exact hlt
    refine ⟨h.own hinv hw rfl,fun u hu _ => ⟨rfl,?_,?_⟩⟩
    · exact hu.1.refused _ _ le_rfl (refusedBy_updateContract hc.row (.inl ⟨_,rfl,hlt⟩))
    · exact h.passed _ u (h.passed_own t _ hc.passed hw.2) hu.1 hu.2
  storeAbi := by
    intro t c metadata source hfresh hinv hc _ g' he
    obtain rfl : g' = t.2 := h.quiet he (by simp)
    have hw := hinv.1.addAbi source.id 0 hfresh
    exact ⟨h.own hinv hw rfl,hc.own h hw.2⟩
  store := by
    intro t c metadata source abi changes hinv hc hkey _ _ hchanges g' he
    obtain rfl : g' = t.2 := h.quiet he (by simp)
    rw [hkey]
    have hretries : changes.fetchRetries = none := by
      rcases hchanges with rfl | rfl <;> rfl
    have habi : changes.abiId.isSome ∨ c.abiId.isSome := by
      rcases hchanges with rfl | rfl
      · exact .inl rfl
      · by_cases hid : some abi.id = c.abiId
        · exact .inr (by rw [← hid]; rfl)
        · exact .inl (by simp [ContractChanges.since, metadataChanges, hid])
    have hw := hinv.1.updateContract (m.address,m.chainId) changes fun v hv => by
      rw [hretries] at hv
      cases hv
    refine ⟨h.own hinv hw rfl,fun u hu _ => ⟨rfl,?_,?_⟩⟩
    · refine hu.1.refused _ _ le_rfl (refusedBy_updateContract hc.row (.inr ?_))
      exact habi.imp_right fun hid => ⟨hretries,hc.abi hid⟩
    · exact h.passed _ u (h.passed_own t _ hc.passed hw.2) hu.1 hu.2
  error := by
    rintro t l _ (hfits | ⟨u,metadata,row,hu,ha,hno⟩) hcalm
    · exact hfits hcalm.1
    · obtain ⟨hm,ht,source,hs,hrow⟩ := acceptedAbi_eq_some ha
      exact hno (hcalm.2 metadata source hm hs (h.knows u _ hu.2 (by simp [hrow])) ht)

end Process

section Task
variable {extra : Discipline (World pg × γ)} {i : ℕ} {exec : Semantics pg γ} {explorers : Explorers}
  {Pre Passed : World pg × γ → Prop} {m : Message}

/-- Nothing that is answered about a contract surprises the task. -/
structure CalmFor (pg : Postgres) (known : String → Prop) (explorers : Explorers)
    (k : ContractKey) : Prop where
  fits : fitsBigInt k.2
  caught : ∀ client e, explorers client k.1 k.2 (.error e) → isClientFailure e
  storable : ∀ client metadata, explorers client k.1 k.2 (.ok (some metadata)) →
    known client.value → metadata.abi.truthy → Storable pg metadata

/-- A task that returns leaves its contract refused, at the floor if it did not ask. -/
def TaskOutcome (inst : Installation) (floor : ContractKey → ℕ) (known : String → Prop)
    (explorers : Explorers) (m : Message) : Except PyError Unit → World pg × γ → Prop
  | .ok _, s =>
    refusedBy (s.1.contract (m.key inst)) (if m.skipAttemptDownload then floor (m.key inst) else 0)
  | .error _, _ => ¬CalmFor pg known explorers (m.key inst)

/-- What `extra` has to tolerate of a whole task. `Passed` is known once the check
has let the task through. -/
structure TaskTolerates (inst : Installation) (floor : ContractKey → ℕ) (known : String → Prop)
    (explorers : Explorers) (extra : Discipline (World pg × γ)) (i : ℕ) (exec : Semantics pg γ) (m : Message)
    (Pre Passed : World pg × γ → Prop) : Prop extends Tolerates floor known extra i exec Passed where
  pre : ∀ s t, Pre s → Grows floor s.1 t.1 → extra.rely i s t → Pre t
  check : ∀ s, Pre s → m.skipAttemptDownload ∨ ¬refusedBy (s.1.contract (m.key inst)) 0 → Passed s
  send : ∀ s metadata implementation client, Floored inst floor s.1 → extra.inv s → Passed s →
    refusedBy (s.1.contract (m.key inst)) (floor (m.key inst)) →
    explorers client (m.key inst).1 m.chainId (.ok (some metadata)) →
    metadata.implementation = some implementation → implementation ≠ nullAddress →
    Writes extra i exec s
      (.send { address := inst.addresses.toChecksum implementation, chainId := m.chainId }) ()
      (s.1.send { address := inst.addresses.toChecksum implementation, chainId := m.chainId })
      fun _ => True

theorem TaskTolerates.sendImplementation
    (hR : Regular explorers (marks inst floor extra) i exec)
    (h : TaskTolerates inst floor known explorers extra i exec m Pre Passed)
    {e : EnhancedContractMetadata} {s : World pg × γ} (hpassed : Passed s)
    (hmarked : refusedBy (s.1.contract (m.key inst)) (floor (m.key inst)))
    (hfrom : ∀ metadata, e.metadata = some metadata →
      ∃ client, e.source = some client ∧ explorers client (m.key inst).1 m.chainId (.ok (some metadata))) :
    Meets (marks inst floor extra) i exec (fun r s _ => TaskOutcome inst floor known explorers m r s)
      (Worker.sendImplementation m.chainId (getProxyImplementationAddress inst.addresses e)) s active := by
  have hend : ∀ t : World pg × γ, refusedBy (t.1.contract (m.key inst)) (floor (m.key inst)) →
      TaskOutcome inst floor known explorers m (.ok ()) t := by
    intro t ht
    refine refusedBy_mono ht ?_
    split
    · exact le_rfl
    · exact Nat.zero_le _
  cases hi : getProxyImplementationAddress inst.addresses e with
  | none => exact Meets.ret fun t ht _ => hend t (ht.1.refused _ _ le_rfl hmarked)
  | some text =>
    simp only [getProxyImplementationAddress, Option.map_eq_some_iff, Option.bind_eq_some_iff,
      Option.filter_eq_some_iff, decide_eq_true_eq] at hi
    obtain ⟨implementation,⟨metadata,hm,himpl,hnull⟩,rfl⟩ := hi
    obtain ⟨client,_,hclient⟩ := hfrom metadata hm
    refine hR.send fun t ht hit g' he => ?_
    have hmarked' := ht.1.refused _ _ le_rfl hmarked
    obtain ⟨⟨hinv,hguar⟩,_⟩ := h.send t metadata implementation client hit.1 hit.2
      (h.passed s t hpassed ht.1 ht.2) hmarked' hclient himpl hnull g' he
    have hw := hit.1.of_queue (t.1.queue ++
      [{ address := inst.addresses.toChecksum implementation, chainId := m.chainId }])
    refine ⟨⟨⟨hw.1,hinv⟩,hw.2,hguar⟩,Meets.ret fun u hu _ => hend u ?_⟩
    exact hu.1.refused _ _ le_rfl (hw.2.refused _ _ le_rfl hmarked')

theorem TaskTolerates.download (hR : Regular explorers (marks inst floor extra) i exec)
    (h : TaskTolerates inst floor known explorers extra i exec m Pre Passed) {s : World pg × γ}
    (hpassed : Passed s) :
    Meets (marks inst floor extra) i exec (fun r s _ => TaskOutcome inst floor known explorers m r s)
      (downloadContractMetadata inst m.address m.chainId) s active := by
  have hrest : ∀ (t : World pg × γ) (e : EnhancedContractMetadata), Passed t →
      (e.address,e.chainId) = m.key inst →
      (∀ metadata, e.metadata = some metadata →
        ∃ client, e.source = some client ∧ explorers client (m.key inst).1 m.chainId (.ok (some metadata))) →
      Meets (marks inst floor extra) i exec (fun r s _ => TaskOutcome inst floor known explorers m r s)
        ((processContractMetadata e).bind fun result => do
          if result then issue (.redisDelete (.contract m.address.toLower))
          Worker.sendImplementation m.chainId (getProxyImplementationAddress inst.addresses e)) t active := by
    intro t e ht hkey hfrom
    obtain ⟨haddress,hchain⟩ := Prod.mk.inj hkey
    refine Meets.bind (h.toTolerates.processKeeps.meets hR ht) (fun result u l hiu hq => ?_)
      fun err u l hiu hq hcalm => hq ⟨?_,fun metadata source hm hs => ?_⟩
    · obtain ⟨rfl,hmarked,hpassed⟩ := hq
      rw [haddress, hchain] at hmarked
      cases result with
      | false => exact h.sendImplementation hR hpassed hmarked hfrom
      | true =>
        refine hR.redisDelete fun v hv hiv g' he => ?_
        obtain rfl : g' = v.2 := h.quiet he (by simp)
        have hw := hiv.1.setRedis (.contract m.address.toLower) none fun _ _ _ => .inl rfl
        refine ⟨h.own hiv hw rfl,h.sendImplementation hR ?_ ?_ hfrom⟩
        · exact h.passed_own v _ (h.passed u v hpassed hv.1 hv.2) hw.2
        · exact hw.2.refused _ _ le_rfl (hv.1.refused _ _ le_rfl hmarked)
    · rw [hchain]
      exact hcalm.fits
    · obtain ⟨client,hclient,hanswer⟩ := hfrom metadata hm
      obtain rfl : client = source := Option.some.inj (hclient.symm.trans hs)
      exact hcalm.storable client metadata hanswer
  refine hR.askClients (fun he => h.quiet he (by simp)) (fun t metadata client ht _ hc => ?_)
    (fun t ht _ => ?_) fun t e client _ _ hc he hcalm => ?_
  · refine hrest t ⟨_,some metadata,some client,m.chainId⟩ (h.passed s t hpassed ht.1 ht.2) rfl
      fun metadata' hm => ⟨client,rfl,?_⟩
    rw [← Option.some.inj hm]
    exact hc
  · exact hrest t ⟨_,none,none,m.chainId⟩ (h.passed s t hpassed ht.1 ht.2) rfl
      fun _ hm => nomatch hm
  · rw [hcalm.caught client e hc] at he
    cases he

/-- The rule of `get_contract_metadata_task` -/
theorem TaskTolerates.meets (hR : Regular explorers (marks inst floor extra) i exec)
    (h : TaskTolerates inst floor known explorers extra i exec m Pre Passed) {s : World pg × γ}
    (hpre : Pre s) :
    Meets (marks inst floor extra) i exec (fun r s _ => TaskOutcome inst floor known explorers m r s)
      (getContractMetadataTask inst m) s active := by
  unfold getContractMetadataTask
  cases hskip : m.skipAttemptDownload with
  | true => exact h.download hR (h.check s hpre (.inl hskip))
  | false =>
    have hrefused : ∀ t : World pg × γ, refusedBy (t.1.contract (m.key inst)) 0 →
        Meets (marks inst floor extra) i exec (fun r s _ => TaskOutcome inst floor known explorers m r s)
          (.ret ()) t active := by
      refine fun t ht => Meets.ret fun u hu _ => ?_
      rw [TaskOutcome, hskip]
      exact hu.1.refused _ _ (Nat.zero_le _) ht
    change Meets _ _ _ _ (Proc.bind (shouldAttemptDownload inst m.address m.chainId 0) _) s active
    rw [shouldAttemptDownload_bind]
    refine hR.redisGet fun t ht hit => ?_
    cases hcached : t.1.redis (.shouldAttemptDownload m.address m.chainId 0) with
    | some v =>
      obtain ⟨rfl,hmarked⟩ := hit.1.refusals m.address m.chainId v hcached
      exact hrefused t hmarked
    | none =>
      have hpret := h.pre s t hpre ht.1 ht.2
      by_cases hfits : fitsBigInt m.chainId
      · refine hR.selectContract hfits fun u hu hiu => ?_
        by_cases hr : refusedBy (u.1.contract (m.key inst)) 0
        · change Meets _ _ _ _ (if refusedBy (u.1.contract (m.key inst)) 0 = true then _ else _) u active
          rw [if_pos hr]
          refine hR.redisSet fun v hv hiv g' he => ?_
          obtain rfl : g' = v.2 := h.quiet he (by simp)
          have hrv := hv.1.refused _ _ (Nat.zero_le _) hr
          have hw := hiv.1.setRedis (.shouldAttemptDownload m.address m.chainId 0) (some 0)
            fun _ _ heq => by
              cases heq
              exact .inr ⟨rfl,hrv⟩
          exact ⟨h.own hiv hw rfl,hrefused _ (hw.2.refused _ _ (Nat.zero_le _) hrv)⟩
        · change Meets _ _ _ _ (if refusedBy (u.1.contract (m.key inst)) 0 = true then _ else _) u active
          rw [if_neg hr]
          exact h.download hR (h.check u (h.pre t u hpret hu.1 hu.2) (.inr hr))
      · refine hR.selectContract_unfit hfits fun u hu _ => ?_
        exact Meets.raise fun v hv _ hcalm => hfits hcalm.fits

end Task
section Jobs
variable {extra : Discipline (World pg × γ)} {i : ℕ} {exec : Semantics pg γ} {explorers : Explorers}

/-- The rest of the discipline takes no note of what the task with number `i` does. -/
structure Indifferent (floor : ContractKey → ℕ) (known : String → Prop)
    (extra : Discipline (World pg × γ)) (i : ℕ) (exec : Semantics pg γ) : Prop where
  quiet : ∀ {s l c r t l'}, exec s l c r t l' → t.2 = s.2
  kept : ∀ s w', extra.inv s → Grows floor s.1 w' →
    extra.inv (w',s.2) ∧ extra.guar i s (w',s.2)
  knows : ∀ s name, extra.inv s → s.1.db.getAbiSource name ≠ none → known name

theorem Indifferent.tolerates (h : Indifferent floor known extra i exec) (m : Message) :
    TaskTolerates inst floor known explorers extra i exec m (fun _ => True) fun _ => True where
  quiet := fun he _ => h.quiet he
  indifferent := fun s w' hs hg _ => h.kept s w' hs hg
  passed := fun _ _ _ _ _ => trivial
  passed_own := fun _ _ _ _ => trivial
  knows := h.knows
  pre := fun _ _ _ _ _ => trivial
  check := fun _ _ _ => trivial
  send := by
    intro s metadata implementation client _ hs _ _ _ _ _ g' he
    obtain rfl : g' = s.2 := h.quiet he
    exact ⟨h.kept s _ hs (Grows.of_db rfl),trivial⟩

theorem Indifferent.issues (hR : Regular explorers (marks inst floor extra) i exec)
    (h : Indifferent floor known extra i exec) {x : Task Unit} (hx : Issues (Harmless floor) x)
    (s : World pg × γ) (l : DbSession) :
    Meets (marks inst floor extra) i exec (fun _ _ _ => True) x s l := by
  refine hx.meets (fun c hc t l r t' l' ht he => ?_) s l
  obtain ⟨answers,hr,_⟩ := hR.acts he
  obtain ⟨hfloored,hgrows⟩ := harmless_respond hc ht.1 hr
  obtain ⟨w',g'⟩ := t'
  obtain rfl : g' = t.2 := h.quiet he
  obtain ⟨hinv,hguar⟩ := h.kept t w' ht.2 hgrows
  exact ⟨⟨hfloored,hinv⟩,hgrows,hguar⟩

def JobOutcome (inst : Installation) (floor : ContractKey → ℕ) (known : String → Prop)
    (explorers : Explorers) : Job → Except PyError Unit → World pg × γ → Prop
  | .getContractMetadata m, r, s => TaskOutcome inst floor known explorers m r s
  | _, _, _ => True

/-- Every task takes nothing back. -/
theorem Indifferent.job_meets (hR : Regular explorers (marks inst floor extra) i exec)
    (h : Indifferent floor known extra i exec) (job : Job) (s : World pg × γ) :
    Meets (marks inst floor extra) i exec
      (fun r s _ => JobOutcome inst floor known explorers job r s) (job.program inst) s active := by
  cases job with
  | getContractMetadata m => exact (h.tolerates m).meets hR trivial
  | processContractMetadata m =>
    have hkeeps : ProcessKeeps (marks inst floor extra) i exec m (fun _ => True)
        (Holds floor (m.address,m.chainId) fun _ => True) (ProcessOutcome floor known m fun _ => True) :=
      (@Indifferent.tolerates _ inst _ _ _ _ _ _ explorers h ⟨"",0,true⟩).toTolerates.processKeeps
    refine Meets.bind (hkeeps.meets hR trivial) (fun _ _ _ _ _ => ?_) fun _ _ _ _ _ => trivial
    exact Meets.ret fun _ _ _ => trivial
  | getMissingContractMetadata =>
    exact h.issues hR ((Issues.perform trivial).bind fun _ => issues_sendDownloads _) s active
  | updateProxies =>
    exact h.issues hR ((Issues.perform trivial).bind fun _ => issues_sendDownloads _) s active
  | updateSafeContractsInfo => exact h.issues hR (issues_updateSafeContractsInfo _) s active
  | createSafeContractsForNewChains chainId =>
    exact h.issues hR (issues_createSafeContractsTask chainId) s active
  | createSafeContracts chainId =>
    refine h.issues hR ?_ s active
    exact ((issues_createSafeContracts inst chainId 0 _).mono harmless_of_onContracts).bind
      fun _ => trivial

end Jobs
end Tasks
end SafeDecoder.Worker
