import Mathlib.Data.Finset.Basic
import Mathlib.Data.Finset.Dedup
import SafeDecoder.Worker.Events

/-! # Checking a chain

`exists_safe_contracts` compares a number of rows with a number of addresses, and
`safe_contracts_exist` remembers a positive answer as long as its process lives. Rows have
different keys and are never deleted, so neither of the two says too much.
-/
namespace SafeDecoder.ChainChecks
open Worker Machine

variable {pg : Postgres}

section Chains
variable (inst : Installation) (db : Db) (chainId : Int)

/-- The address has a row on the chain. -/
def Deployed (address : Bytes) : Prop :=
  ∃ c ∈ db.contracts, c.address = address ∧ c.chainId = chainId

/-- Every default deployment has a row on the chain. -/
def Complete : Prop :=
  ∀ d ∈ inst.deployments, Deployed db chainId (inst.addresses.toBytes d.contractAddress)

variable {inst db chainId}

theorem complete_iff : Complete inst db chainId ↔ ∀ a ∈ Events.safeAddresses inst, Deployed db chainId a := by
  simp [Complete, Events.safeAddresses]

theorem deployed_iff_contract {w : World pg} {address : Bytes} :
    Deployed w.db chainId address ↔ w.contract (address,chainId) ≠ none := by
  rw [Ne, contract_eq_none, not_not, Deployed]
  simp [ContractRow.key]

theorem Deployed.of_persists {w w' : World pg} {address : Bytes} (h : Deployed w.db chainId address)
    (hw : Persists w w') : Deployed w'.db chainId address :=
  deployed_iff_contract.mpr (hw.contract _ (deployed_iff_contract.mp h))

theorem Complete.of_persists {w w' : World pg} (h : Complete inst w.db chainId) (hw : Persists w w') :
    Complete inst w'.db chainId := fun d hd => (h d hd).of_persists hw

end Chains

section Counting
variable {α β : Type} [BEq β] [LawfulBEq β] {f : α → β} {l : List α} {S : List β}

/-- Where `f` takes no value twice, as many hits as values looked for means that none is missed. -/
theorem countP_mem_eq_length (hl : (l.map f).Nodup) (hS : S.Nodup) :
    l.countP (fun a => f a ∈ S) = S.length ↔ S ⊆ l.map f := by
  have hcount : l.countP (fun a => f a ∈ S) = ((l.map f).filter fun b => b ∈ S).length := by
    rw [← List.countP_eq_length_filter, List.countP_map]
    rfl
  have hhits : List.Subperm ((l.map f).filter fun b => b ∈ S) S := by
    apply List.subperm_of_subset (hl.filter _)
    intro b hb
    simpa using (List.mem_filter.mp hb).2
  rw [hcount]
  constructor
  · intro h b hb
    have hperm := hhits.perm_of_length_le h.ge
    exact List.mem_of_mem_filter (hperm.mem_iff.mpr hb)
  · intro h
    apply Nat.le_antisymm hhits.length_le
    apply (List.subperm_of_subset hS _).length_le
    intro b hb
    simp [h hb, hb]

/-- The addresses of one chain differ. -/
theorem nodup_addresses (db : Db) (chainId : Int) :
    ((db.contracts.filter fun c => c.chainId = chainId).map ContractRow.address).Nodup := by
  have hkeys := (List.filter_sublist (p := fun c : ContractRow => c.chainId = chainId)
    (l := db.contracts)).map ContractRow.key |>.nodup db.contractKeys
  rw [List.nodup_map_iff_inj_on (List.Nodup.of_map _ hkeys)]
  intro c hc c' hc' heq
  have hchain : c.chainId = chainId := by simpa using (List.mem_filter.mp hc).2
  have hchain' : c'.chainId = chainId := by simpa using (List.mem_filter.mp hc').2
  apply List.inj_on_of_nodup_map hkeys hc hc'
  simp [ContractRow.key, heq, hchain, hchain']

/-- The count is the number of addresses exactly when each of them has a row. -/
theorem existsSafeContracts_iff {db : Db} {chainId : Int} {addresses : List Bytes}
    (hset : addresses.Nodup) (hsome : addresses ≠ []) (hfits : fitsBigInt chainId) :
    Events.existsSafeContracts db chainId addresses = .ok true ↔
      ∀ a ∈ addresses, Deployed db chainId a := by
  have hcount := countP_mem_eq_length (nodup_addresses db chainId) hset
  rw [List.countP_filter] at hcount
  have hcomm : (fun c : ContractRow => decide (c.chainId = chainId) && decide (c.address ∈ addresses)) =
      fun c => decide (c.address ∈ addresses) && decide (c.chainId = chainId) := by
    funext c
    exact Bool.and_comm _ _
  rw [Events.existsSafeContracts, if_neg (by simpa using hsome), if_pos hfits, hcomm, Except.ok.injEq,
    beq_iff_eq, hcount]
  apply forall₂_congr
  intro a _
  simp only [List.mem_map, List.mem_filter, decide_eq_true_eq, Deployed]
  constructor
  · rintro ⟨c,⟨hc,hchain⟩,haddress⟩
    exact ⟨c,hc,haddress,hchain⟩
  · rintro ⟨c,hc,haddress,hchain⟩
    exact ⟨c,⟨hc,hchain⟩,haddress⟩

/-- A chain that does not fit the column has no rows, and the query raises. -/
theorem existsSafeContracts_iff_of_rows {w : World pg} {chainId : Int} {addresses : List Bytes}
    (hset : addresses.Nodup) (hsome : addresses ≠ []) :
    Events.existsSafeContracts w.db chainId addresses = .ok true ↔
      ∀ a ∈ addresses, Deployed w.db chainId a := by
  by_cases hfits : fitsBigInt chainId
  · exact existsSafeContracts_iff hset hsome hfits
  · constructor
    · exact fun h => absurd (Events.fits_of_existsSafeContracts h) hfits
    · intro h
      obtain ⟨a,ha⟩ := List.exists_mem_of_ne_nil _ hsome
      obtain ⟨c,hc,_,rfl⟩ := h a ha
      exact absurd (w.chainIdsFit c hc) hfits

theorem complete_of_existsSafeContracts {inst : Installation} {w : World pg} {chainId : Int}
    (h : Events.existsSafeContracts w.db chainId (Events.safeAddresses inst) = .ok true) :
    Complete inst w.db chainId := by
  have hsome : Events.safeAddresses inst ≠ [] := by
    intro hnil
    rw [hnil] at h
    cases h
  exact complete_iff.mpr ((existsSafeContracts_iff_of_rows (List.nodup_dedup _) hsome).mp h)

end Counting

section Model

/-- What a call of `safe_contracts_exist` waits for, beside the commands of the workers. A process
has one `_safe_contracts_cache`. -/
inductive CheckCommand
  | worker (c : Command)
  | existsSafeContracts (chainId : Int) (addresses : List Bytes)
  | isCached (process : ℕ) (chainId : Int)
  | addToCache (process : ℕ) (chainId : Int)

@[reducible] def CheckCommand.Answer : CheckCommand → Type
  | worker c => c.Answer
  | existsSafeContracts _ _ => Bool
  | isCached _ _ => Bool
  | addToCache _ _ => Unit

/-- The database, Redis and the queue, with the caches of the processes. -/
structure Site (pg : Postgres) where
  world : World pg
  safeContractsCache : ℕ → Finset Int

/-- The processes as they start. -/
def Site.start (w : World pg) : Site pg := ⟨w,fun _ => ∅⟩

def Site.setCache (s : Site pg) (process : ℕ) (chains : Finset Int) : Site pg :=
  { s with safeContractsCache := Function.update s.safeContractsCache process chains }

/-- A cache is read and written without waiting; only the query goes to the database. -/
def CheckExec (explorers : Explorers) (s : Site pg) (l : DbSession) :
    (c : CheckCommand) → Except PyError c.Answer → Site pg → DbSession → Prop
  | .worker c, r, s', l' =>
    Exec explorers s.world l c r s'.world l' ∧ s'.safeContractsCache = s.safeContractsCache
  | .existsSafeContracts chainId addresses, r, s', l' =>
    r = (if l.failed then .error pendingRollback
      else Events.existsSafeContracts s.world.db chainId addresses) ∧ s' = s ∧ l' = l
  | .isCached process chainId, r, s', l' =>
    r = .ok (decide (chainId ∈ s.safeContractsCache process)) ∧ s' = s ∧ l' = l
  | .addToCache process chainId, r, s', l' =>
    r = .ok () ∧ s' = s.setCache process (insert chainId (s.safeContractsCache process)) ∧ l' = l

abbrev Check := Proc CheckCommand CheckCommand.Answer PyError

def ofTask {α : Type} : Worker.Task α → Check α
  | .ret a => .ret a
  | .raise e => .raise e
  | .call c next => .call (.worker c) fun r => ofTask (next r)

/-- `safe_contracts_exist` in one of the processes -/
def safeContractsExist (inst : Installation) (process : ℕ) (chainId : Int) : Check Bool := do
  if ← Proc.perform (.isCached process chainId) then return true
  else
    let exist ← Proc.perform (.existsSafeContracts chainId (Events.safeAddresses inst))
    if exist then Proc.perform (CheckCommand.addToCache process chainId)
    return exist

inductive Call
  | safeContractsExist (process : ℕ) (chainId : Int)
  | job (job : Job)

def Call.program (inst : Installation) : Call → Check (Option Bool)
  | safeContractsExist process chainId => do
    return some (← ChainChecks.safeContractsExist inst process chainId)
  | job j => do
    ofTask (j.program inst)
    return none

/-- Calls start at any time, and a process that is started again has forgotten everything. -/
inductive SiteMove
  | worker (move : Move)
  | call (call : Call)
  | restart (process : ℕ)

inductive SiteMoves : SiteMove → Site pg → Site pg → List Call → Prop
  | worker {move : Move} {s : Site pg} {w' : World pg} {jobs : List Job}
      (h : Moves (fun _ => True) move s.world w' jobs) :
      SiteMoves (.worker move) s { s with world := w' } (jobs.map .job)
  | call (call : Call) (s : Site pg) : SiteMoves (.call call) s s [call]
  | restart (process : ℕ) (s : Site pg) : SiteMoves (.restart process) s (s.setCache process ∅) []

def checks (pg : Postgres) (inst : Installation) (explorers : Explorers) :
    Machine CheckCommand CheckCommand.Answer PyError (Site pg) DbSession SiteMove Call (Option Bool) where
  exec := CheckExec explorers
  move := SiteMoves
  program := Call.program inst
  session := active

abbrev ChecksConfig (pg : Postgres) :=
  Config CheckCommand CheckCommand.Answer PyError (Site pg) DbSession Call (Option Bool)

abbrev CheckEvent := Event CheckCommand CheckCommand.Answer PyError SiteMove

/-- The count decides for all addresses at once, and no call says of an incomplete chain that
its contracts exist. -/
structure Exact (pg : Postgres) (inst : Installation) (explorers : Explorers) : Prop where
  count : ∀ (w : World pg) (chainId : Int) (addresses : Finset Bytes), addresses.Nonempty →
    (Events.existsSafeContracts w.db chainId addresses.toList = .ok true ↔
      ∀ a ∈ addresses, Deployed w.db chainId a)
  exist : ∀ (w : World pg) (calls : List Call) (tr : List (Site pg × CheckEvent)) (c : ChecksConfig pg),
    (checks pg inst explorers).Run ((checks pg inst explorers).initial (.start w) calls) tr c →
      ∀ th ∈ c.threads, ∀ process chainId, th.label = .safeContractsExist process chainId →
        th.prog = .ret (some true) → Complete inst c.state.world.db chainId

end Model

section Rules
variable {inst : Installation} {explorers : Explorers}

/-- No command deletes a row. -/
theorem respond_persists {c : Command} {w w' : World pg} {l l' : DbSession}
    {answers : ContractSource → Bytes → Int → Except PyError (Option ContractMetadata)}
    {r : Except PyError c.Answer} (h : respond answers w l c = (r,w',l')) : Persists w w' := by
  cases respond_effect h with
  | idle => exact Persists.refl w
  | insertContract => exact Persists.addContract _
  | updateContract key changes => exact Persists.updateContract key changes
  | updateContractInfo => exact Persists.mapContracts _
  | insertAbi => exact Persists.addAbi _
  | _ => exact ⟨fun _ hk => hk,fun _ _ hr => hr⟩

theorem moves_persists {arrivals : Job → Prop} {move : Move} {w w' : World pg} {jobs : List Job}
    (h : Moves arrivals move w w' jobs) : Persists w w' := by
  cases h <;> exact ⟨fun _ hk => hk,fun _ _ hr => hr⟩

/-- Whatever a process remembers is so. -/
def CachesTrue (inst : Installation) (s : Site pg) : Prop :=
  ∀ process, ∀ chainId ∈ s.safeContractsCache process, Complete inst s.world.db chainId

theorem CachesTrue.of_persists {s : Site pg} {w' : World pg} (h : CachesTrue inst s)
    (hw : Persists s.world w') : CachesTrue inst { s with world := w' } :=
  fun process chainId hcached => (h process chainId hcached).of_persists hw

theorem CachesTrue.setCache {s : Site pg} (h : CachesTrue inst s) {process : ℕ} {chains : Finset Int}
    (hchains : ∀ chainId ∈ chains, Complete inst s.world.db chainId) :
    CachesTrue inst (s.setCache process chains) := by
  intro p chainId hcached
  by_cases hp : p = process
  · subst hp
    simp only [Site.setCache, Function.update_self] at hcached
    exact hchains chainId hcached
  · simp only [Site.setCache, Function.update_of_ne hp] at hcached
    exact h p chainId hcached

/-- Rows stay, and what is remembered is true. There is no history to keep. -/
def remembering (inst : Installation) : Discipline (Site pg × Unit) :=
  .uniform (fun s => CachesTrue inst s.1) (fun s t => Persists s.1.world t.1.world)
    (fun s => Persists.refl s.1.world) Persists.trans

def noHistory (_ : Unit) (_ : Site pg) (_ : CheckEvent) : Unit := ()

def Outcome (inst : Installation) : Call → Except PyError (Option Bool) → Site pg × Unit → Prop
  | .safeContractsExist _ chainId, r, s => r = .ok (some true) → Complete inst s.1.world.db chainId
  | .job _, _, _ => True

variable {i : ℕ} {s : Site pg × Unit} {l : DbSession}

theorem worker_keeps {c : Command} {s t : Site pg × Unit} {l l' : DbSession} {r : Except PyError c.Answer}
    (hinv : CachesTrue inst s.1)
    (he : (checks pg inst explorers).recorded noHistory i s l (.worker c) r t l') :
    CachesTrue inst t.1 ∧ Persists s.1.world t.1.world := by
  obtain ⟨⟨⟨answers,hr,_⟩,hcache⟩,_⟩ := he
  obtain ⟨⟨w',cache⟩,_⟩ := t
  obtain rfl : cache = s.1.safeContractsCache := hcache
  have hrows : Persists s.1.world w' := respond_persists hr
  exact ⟨hinv.of_persists hrows,hrows⟩

theorem issues_ofTask {α : Type} (x : Worker.Task α) :
    Issues (fun c => ∃ command, c = .worker command) (ofTask x) := by
  induction x with
  | ret a => trivial
  | raise e => trivial
  | call c next ih => exact ⟨⟨c,rfl⟩,ih⟩

theorem job_meets (j : Job) (s : Site pg × Unit) (l : DbSession) :
    Meets (remembering inst) i ((checks pg inst explorers).recorded noHistory i)
      (fun _ _ _ => True) ((Call.job j).program inst) s l := by
  have hissues := (issues_ofTask (j.program inst)).bind (f := fun _ => (.ret none : Check (Option Bool)))
    fun _ => trivial
  apply hissues.meets
  rintro _ ⟨c,rfl⟩ t l r t' l' hinv he
  exact worker_keeps hinv he

theorem safeContractsExist_meets (process : ℕ) (chainId : Int) (s : Site pg × Unit) (l : DbSession) :
    Meets (remembering inst) i ((checks pg inst explorers).recorded noHistory i)
      (fun r t _ => r = .ok true → Complete inst t.1.world.db chainId)
      (safeContractsExist inst process chainId) s l := by
  apply Meets.call
  rintro t _ hinv r ⟨t',_⟩ l' ⟨⟨rfl,rfl,rfl⟩,_⟩
  refine ⟨⟨hinv,Persists.refl _⟩,?_⟩
  by_cases hcached : chainId ∈ t.1.safeContractsCache process
  · rw [decide_eq_true hcached]
    have hcomplete := hinv process chainId hcached
    exact Meets.ret fun u hu _ _ => hcomplete.of_persists hu
  · rw [decide_eq_false hcached]
    apply Meets.call
    rintro u _ hinv r ⟨u',_⟩ l' ⟨⟨rfl,rfl,rfl⟩,_⟩
    refine ⟨⟨hinv,Persists.refl _⟩,?_⟩
    split
    · exact Meets.raise fun _ _ _ h => nomatch h
    · cases hr : Events.existsSafeContracts u.1.world.db chainId (Events.safeAddresses inst) with
      | error e => exact Meets.raise fun _ _ _ h => nomatch h
      | ok exist =>
        cases exist with
        | false => exact Meets.ret fun _ _ _ h => nomatch h
        | true =>
          have hcomplete := complete_of_existsSafeContracts hr
          apply Meets.call
          rintro v hv hinv r ⟨v',_⟩ l' ⟨⟨rfl,rfl,rfl⟩,_⟩
          have hnow : Complete inst v.1.world.db chainId := hcomplete.of_persists hv
          refine ⟨⟨hinv.setCache ?_,Persists.refl _⟩,Meets.ret fun z hz _ _ => hnow.of_persists hz⟩
          intro n hn
          rcases Finset.mem_insert.mp hn with rfl | hn
          · exact hnow
          · exact hinv process n hn

theorem call_meets (call : Call) (s : Site pg × Unit) (l : DbSession) :
    Meets (remembering inst) i ((checks pg inst explorers).recorded noHistory i)
      (fun r t _ => Outcome inst call r t) (call.program inst) s l := by
  cases call with
  | job j => exact (job_meets j s l).mono fun _ _ _ _ _ => trivial
  | safeContractsExist process chainId =>
    apply (safeContractsExist_meets process chainId s l).bind
    · intro exist t l _ hcomplete
      exact Meets.ret fun u hu _ hr => (hcomplete (by cases hr; rfl)).of_persists hu
    · intro e t l _ _ h
      cases h

theorem admits : (checks pg inst explorers).Admits noHistory (remembering inst) (fun _ _ => True)
    (fun _ call r s _ => Outcome inst call r s) where
  shared := fun _ h => h
  own := fun _ => trivial
  move := by
    intro move s s' labels g h hinv
    cases h with
    | worker h =>
      have hrows := moves_persists h
      exact ⟨hinv.of_persists hrows,fun _ => hrows⟩
    | call => exact ⟨hinv,fun _ => Persists.refl _⟩
    | restart process =>
      exact ⟨hinv.setCache fun _ h => absurd h (Finset.notMem_empty _),fun _ => Persists.refl _⟩
  grows := fun _ _ => trivial
  starts := fun _ _ _ _ _ => call_meets _ _ _

theorem checks_sound {w : World pg} {calls : List Call} {tr : List (Site pg × CheckEvent)}
    {c : ChecksConfig pg}
    (h : (checks pg inst explorers).Run ((checks pg inst explorers).initial (.start w) calls) tr c) :
    (checks pg inst explorers).Sound noHistory (remembering inst) (fun _ _ => True)
      (fun _ call r s _ => Outcome inst call r s) c () := by
  apply h.sound (g := ()) admits
  apply sound_initial
  · exact fun _ _ h => absurd h (Finset.notMem_empty _)
  · trivial
  · exact fun _ _ _ => call_meets _ _ _

end Rules

section Alone
variable {inst : Installation} {explorers : Explorers}

/-- The process remembers what the service of the events does. -/
def Mirrors (s : Site pg) (process : ℕ) (t : Events.EventsState) : Prop :=
  ∀ n, n ∈ s.safeContractsCache process ↔ n ∈ t.safeContractsCache

/-- The call ends like the function that handles an event. -/
def EndsLike (process : ℕ) (s : Site pg) (r : Except PyError Bool) :
    EStateM.Result PyError Events.EventsState Bool → Prop
  | .ok b t => r = .ok b ∧ Mirrors s process t
  | .error e t => r = .error e ∧ Mirrors s process t

/-- A call that nobody disturbs does what it does while an event is handled. -/
theorem safeContractsExist_alone {process : ℕ} {chainId : Int} {s s' : Site pg} {t : Events.EventsState}
    {l' : DbSession} {tr : List (Site pg × CheckEvent)} {y : Check Bool} {r : Except PyError Bool}
    (hcache : Mirrors s process t)
    (h : (checks pg inst explorers).Alone (safeContractsExist inst process chainId) s active tr y s' l')
    (hy : y.outcome? = some r) :
    EndsLike process s' r (Events.safeContractsExist inst s.world.db chainId t) := by
  obtain ⟨_,u,_,_,⟨rfl,hu,rfl⟩,_,h⟩ := h.of_call hy
  rw [hu] at h
  rw [Events.safeContractsExist_eq]
  by_cases hcached : chainId ∈ s.safeContractsCache process
  · rw [if_pos ((hcache chainId).mp hcached)]
    rw [decide_eq_true hcached] at h
    obtain ⟨_,rfl,rfl,_⟩ := h.of_outcome rfl
    cases hy
    exact ⟨rfl,hcache⟩
  · rw [if_neg fun hmem => hcached ((hcache chainId).mpr hmem)]
    rw [decide_eq_false hcached] at h
    obtain ⟨_,u,_,_,⟨rfl,hu,rfl⟩,_,h⟩ := Alone.of_call h hy
    rw [hu] at h
    revert h
    generalize Events.fits_of_existsSafeContracts = hfits
    revert hfits
    cases Events.existsSafeContracts s.world.db chainId (Events.safeAddresses inst) with
    | error e =>
      intro _ h
      obtain ⟨_,rfl,rfl,_⟩ := h.of_outcome rfl
      cases hy
      exact ⟨rfl,hcache⟩
    | ok exist =>
      intro _ h
      cases exist with
      | false =>
        obtain ⟨_,rfl,rfl,_⟩ := h.of_outcome rfl
        cases hy
        exact ⟨rfl,hcache⟩
      | true =>
        obtain ⟨_,_,_,_,⟨rfl,rfl,rfl⟩,_,h⟩ := Alone.of_call h hy
        obtain ⟨_,rfl,rfl,_⟩ := h.of_outcome rfl
        cases hy
        refine ⟨rfl,fun n => ?_⟩
        simp [Site.setCache, Events.EventsState.remember, hcache n]

end Alone

/-- The count and what is remembered of it are exact in every run. -/
theorem checks_exact (pg : Postgres) (inst : Installation) (explorers : Explorers) :
    Exact pg inst explorers where
  count := by
    intro w chainId addresses hsome
    have hne : addresses.toList ≠ [] := hsome.toList_ne_nil
    simpa using existsSafeContracts_iff_of_rows addresses.nodup_toList hne
  exist := by
    intro w calls tr c hrun th hth process chainId hlabel hprog
    obtain ⟨i,hi⟩ := List.getElem?_of_mem hth
    have houtcome := (checks_sound hrun).outcome hi (r := .ok (some true)) (by rw [hprog]; rfl)
    rw [hlabel] at houtcome
    exact houtcome rfl

end SafeDecoder.ChainChecks
