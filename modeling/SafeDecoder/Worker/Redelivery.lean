import SafeDecoder.Worker.System

/-! # Delivering a download again

`process_contract_metadata` commits three times, and a task that is killed in
between is delivered again. Whatever has been committed is one of four states of
the database, each run goes on from there, and a complete run reaches the last.
-/
namespace SafeDecoder.Redelivery
open Worker Machine

variable {pg : Postgres}

section Runs

/-- One call of `process_contract_metadata` -/
abbrev call (pg : Postgres) :
    Machine Command Command.Answer PyError (World pg) DbSession Empty EnhancedContractMetadata Bool :=
  pool pg (fun _ _ _ _ => True) Worker.processContractMetadata

/-- Runs that were killed at any point, or not, each with a session of its own. -/
inductive Killed (m : EnhancedContractMetadata) : World pg → World pg → Prop
  | none {w} : Killed m w w
  | run {w w' w'' tr y l} (before : Killed m w w')
      (h : (call pg).Alone (Worker.processContractMetadata m) w' active tr y w'' l) : Killed m w w''

/-- A run that comes to its end, with its result. -/
def Completes (m : EnhancedContractMetadata) (w : World pg) (r : Except PyError Bool)
    (w' : World pg) : Prop :=
  ∃ tr y l, (call pg).Alone (Worker.processContractMetadata m) w active tr y w' l ∧
    y.outcome? = some r

/-- A row without its surrogate ids, with the document that it points to. -/
def view (w : World pg) (k : ContractKey) : Option (ContractRow × Option Json) :=
  (w.contract k).map fun c => ({ c with id := 0, abiId := none },
    c.abiId.bind fun id => (w.db.abis.find? fun r => r.id = id).map AbiRow.abiJson)

/-- Timestamps and surrogate ids aside. -/
structure SameStored (w w' : World pg) : Prop where
  contracts : ∀ k, view w k = view w' k
  keys : w.db.contracts.map ContractRow.key = w'.db.contracts.map ContractRow.key
  documents : w.db.abis.map AbiRow.abiJson = w'.db.abis.map AbiRow.abiJson

def NoDuplicates (w : World pg) : Prop :=
  (w.db.contracts.map ContractRow.key).Nodup ∧ (w.db.abis.map fun r => pg.abiHash r.abiJson).Nodup

/-- The metadata can be stored: its source is known, its ABI is not empty, and
Postgres takes it. -/
def CanStore (w : World pg) (m : EnhancedContractMetadata) (metadata : ContractMetadata)
    (source : AbiSourceRow) : Prop :=
  fitsBigInt m.chainId ∧ acceptedAbi w.db m = some (metadata,source) ∧ Storable pg metadata

end Runs

section Changes

/-- What is loaded is left out, and comes back as the default. -/
theorem or_filter_ne {α : Type} [DecidableEq α] (v loaded : Option α) :
    (v.filter fun x => some x ≠ loaded).or loaded = v.or loaded := by
  cases v with
  | none => rfl
  | some x =>
    by_cases hx : some x = loaded
    · subst hx
      simp [Option.filter]
    · simp [Option.filter, hx]

theorem apply_since (c : ContractRow) (changes : ContractChanges) :
    (changes.since c).apply c = changes.apply c := by
  have hgetD : ∀ {α : Type} [DecidableEq α] (v : Option α) (loaded : α),
      (v.filter fun x => x ≠ loaded).getD loaded = v.getD loaded := by
    intro α _ v loaded
    have hsome := congrArg (Option.getD · loaded) (or_filter_ne v (some loaded))
    simpa using hsome
  simp only [ContractChanges.apply, ContractChanges.since, or_filter_ne, hgetD]

theorem apply_apply (c : ContractRow) (changes : ContractChanges) :
    changes.apply (changes.apply c) = changes.apply c := by
  simp only [ContractChanges.apply, ← Option.or_assoc, ← Option.getD_or, Option.or_self]

theorem mapContracts_congr {w : World pg} {f g : ContractRow → ContractRow}
    {hf : ∀ c, (f c).key = c.key} {hg : ∀ c, (g c).key = c.key}
    (h : ∀ c ∈ w.db.contracts, f c = g c) : w.mapContracts f hf = w.mapContracts g hg := by
  have hrows : w.db.contracts.map f = w.db.contracts.map g := List.map_congr_left h
  simp only [World.mapContracts, hrows]

/-- Columns that have not changed need not be written. -/
theorem updateContract_since {w : World pg} {k : ContractKey} {c : ContractRow}
    (hc : w.contract k = some c) (changes : ContractChanges) :
    w.updateContract k (changes.since c) = w.updateContract k changes := by
  apply mapContracts_congr
  intro d hd
  by_cases hk : d.key = k
  · have hrow := contract_of_mem w hd
    rw [hk, hc] at hrow
    rw [if_pos hk, if_pos hk, ← Option.some.inj hrow, apply_since]
  · rw [if_neg hk, if_neg hk]

theorem updateContract_updateContract (w : World pg) (k : ContractKey) (changes : ContractChanges) :
    (w.updateContract k changes).updateContract k changes = w.updateContract k changes := by
  have hrows : ∀ c : ContractRow,
      (if (if c.key = k then changes.apply c else c).key = k then
        changes.apply (if c.key = k then changes.apply c else c)
      else if c.key = k then changes.apply c else c) = if c.key = k then changes.apply c else c := by
    intro c
    by_cases hk : c.key = k
    · simp [hk, apply_apply]
    · simp [hk]
  simp only [World.updateContract, World.mapContracts, List.map_map, Function.comp_def, hrows]

end Changes

section Stages
variable (m : EnhancedContractMetadata) (metadata : ContractMetadata) (source : AbiSourceRow)

/-- The contract has been committed. -/
def withContract (w : World pg) : World pg :=
  if h : w.Takes (w.newContract m.address m.chainId {}) then w.addContract _ h else w

/-- The ABI has been committed. -/
def withAbi (w : World pg) : World pg :=
  if h : pg.abiHash metadata.abi ∈ w.db.abis.map fun r => pg.abiHash r.abiJson then w
  else w.addAbi metadata.abi source.id 0 h

/-- The contract points to the ABI. -/
def withMetadata (w : World pg) : World pg :=
  (w.abiOf metadata.abi).elim w fun abi =>
    w.updateContract (m.address,m.chainId) (metadataChanges abi.id metadata)

def withBoth (w : World pg) : World pg := withAbi metadata source (withContract m w)

def stored (w : World pg) : World pg := withMetadata m metadata (withBoth m metadata source w)

/-- What is in the database after any number of commits of any number of runs. -/
inductive Stage (w : World pg) : World pg → Prop
  | start : Stage w w
  | contract : Stage w (withContract m w)
  | abi : Stage w (withBoth m metadata source w)
  | done : Stage w (stored m metadata source w)

variable {m metadata source}

theorem withContract_of_row {w : World pg} (h : w.contract (m.address,m.chainId) ≠ none) :
    withContract m w = w := by
  refine dif_neg fun htakes => h ?_
  exact (contract_eq_none w).mpr htakes.1

theorem withAbi_of_abi {w : World pg} (h : w.abiOf metadata.abi ≠ none) :
    withAbi metadata source w = w := by
  apply dif_pos
  by_contra hno
  exact h ((abiOf_eq_none w).mpr hno)

theorem withAbi_persists (metadata : ContractMetadata) (source : AbiSourceRow) (w : World pg) :
    Persists w (withAbi metadata source w) := by
  unfold withAbi
  split
  · exact Persists.refl w
  · exact Persists.addAbi _

theorem withMetadata_persists (w : World pg) : Persists w (withMetadata m metadata w) := by
  unfold withMetadata
  cases w.abiOf metadata.abi with
  | none => exact Persists.refl w
  | some abi => exact Persists.updateContract _ _

theorem contract_withContract {w : World pg} (hfits : fitsBigInt m.chainId) :
    (withContract m w).contract (m.address,m.chainId) ≠ none := by
  unfold withContract
  split
  · have hkey : (w.newContract m.address m.chainId {}).key = (m.address,m.chainId) := rfl
    rw [contract_addContract, hkey, if_pos rfl]
    simp
  · rename_i hno
    intro hnone
    exact hno ⟨(contract_eq_none w).mp hnone,hfits⟩

theorem abiOf_withAbi (w : World pg) : (withAbi metadata source w).abiOf metadata.abi ≠ none := by
  unfold withAbi
  split
  · rename_i hmem
    intro hnone
    exact (abiOf_eq_none w).mp hnone hmem
  · rw [abiOf_addAbi, if_pos rfl]
    simp

theorem abiOf_withMetadata (w : World pg) (j : Json) : (withMetadata m metadata w).abiOf j = w.abiOf j := by
  unfold withMetadata
  cases w.abiOf metadata.abi <;> rfl

/-- A stage that has the contract is not the first one, unless that has it as well. -/
theorem Stage.of_contract {w t : World pg} (h : Stage m metadata source w t)
    (hrow : t.contract (m.address,m.chainId) ≠ none) :
    t = withContract m w ∨ t = withBoth m metadata source w ∨ t = stored m metadata source w := by
  cases h with
  | start => exact .inl (withContract_of_row hrow).symm
  | contract => exact .inl rfl
  | abi => exact .inr (.inl rfl)
  | done => exact .inr (.inr rfl)

theorem Stage.of_absent {w t : World pg} (h : Stage m metadata source w t)
    (hfits : fitsBigInt m.chainId) (hrow : t.contract (m.address,m.chainId) = none) : t = w := by
  have hfirst := contract_withContract (w := w) hfits
  have hboth := (withAbi_persists metadata source (withContract m w)).contract _ hfirst
  cases h with
  | start => rfl
  | contract => exact absurd hrow hfirst
  | abi => exact absurd hrow hboth
  | done => exact absurd hrow ((withMetadata_persists _).contract _ hboth)

/-- Without the ABI, the contract is all that has been committed. -/
theorem Stage.of_no_abi {w t : World pg} (h : Stage m metadata source w t)
    (hrow : t.contract (m.address,m.chainId) ≠ none) (habi : t.abiOf metadata.abi = none) :
    t = withContract m w := by
  rcases h.of_contract hrow with rfl | rfl | rfl
  · rfl
  · exact absurd habi (abiOf_withAbi _)
  · rw [stored, abiOf_withMetadata] at habi
    exact absurd habi (abiOf_withAbi _)

/-- With both, the last commit leads to the last stage, whether it was done before or not. -/
theorem Stage.withMetadata {w t : World pg} (h : Stage m metadata source w t)
    (hrow : t.contract (m.address,m.chainId) ≠ none) {abi : AbiRow}
    (habi : t.abiOf metadata.abi = some abi) :
    t.updateContract (m.address,m.chainId) (metadataChanges abi.id metadata) =
      stored m metadata source w := by
  have hboth : ∀ {u : World pg}, u = withBoth m metadata source w → u.abiOf metadata.abi = some abi →
      u.updateContract (m.address,m.chainId) (metadataChanges abi.id metadata) =
        stored m metadata source w := by
    rintro u rfl hu
    rw [stored, Redelivery.withMetadata, hu]
    rfl
  rcases h.of_contract hrow with rfl | rfl | rfl
  · exact hboth (withAbi_of_abi (by simp [habi])).symm habi
  · exact hboth rfl habi
  · rw [stored, abiOf_withMetadata] at habi
    rw [← hboth rfl habi, updateContract_updateContract]

/-- No commit adds a source. -/
theorem Stage.sources {w t : World pg} (h : Stage m metadata source w t) :
    t.db.sources = w.db.sources := by
  have hcontract : ∀ u : World pg, (withContract m u).db.sources = u.db.sources := by
    intro u
    unfold withContract
    split <;> rfl
  have habi : ∀ u : World pg, (withAbi metadata source u).db.sources = u.db.sources := by
    intro u
    unfold withAbi
    split <;> rfl
  have hmetadata : ∀ u : World pg, (Redelivery.withMetadata m metadata u).db.sources = u.db.sources := by
    intro u
    unfold Redelivery.withMetadata
    cases u.abiOf metadata.abi <;> rfl
  cases h with
  | start => rfl
  | contract => exact hcontract w
  | abi => exact (habi _).trans (hcontract w)
  | done => exact (hmetadata _).trans ((habi _).trans (hcontract w))

end Stages

section Complete
variable {m : EnhancedContractMetadata} {metadata : ContractMetadata} {source : AbiSourceRow}
  {w : World pg}

/-- Nobody else is at work, and the database is in one of the stages. -/
abbrev stages (w : World pg) (m : EnhancedContractMetadata) (metadata : ContractMetadata)
    (source : AbiSourceRow) : Discipline (World pg × Unit) :=
  .alone fun s => Stage m metadata source w s.1

theorem regular : Regular (fun _ _ _ _ => True) (stages w m metadata source) 0
    ((call pg).recorded (fun _ _ _ => ()) 0) :=
  recorded_regular id (fun _ _ _ _ _ => rfl) fun _ => trivial

/-- A run goes from stage to stage, and stores the metadata when it completes. -/
theorem processKeeps (hstorable : CanStore w m metadata source) :
    ProcessKeeps (stages w m metadata source) 0 ((call pg).recorded (fun _ _ _ => ()) 0) m
      (fun _ => True) (fun c s => s.1.contract (m.address,m.chainId) = some c)
      fun r s _ => r = .ok true ∧ s.1 = stored m metadata source w := by
  obtain ⟨hfits,haccepted,hstorable⟩ := hstorable
  have hsame : ∀ {u : World pg × Unit}, Stage m metadata source w u.1 →
      acceptedAbi u.1.db m = some (metadata,source) := by
    intro u hu
    rw [← haccepted]
    simp only [acceptedAbi, Db.getAbiSource, hu.sources]
  refine
    { stays_contract := fun t u _ h _ hc => h ▸ hc
      stays_abi := fun t u j r _ h _ hr => h ▸ hr
      pre := fun _ _ _ _ _ => trivial
      held := fun c t u hc h _ => h ▸ hc
      load := fun t c _ _ hc => hc
      create := fun t hfresh hi _ _ g' _ => ?_
      fail := fun t c _ _ _ hwhy => ?_
      storeAbi := fun t c metadata' source' hfresh hi hc hwhy g' _ => ?_
      store := fun t c metadata' source' abi changes hi hc hkey hwhy habi hchanges g' _ => ?_
      error := fun t l _ hwhy => ?_ }
  · have hkey : (t.1.newContract m.address m.chainId {}).key = (m.address,m.chainId) := rfl
    have hnone := (contract_eq_none t.1).mpr hfresh.1
    rw [hkey] at hnone
    have ht := hi.of_absent hfits hnone
    refine ⟨⟨?_,trivial⟩,?_⟩
    · have hnew : withContract m t.1 = t.1.addContract _ hfresh := dif_pos hfresh
      change Stage m metadata source w (t.1.addContract _ hfresh)
      rw [← hnew, ht]
      exact .contract
    · change (t.1.addContract _ hfresh).contract _ = _
      rw [contract_addContract, hkey, if_pos rfl]
  · obtain ⟨u,hu,hnone⟩ := hwhy
    rw [hsame hu] at hnone
    cases hnone
  · obtain ⟨u,hu,haccepted'⟩ := hwhy
    rw [hsame hu] at haccepted'
    cases haccepted'
    have hrow : t.1.contract (m.address,m.chainId) ≠ none := by simp [hc]
    have ht := hi.of_no_abi hrow ((abiOf_eq_none t.1).mpr hfresh)
    have hnew : withAbi metadata source t.1 = t.1.addAbi metadata.abi source.id 0 hfresh := dif_neg hfresh
    refine ⟨⟨?_,trivial⟩,hc⟩
    change Stage m metadata source w (t.1.addAbi metadata.abi source.id 0 hfresh)
    rw [← hnew, ht]
    exact .abi
  · obtain ⟨u,hu,haccepted'⟩ := hwhy
    rw [hsame hu] at haccepted'
    cases haccepted'
    have hwrite : t.1.updateContract c.key changes = stored m metadata source w := by
      rw [hkey, ← hi.withMetadata (by simp [hc]) habi]
      rcases hchanges with rfl | rfl
      · rfl
      · exact updateContract_since hc _
    have hstage : Stage m metadata source w (t.1.updateContract c.key changes) := by
      rw [hwrite]
      exact .done
    exact ⟨⟨hstage,trivial⟩,fun v hv _ => ⟨rfl,hv ▸ hwrite⟩⟩
  · rcases hwhy with hno | ⟨u,metadata',source',hu,haccepted',hno⟩
    · exact absurd hfits hno
    · rw [hsame hu] at haccepted'
      cases haccepted'
      exact absurd hstorable hno

theorem Killed.stage (hstorable : CanStore w m metadata source) {w' : World pg}
    (h : Killed m w w') : Stage m metadata source w w' := by
  induction h with
  | none => exact .start
  | run _ h ih => exact (h.meets ((processKeeps hstorable).meets regular trivial) (g := ()) ih).2

theorem completes_stored (hstorable : CanStore w m metadata source) {w' w'' : World pg}
    (hstage : Stage m metadata source w w') {r : Except PyError Bool} (h : Completes m w' r w'') :
    r = .ok true ∧ w'' = stored m metadata source w := by
  obtain ⟨tr,y,l,halone,hr⟩ := h
  exact halone.outcome ((processKeeps hstorable).meets regular trivial) (g := ()) hstage hr

/-- After any number of runs that were killed anywhere, a complete one leaves what
a single run would have left. -/
theorem redelivered (hstorable : CanStore w m metadata source) {killed w' w'' : World pg}
    {r r' : Except PyError Bool} (hkilled : Killed m w killed) (hlast : Completes m killed r w')
    (honce : Completes m w r' w'') :
    r = .ok true ∧ r' = .ok true ∧ SameStored w' w'' ∧ NoDuplicates w' := by
  obtain ⟨hr,rfl⟩ := completes_stored hstorable (hkilled.stage hstorable) hlast
  obtain ⟨hr',rfl⟩ := completes_stored hstorable .start honce
  exact ⟨hr,hr',⟨fun _ => rfl,rfl,rfl⟩,(stored m metadata source w).db.contractKeys,
    (stored m metadata source w).abiHashes⟩

end Complete

section Examples
open Reference

def document : ContractMetadata := ⟨none,.arr [.null],none⟩

def found : EnhancedContractMetadata := ⟨[1],some document,some .etherscan,1⟩

def withSource : World database := (World.empty database).addSource ContractSource.etherscan.value ""

def player : (call database).Player :=
  poolPlayer Worker.processContractMetadata (fun _ _ _ => .ok none) fun _ _ _ => trivial

theorem canStore : CanStore withSource found document ⟨1,ContractSource.etherscan.value,""⟩ :=
  ⟨rfl,by simp [acceptedAbi, found, withSource, World.addSource, World.empty, Db.getAbiSource,
    document, Json.truthy],rfl,rfl⟩

/-- The contract has been committed when the first run is killed. -/
def halfway : World database := (respond unasked withSource active (.insertContract [1] 1 {})).2.1

theorem killed_halfway : Killed found withSource halfway :=
  .run .none (Alone.step (r := (respond unasked withSource active (.insertContract [1] 1 {})).1)
    ⟨unasked,rfl,fun _ _ _ h => nomatch h⟩ .refl)

theorem redelivered_halfway :
    SameStored (player.complete (Worker.processContractMetadata found) halfway active).2.2.1
      (player.complete (Worker.processContractMetadata found) withSource active).2.2.1 := by
  obtain ⟨y,hy,hr⟩ := player.complete_alone (Worker.processContractMetadata found) halfway active
  obtain ⟨y',hy',hr'⟩ :=
    player.complete_alone (Worker.processContractMetadata found) withSource active
  exact (redelivered canStore killed_halfway ⟨_,_,_,hy,hr⟩ ⟨_,_,_,hy',hr'⟩).2.2.1

end Examples
end SafeDecoder.Redelivery
