import SafeDecoder.Worker.System

/-! # What no task takes back

Every write of `fetch_retries` adds one to a number that was loaded before, so as
long as no row starts below a floor, none ever gets there, and a row above its
floor stays above it although updates can be lost. An ABI is never removed. What
`should_attempt_download` has once refused it may therefore go on refusing.
-/
namespace SafeDecoder.Worker

variable {pg : Postgres} (inst : Installation) (floor : ContractKey → ℕ)

section Refusals

theorem refusedBy_mono {contract : Option ContractRow} {n n' : ℕ} (h : refusedBy contract n)
    (hle : n' ≤ n) : refusedBy contract n' := by
  cases contract with
  | none => exact h
  | some c =>
    simp only [refusedBy, Option.any_some, Bool.or_eq_true, decide_eq_true_eq] at h ⊢
    exact h.imp_left fun h => by omega

@[simp] theorem refusedBy_some (c : ContractRow) (n : ℕ) :
    refusedBy (some c) n ↔ n < c.fetchRetries ∨ c.abiId.isSome := by
  simp [refusedBy]

@[simp] theorem refusedBy_none (n : ℕ) : ¬refusedBy none n := by simp [refusedBy]

end Refusals

/-- Rows are not below the floor, and what Redis refuses the database refuses. -/
structure Floored (w : World pg) : Prop where
  le : ∀ k c, w.contract k = some c → floor k ≤ c.fetchRetries
  absent : ∀ k, w.contract k = none → floor k = 0
  refusals : ∀ address chainId v,
    w.redis (.shouldAttemptDownload address chainId 0) = some v →
    v = 0 ∧ refusedBy (w.contract (inst.addresses.toBytes address,chainId)) 0

def hasAbi (contract : Option ContractRow) : Bool := contract.any fun c => c.abiId.isSome

/-- Rows, their ABIs, documents and sources stay, and a row that is refused at the
floor stays refused. -/
structure Grows (w w' : World pg) : Prop extends Persists w w' where
  refused : ∀ k n, n ≤ floor k → refusedBy (w.contract k) n → refusedBy (w'.contract k) n
  stored : ∀ k, hasAbi (w.contract k) → hasAbi (w'.contract k)
  sources : w'.db.sources = w.db.sources

variable {inst floor}

namespace Grows
variable {w w' w'' : World pg}

theorem refl (w : World pg) : Grows floor w w :=
  ⟨Persists.refl w,fun _ _ _ h => h,fun _ h => h,rfl⟩

theorem trans (h : Grows floor w w') (h' : Grows floor w' w'') : Grows floor w w'' :=
  ⟨h.toPersists.trans h'.toPersists,fun k n hn hk => h'.refused k n hn (h.refused k n hn hk),
    fun k hk => h'.stored k (h.stored k hk),h'.sources.trans h.sources⟩

/-- Without a change of the rows nothing can be taken back. -/
theorem of_contract (hp : Persists w w') (h : ∀ k, w'.contract k = w.contract k)
    (hs : w'.db.sources = w.db.sources) : Grows floor w w' :=
  ⟨hp,fun k n _ hk => by rwa [h k],fun k hk => by rwa [h k],hs⟩

theorem of_db (h : w'.db = w.db) : Grows floor w w' := by
  have hc : ∀ k, w'.contract k = w.contract k := fun k => by rw [World.contract, h, World.contract]
  have ha : ∀ j, w'.abiOf j = w.abiOf j := fun j => by rw [World.abiOf, h, World.abiOf]
  exact of_contract ⟨fun k hk => by rwa [hc k],fun j r hr => by rwa [ha j]⟩ hc (by rw [h])

theorem addContract {row : ContractRow} (h : w.Takes row) :
    Grows floor w (w.addContract row h) := by
  have habsent := (contract_eq_none w).mpr h.1
  refine ⟨Persists.addContract h,fun k n _ hk => ?_,fun k hk => ?_,rfl⟩
  · rw [contract_addContract]
    split
    · rename_i hkey
      rw [hkey, habsent] at hk
      exact absurd hk (refusedBy_none n)
    · exact hk
  · rw [contract_addContract]
    split
    · rename_i hkey
      rw [hkey, habsent] at hk
      cases hk
    · exact hk

/-- The new value of a column that decides about downloads is above the floor. -/
theorem updateContract {key : ContractKey} {changes : ContractChanges}
    (h : ∀ v, changes.fetchRetries = some v → floor key < v) :
    Grows floor w (w.updateContract key changes) := by
  refine ⟨Persists.updateContract key changes,fun k n hn hk => ?_,fun k hk => ?_,rfl⟩
  · rw [contract_updateContract]
    split
    · rename_i hkey
      subst hkey
      cases hc : w.contract k with
      | none =>
        rw [hc] at hk
        exact absurd hk (refusedBy_none n)
      | some c =>
        rw [hc, refusedBy_some] at hk
        simp only [Option.map_some, refusedBy_some, ContractChanges.apply]
        rcases hk with hk | hk
        · left
          cases hv : changes.fetchRetries with
          | none => exact hk
          | some v => exact Nat.lt_of_le_of_lt hn (h v hv)
        · right
          cases changes.abiId <;> simp [hk]
    · exact hk
  · rw [contract_updateContract]
    split
    · rename_i hkey
      subst hkey
      cases hc : w.contract k with
      | none => simp [hc, hasAbi] at hk
      | some c =>
        rw [hc] at hk
        simp only [hasAbi, Option.any_some, Option.map_some, ContractChanges.apply] at hk ⊢
        cases changes.abiId <;> simp [hk]
    · exact hk

theorem mapContracts {f : ContractRow → ContractRow} (hf : ∀ c, (f c).key = c.key)
    (hretries : ∀ c, (f c).fetchRetries = c.fetchRetries) (habi : ∀ c, (f c).abiId = c.abiId) :
    Grows floor w (w.mapContracts f hf) := by
  refine ⟨Persists.mapContracts hf,fun k n _ hk => ?_,fun k hk => ?_,rfl⟩
  · rw [contract_mapContracts]
    cases hc : w.contract k with
    | none =>
      rw [hc] at hk
      exact absurd hk (refusedBy_none n)
    | some c =>
      rw [hc, refusedBy_some] at hk
      rwa [Option.map_some, refusedBy_some, hretries, habi]
  · rw [contract_mapContracts, hasAbi, Option.any_map]
    simpa only [hasAbi, Function.comp_def, habi] using hk

end Grows

namespace Floored
variable {w w' : World pg}

/-- A row keeps its floor when no number in it falls below. -/
theorem of_grows (h : Floored inst floor w) (hg : Grows floor w w')
    (hle : ∀ k c, w'.contract k = some c → floor k ≤ c.fetchRetries)
    (hredis : ∀ address chainId v,
      w'.redis (.shouldAttemptDownload address chainId 0) = some v →
      w.redis (.shouldAttemptDownload address chainId 0) = some v) :
    Floored inst floor w' where
  le := hle
  absent := fun k hk => by
    apply h.absent k
    by_contra hne
    exact hg.contract k hne hk
  refusals := fun address chainId v hv => by
    obtain ⟨hzero,hrefused⟩ := h.refusals address chainId v (hredis address chainId v hv)
    exact ⟨hzero,hg.refused _ 0 (Nat.zero_le _) hrefused⟩

theorem of_contract (h : Floored inst floor w) (hg : Grows floor w w')
    (hc : ∀ k, w'.contract k = w.contract k) (hredis : w'.redis = w.redis) :
    Floored inst floor w' ∧ Grows floor w w' :=
  ⟨h.of_grows hg (fun k c hk => h.le k c (by rwa [← hc k])) fun _ _ _ hv => by rwa [← hredis],hg⟩

/-- Messages come and go without a trace in the database. -/
theorem of_queue (h : Floored inst floor w) (queue : List Message) :
    Floored inst floor { w with queue := queue } ∧ Grows floor w { w with queue := queue } :=
  h.of_contract (Grows.of_db rfl) (fun _ => rfl) rfl

theorem addContract (h : Floored inst floor w) {row : ContractRow} (hrow : w.Takes row) :
    Floored inst floor (w.addContract row hrow) ∧ Grows floor w (w.addContract row hrow) := by
  have hg : Grows floor w (w.addContract row hrow) := Grows.addContract hrow
  refine ⟨h.of_grows hg (fun k c hk => ?_) fun _ _ _ hv => hv,hg⟩
  rw [contract_addContract] at hk
  split at hk
  · rename_i hkey
    rw [hkey, h.absent _ ((contract_eq_none w).mpr hrow.1)]
    exact Nat.zero_le _
  · exact h.le k c hk

theorem updateContract (h : Floored inst floor w) (key : ContractKey) (changes : ContractChanges)
    (hv : ∀ v, changes.fetchRetries = some v → floor key < v) :
    Floored inst floor (w.updateContract key changes) ∧
      Grows floor w (w.updateContract key changes) := by
  have hg : Grows floor w (w.updateContract key changes) := Grows.updateContract hv
  refine ⟨h.of_grows hg (fun k c hk => ?_) fun _ _ _ hr => hr,hg⟩
  rw [contract_updateContract] at hk
  split at hk
  · rename_i hkey
    subst hkey
    obtain ⟨c',hc',rfl⟩ := Option.map_eq_some_iff.mp hk
    cases hr : changes.fetchRetries with
    | none => simpa [ContractChanges.apply, hr] using h.le k c' hc'
    | some v => simpa [ContractChanges.apply, hr] using (hv v hr).le
  · exact h.le k c hk

theorem updateContractInfo (h : Floored inst floor w) (address : Bytes) (name displayName : String)
    (trusted : Bool) :
    Floored inst floor (w.updateContractInfo address name displayName trusted) ∧
      Grows floor w (w.updateContractInfo address name displayName trusted) := by
  have hg : Grows floor w (w.updateContractInfo address name displayName trusted) := by
    refine Grows.mapContracts _ (fun c => ?_) fun c => ?_
    · split <;> rfl
    · split <;> rfl
  refine ⟨h.of_grows hg (fun k c hk => ?_) fun _ _ _ hr => hr,hg⟩
  rw [contract_updateContractInfo] at hk
  split at hk
  · obtain ⟨c',hc',rfl⟩ := Option.map_eq_some_iff.mp hk
    exact h.le k c' hc'
  · exact h.le k c hk

theorem addAbi (h : Floored inst floor w) {abiJson : Json} (sourceId : ℕ) (relevance : Int)
    (habi : pg.abiHash abiJson ∉ w.db.abis.map fun r => pg.abiHash r.abiJson) :
    Floored inst floor (w.addAbi abiJson sourceId relevance habi) ∧
      Grows floor w (w.addAbi abiJson sourceId relevance habi) :=
  h.of_contract (Grows.of_contract (Persists.addAbi habi) (fun _ => rfl) rfl) (fun _ => rfl) rfl

/-- Only an entry of `should_attempt_download` has to be justified. -/
theorem setRedis (h : Floored inst floor w) (key : RedisKey) (value : Option ℕ)
    (hkey : ∀ address chainId, key = .shouldAttemptDownload address chainId 0 →
      value = none ∨ value = some 0 ∧
        refusedBy (w.contract (inst.addresses.toBytes address,chainId)) 0) :
    Floored inst floor (w.setRedis key value) ∧ Grows floor w (w.setRedis key value) := by
  have hg : Grows floor w (w.setRedis key value) := Grows.of_db rfl
  refine ⟨⟨h.le,h.absent,fun address chainId v hv => ?_⟩,hg⟩
  simp only [World.setRedis, Function.update_apply] at hv
  split at hv
  · rename_i heq
    rcases hkey address chainId heq.symm with hnone | ⟨hzero,hrefused⟩
    · rw [hnone] at hv
      cases hv
    · rw [hzero] at hv
      exact ⟨(Option.some.inj hv).symm,hrefused⟩
  · exact h.refusals address chainId v hv

end Floored

section Commands

/-- Commands that need no further justification. -/
def Harmless (floor : ContractKey → ℕ) : Command → Prop
  | .updateContract key changes => ∀ v, changes.fetchRetries = some v → floor key < v
  | .redisSet (.shouldAttemptDownload _ _ _) _ => False
  | .redisSetNx (.shouldAttemptDownload _ _ _) _ => False
  | .insertAbiSource _ _ => False
  | _ => True

theorem harmless_respond {c : Command} (hc : Harmless floor c) {w w' : World pg} {l l' : DbSession}
    {answers : ContractSource → Bytes → Int → Except PyError (Option ContractMetadata)}
    {r : Except PyError c.Answer} (h : Floored inst floor w)
    (hr : respond answers w l c = (r,w',l')) : Floored inst floor w' ∧ Grows floor w w' := by
  have hset : ∀ {key : RedisKey} (value : ℕ),
      (∀ address chainId retries, key ≠ .shouldAttemptDownload address chainId retries) →
      Floored inst floor (w.setRedis key (some value)) ∧ Grows floor w (w.setRedis key (some value)) :=
    fun value hkey => h.setRedis _ _ fun address chainId hk => absurd hk (hkey address chainId _)
  cases respond_effect hr with
  | idle => exact ⟨h,Grows.refl w⟩
  | insertContract => exact h.addContract _
  | updateContract => exact h.updateContract _ _ hc
  | updateContractInfo => exact h.updateContractInfo ..
  | insertAbi => exact h.addAbi _ _ _
  | insertAbiSource => exact absurd hc id
  | redisSet key value =>
    apply hset value
    rintro address chainId retries rfl
    exact hc
  | redisSetNx key value =>
    apply hset value
    rintro address chainId retries rfl
    exact hc
  | redisDelete => exact h.setRedis _ _ fun _ _ _ => .inl rfl
  | send => exact h.of_queue _

theorem harmless_of_onContracts (c : Command) (h : OnContracts c) : Harmless floor c := by
  cases c <;> trivial

theorem issues_updateSafeContractsInfo (deployments : List Deployment) :
    Issues (Harmless floor) (updateSafeContractsInfo inst deployments) := by
  induction deployments with
  | nil => trivial
  | cons d rest ih => exact (Issues.perform trivial).bind fun _ => ih

theorem issues_sendDownloads (rows : List ContractRow) :
    Issues (Harmless floor) (sendDownloads rows) := by
  induction rows with
  | nil => trivial
  | cons c rest ih => exact (Issues.perform trivial).bind fun _ => ih

theorem issues_createSafeContractsTask (chainId : Int) :
    Issues (Harmless floor) (createSafeContractsTaskForNewChains inst chainId) := by
  apply (Issues.perform trivial).bind
  intro acquired
  cases acquired
  · trivial
  · refine Issues.ensuring ?_ (Issues.perform trivial)
    exact ((issues_createSafeContracts inst chainId 0 inst.deployments).mono
      harmless_of_onContracts).bind fun _ => trivial

end Commands

end SafeDecoder.Worker
