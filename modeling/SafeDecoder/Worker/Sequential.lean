import SafeDecoder.Library.Evaluation
import SafeDecoder.Worker.Redelivery

/-! # Calls that nobody disturbs

A call that asks no explorer computes a function of the database. For the helpers
of the models and for `process_contract_metadata` this function is worked out here.
-/
namespace SafeDecoder.Worker
open Machine Redelivery

variable {pg : Postgres} {α β : Type} {w : World pg}

/-- The command asks no explorer. -/
def Internal : Command → Prop
  | .fetch _ _ _ => False
  | _ => True

theorem not_fetch_of_internal {c : Command} (h : Internal c) :
    ∀ client address chainId, c ≠ .fetch client address chainId := by
  rintro client address chainId rfl
  exact h

/-- What a task ends with. -/
abbrev evaluate (x : Task α) (w : World pg) (l : DbSession) : Except PyError α × World pg × DbSession :=
  x.eval (respond unasked) w l

theorem pool_settles {τ : Type} (explorers : Explorers) (program : τ → Task α) :
    (pool pg explorers program).Settles Internal (respond unasked) :=
  fun _ _ _ hc _ _ _ => exec_iff (not_fetch_of_internal hc)

section Models
variable {address : Bytes} {chainId : Int} {values : ContractValues} {abiJson : Json} {sourceId : ℕ}
  {relevance : Int}

theorem contract_none_takes (hfits : fitsBigInt chainId) (hnone : w.contract (address,chainId) = none) :
    w.Takes (w.newContract address chainId values) :=
  ⟨(contract_eq_none w).mp hnone,hfits⟩

theorem getOrCreate_new {f : ContractRow × Bool → Task β} (hvalues : values.accepted)
    (h : w.Takes (w.newContract address chainId values)) :
    evaluate ((Contract.getOrCreate address chainId values).bind f) w active =
      evaluate (f (w.newContract address chainId values,true)) (w.addContract _ h) active := by
  have hfits : fitsBigInt chainId := h.2
  have hinsert : respond unasked w active (.insertContract address chainId values) =
      (.ok (w.newContract address chainId values),w.addContract _ h,active) := by
    simp [respond, active, hfits, hvalues, h]
  rw [getOrCreate_bind]
  exact Proc.eval_call hinsert

theorem getOrCreate_old {f : ContractRow × Bool → Task β} {c : ContractRow}
    (hfits : fitsBigInt chainId) (hvalues : values.accepted)
    (hc : w.contract (address,chainId) = some c) :
    evaluate ((Contract.getOrCreate address chainId values).bind f) w active =
      evaluate (f (c,false)) w active := by
  have htaken : ¬w.Takes (w.newContract address chainId values) := by
    intro h
    have hnone : w.contract (address,chainId) = none := (contract_eq_none w).mpr h.1
    rw [hnone] at hc
    cases hc
  have hinsert : respond unasked w active (.insertContract address chainId values) =
      (.error integrityError,w,⟨true⟩) := by
    simp [respond, active, hfits, hvalues, htaken]
  have hrollback : respond unasked w ⟨true⟩ .rollback = (.ok (),w,active) := rfl
  have hselect : respond unasked w active (.selectContract address chainId) = (.ok (some c),w,active) := by
    simp [respond, active, hfits, hc]
  rw [getOrCreate_bind, evaluate, Proc.eval_call hinsert]
  exact (Proc.eval_call hrollback).trans (Proc.eval_call hselect)

theorem getOrCreate_refused {f : ContractRow × Bool → Task β}
    (h : ¬(fitsBigInt chainId ∧ values.accepted)) :
    evaluate ((Contract.getOrCreate address chainId values).bind f) w active =
      (.error .dbApiError,w,⟨true⟩) := by
  have hinsert : respond unasked w active (.insertContract address chainId values) =
      (.error .dbApiError,w,⟨true⟩) := by
    have hno : (fitsBigInt chainId && values.accepted) = false := by simpa using h
    simp [respond, active, hno]
  rw [getOrCreate_bind]
  exact Proc.eval_call hinsert

theorem getOrCreateAbi_new {f : AbiRow × Bool → Task β} (haccepts : pg.acceptsJson abiJson)
    (h : pg.abiHash abiJson ∉ w.db.abis.map fun r => pg.abiHash r.abiJson) :
    evaluate ((Abi.getOrCreateAbi abiJson sourceId relevance).bind f) w active =
      evaluate (f (⟨w.nextAbiId,relevance,abiJson,sourceId⟩,true))
        (w.addAbi abiJson sourceId relevance h) active := by
  have hinsert : respond unasked w active (.insertAbi abiJson sourceId relevance) =
      (.ok ⟨w.nextAbiId,relevance,abiJson,sourceId⟩,w.addAbi abiJson sourceId relevance h,active) := by
    simp only [respond, active, Bool.false_eq_true, if_false, haccepts, if_true]
    rw [dif_neg h]
  rw [getOrCreateAbi_bind]
  exact Proc.eval_call hinsert

theorem getOrCreateAbi_old {f : AbiRow × Bool → Task β} (haccepts : pg.acceptsJson abiJson)
    {r : AbiRow} (hr : w.abiOf abiJson = some r) :
    evaluate ((Abi.getOrCreateAbi abiJson sourceId relevance).bind f) w active =
      evaluate (f (r,false)) w active := by
  have hmem : pg.abiHash abiJson ∈ w.db.abis.map fun r => pg.abiHash r.abiJson := by
    by_contra hno
    rw [(abiOf_eq_none w).mpr hno] at hr
    cases hr
  have hinsert : respond unasked w active (.insertAbi abiJson sourceId relevance) =
      (.error integrityError,w,⟨true⟩) := by
    simp only [respond, active, Bool.false_eq_true, if_false, haccepts, if_true]
    rw [dif_pos hmem]
  have hrollback : respond unasked w ⟨true⟩ .rollback = (.ok (),w,active) := rfl
  have hselect : respond unasked w active (.selectAbi abiJson) = (.ok (some r),w,active) := by
    simp [respond, active, haccepts, hr]
  rw [getOrCreateAbi_bind, evaluate, Proc.eval_call hinsert]
  exact (Proc.eval_call hrollback).trans (Proc.eval_call hselect)

theorem getOrCreateAbi_refused {f : AbiRow × Bool → Task β} (h : ¬pg.acceptsJson abiJson) :
    evaluate ((Abi.getOrCreateAbi abiJson sourceId relevance).bind f) w active =
      (.error .dbApiError,w,⟨true⟩) := by
  have hinsert : respond unasked w active (.insertAbi abiJson sourceId relevance) =
      (.error .dbApiError,w,⟨true⟩) := by
    simp [respond, active, h]
  rw [getOrCreateAbi_bind]
  exact Proc.eval_call hinsert

end Models

section Process
variable {m : EnhancedContractMetadata} {metadata : ContractMetadata} {c : ContractRow}

theorem issues_getOrCreateAbi (abiJson : Json) (sourceId : ℕ) (relevance : Int) :
    Issues Internal (Abi.getOrCreateAbi abiJson sourceId relevance) := by
  refine Issues.handle ((Issues.perform trivial).bind fun _ => trivial) fun e => ?_
  split
  · refine (Issues.perform trivial).bind fun _ => (Issues.perform trivial).bind fun found => ?_
    cases found <;> trivial
  · trivial

theorem issues_recordFailedAttempt (c : ContractRow) : Issues Internal (recordFailedAttempt c) :=
  (Issues.perform trivial).bind fun _ => trivial

theorem issues_processContractMetadata (m : EnhancedContractMetadata) :
    Issues Internal (processContractMetadata m) := by
  refine ((issues_getOrCreate _ _ _).mono fun c hc => ?_).bind fun loaded => ?_
  · cases c <;> trivial
  unfold processLoaded
  cases m.metadata with
  | none => exact issues_recordFailedAttempt _
  | some metadata =>
    cases m.source with
    | none => exact issues_recordFailedAttempt _
    | some source =>
      apply (Issues.perform trivial).bind
      intro row
      cases row with
      | none => exact issues_recordFailedAttempt _
      | some row =>
        dsimp only
        split
        · exact (issues_getOrCreateAbi _ _ _).bind fun _ => (Issues.perform trivial).bind fun _ => trivial
        · exact issues_recordFailedAttempt _

/-- A complete call is what its task evaluates to. -/
theorem completes_iff_evaluate {r : Except PyError Bool} {w' : World pg} :
    Redelivery.Completes m w r w' ↔ ∃ l, evaluate (processContractMetadata m) w active = (r,w',l) := by
  have hsettles : (call pg).Settles Internal (respond unasked) := pool_settles _ _
  constructor
  · rintro ⟨tr,y,l,h,hr⟩
    exact ⟨l,h.eval hsettles (issues_processContractMetadata m) hr⟩
  · rintro ⟨l,h⟩
    obtain ⟨tr,y,hy,hr⟩ := exists_alone hsettles.allows (issues_processContractMetadata m) h
    exact ⟨tr,y,l,hy,hr⟩

theorem evaluate_recordFailedAttempt :
    evaluate (recordFailedAttempt c) w active =
      (.ok false,w.updateContract c.key { fetchRetries := some (c.fetchRetries + 1) },active) := by
  have hupdate : respond unasked w active
      (.updateContract c.key { fetchRetries := some (c.fetchRetries + 1) }) =
      (.ok (),w.updateContract c.key { fetchRetries := some (c.fetchRetries + 1) },active) := rfl
  unfold recordFailedAttempt
  rw [since_failed]
  exact Proc.eval_call hupdate

/-- How a call ends that has loaded the row `c`. -/
inductive Ends (m : EnhancedContractMetadata) (c : ContractRow) (w : World pg) :
    Except PyError Bool → World pg → Prop
  | failed (h : acceptedAbi w.db m = none) :
      Ends m c w (.ok false) (w.updateContract c.key { fetchRetries := some (c.fetchRetries + 1) })
  | stored {metadata source} (h : acceptedAbi w.db m = some (metadata,source)) :
      Ends m c w (.ok true) (withMetadata m metadata (withAbi metadata source w))
  | refused {metadata source w'} (h : acceptedAbi w.db m = some (metadata,source))
      (hno : ¬Storable pg metadata) (hw : w' = w ∨ w' = withAbi metadata source w) :
      Ends m c w (.error .dbApiError) w'

/-- The last write, whether the ABI was created or not. -/
theorem evaluate_recordAbi {abi : AbiRow} {created : Bool} {r : Except PyError Bool} {w' : World pg}
    {l : DbSession} (hc : w.contract c.key = some c)
    (h : evaluate (recordAbi c abi created metadata) w active = (r,w',l)) :
    (r = .ok true ∧ w' = w.updateContract c.key (metadataChanges abi.id metadata)) ∨
      (r = .error .dbApiError ∧ ¬Storable pg metadata ∧ w' = w) := by
  have hwrite : ∀ changes : ContractChanges, (Storable pg metadata → changes.accepted) →
      evaluate ((issue (.updateContract c.key changes)).bind fun _ => .ret true) w active = (r,w',l) →
      (r = .ok true ∧ w' = w.updateContract c.key changes) ∨
        (r = .error .dbApiError ∧ ¬Storable pg metadata ∧ w' = w) := by
    intro changes hstorable h
    by_cases haccepted : changes.accepted
    · have hupdate : respond unasked w active (.updateContract c.key changes) =
          (.ok (),w.updateContract c.key changes,active) := by simp [respond, active, haccepted]
      cases (Proc.eval_call hupdate).symm.trans h
      exact .inl ⟨rfl,rfl⟩
    · have hupdate : respond unasked w active (.updateContract c.key changes) =
          (.error .dbApiError,w,⟨true⟩) := by simp [respond, active, haccepted]
      cases (Proc.eval_call hupdate).symm.trans h
      exact .inr ⟨rfl,fun hs => haccepted (hstorable hs),rfl⟩
  have hall : Storable pg metadata → (metadataChanges abi.id metadata).accepted := fun hs => hs.2
  cases created with
  | false => exact hwrite _ hall h
  | true =>
    rcases hwrite _ (fun hs => since_accepted (hall hs)) h with ⟨hr,hw⟩ | hrefused
    · exact .inl ⟨hr,hw.trans (updateContract_since hc _)⟩
    · exact .inr hrefused

/-- The document is accepted: its ABI is created or found, and then the contract is written. -/
theorem evaluate_store {row : AbiSourceRow} {r : Except PyError Bool} {w' : World pg} {l : DbSession}
    (hkey : c.key = (m.address,m.chainId)) (hc : w.contract c.key = some c)
    (haccepted : acceptedAbi w.db m = some (metadata,row))
    (h : evaluate ((Abi.getOrCreateAbi metadata.abi row.id 0).bind fun abi =>
      recordAbi c abi.1 abi.2 metadata) w active = (r,w',l)) : Ends m c w r w' := by
  by_cases haccepts : pg.acceptsJson metadata.abi
  · cases habi : w.abiOf metadata.abi with
    | some abi =>
      have hsame : withAbi metadata row w = w := withAbi_of_abi (by simp [habi])
      have hwrite : withMetadata m metadata (withAbi metadata row w) =
          w.updateContract c.key (metadataChanges abi.id metadata) := by
        rw [hsame, withMetadata, habi, hkey]
        rfl
      have h := (getOrCreateAbi_old haccepts habi).symm.trans h
      rcases evaluate_recordAbi hc h with ⟨rfl,rfl⟩ | ⟨rfl,hno,rfl⟩
      · rw [← hwrite]
        exact .stored haccepted
      · exact .refused haccepted hno (.inl rfl)
    | none =>
      have hfresh := (abiOf_eq_none w).mp habi
      have hnew : withAbi metadata row w = w.addAbi metadata.abi row.id 0 hfresh := dif_neg hfresh
      have hwrite : withMetadata m metadata (withAbi metadata row w) =
          (w.addAbi metadata.abi row.id 0 hfresh).updateContract c.key
            (metadataChanges w.nextAbiId metadata) := by
        rw [hnew, withMetadata, abiOf_addAbi, if_pos rfl, hkey]
        rfl
      have h := (getOrCreateAbi_new haccepts hfresh).symm.trans h
      rcases evaluate_recordAbi (w := w.addAbi metadata.abi row.id 0 hfresh) hc h with
        ⟨rfl,rfl⟩ | ⟨rfl,hno,rfl⟩
      · rw [← hwrite]
        exact .stored haccepted
      · exact .refused haccepted hno (.inr hnew.symm)
  · cases (getOrCreateAbi_refused haccepts).symm.trans h
    exact .refused haccepted (fun hs => haccepts hs.1) (.inl rfl)

theorem evaluate_processLoaded {r : Except PyError Bool} {w' : World pg} {l : DbSession}
    (hkey : c.key = (m.address,m.chainId)) (hc : w.contract c.key = some c)
    (h : evaluate (processLoaded m c) w active = (r,w',l)) : Ends m c w r w' := by
  have hfailed : evaluate (recordFailedAttempt c) w active = (r,w',l) → acceptedAbi w.db m = none →
      Ends m c w r w' := by
    intro h hnone
    rw [evaluate_recordFailedAttempt] at h
    cases h
    exact .failed hnone
  unfold processLoaded at h
  cases hm : m.metadata with
  | none =>
    rw [hm] at h
    exact hfailed h (by simp [acceptedAbi, hm])
  | some metadata =>
    cases hs : m.source with
    | none =>
      rw [hm, hs] at h
      exact hfailed h (by simp [acceptedAbi, hm, hs])
    | some source =>
      rw [hm, hs] at h
      have hselect : respond unasked w active (.selectAbiSourceByName source.value) =
          (.ok (w.db.getAbiSource source.value),w,active) := rfl
      have h := (Proc.eval_call hselect).symm.trans h
      cases hrow : w.db.getAbiSource source.value with
      | none =>
        rw [hrow] at h
        exact hfailed h (by simp [acceptedAbi, hm, hs, hrow])
      | some row =>
        rw [hrow] at h
        by_cases ht : metadata.abi.truthy
        · have haccepted : acceptedAbi w.db m = some (metadata,row) := by
            simp [acceptedAbi, hm, hs, hrow, ht]
          simp only [Proc.bind_eq, Proc.ret_bind, ht, if_true] at h
          exact evaluate_store hkey hc haccepted h
        · simp only [Proc.bind_eq, Proc.ret_bind, ht] at h
          exact hfailed h (by simp [acceptedAbi, hm, hs, hrow, ht])

end Process
end SafeDecoder.Worker
