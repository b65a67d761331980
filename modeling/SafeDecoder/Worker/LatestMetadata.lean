import SafeDecoder.Worker.Processing

/-! # What a contract says after several downloads

Each successful call overwrites the ABI and the name of its contract. The implementation
is set by metadata that names one and cleared by nothing.
-/
namespace SafeDecoder.LatestMetadata
open Worker Machine Redelivery Processing

variable {pg : Postgres} {m : EnhancedContractMetadata} {metadata : ContractMetadata}
  {w w' w'' : World pg} {key : ContractKey} {calls : List (EnhancedContractMetadata × Except PyError Bool)}

section Calls

/-- The implementation that metadata names: one that is not the null address. -/
def named (metadata : ContractMetadata) : Option Bytes :=
  metadata.implementation.filter fun i => i ≠ nullAddress

/-- Calls for one contract, one after the other, with what they ended with. -/
inductive Calls (key : ContractKey) :
    World pg → List (EnhancedContractMetadata × Except PyError Bool) → World pg → Prop
  | none {w : World pg} : Calls key w [] w
  | call {w w' w'' calls m r} (before : Calls key w calls w')
      (hkey : (m.address,m.chainId) = key) (h : Redelivery.Completes m w' r w'') :
      Calls key w (calls ++ [(m,r)]) w''

/-- The contract has no row, or one without an implementation. -/
def Unset (w : World pg) (key : ContractKey) : Prop :=
  (w.contract key).bind ContractRow.implementation = none

/-- The contract says what its latest metadata say, and counts as a proxy if these name
an implementation. -/
def Reflects (w : World pg) (key : ContractKey) (metadata : ContractMetadata) : Prop :=
  ∃ c abi rows, w.contract key = some c ∧ HoldsAlone w metadata.abi abi ∧ c.abiId = some abi.id ∧
    c.name = metadata.name ∧ c.implementation = named metadata ∧
    (respond unasked w active .selectProxyContracts).1 = .ok rows ∧
    (c ∈ rows ↔ (named metadata).isSome)

end Calls

section Main

theorem loaded_implementation :
    (loaded w m).implementation = (w.contract (m.address,m.chainId)).bind ContractRow.implementation := by
  unfold loaded
  cases w.contract (m.address,m.chainId) <;> rfl

/-- What a call that returns `True` does to the implementation. -/
theorem implementation_stored (hm : m.metadata = some metadata)
    (h : Redelivery.Completes m w (.ok true) w') :
    (w'.contract (m.address,m.chainId)).bind ContractRow.implementation =
      (named metadata).or ((w.contract (m.address,m.chainId)).bind ContractRow.implementation) := by
  rcases completes_cases h with ⟨_,hr,_⟩ | ⟨hfits,hends⟩
  · cases hr
  cases hends with
  | @stored metadata' source haccepted =>
    have hsame := (acceptedAbi_eq_some haccepted).1
    rw [hm] at hsame
    cases hsame
    obtain ⟨abi,_,hcontract⟩ := contract_stored metadata source w hfits
    have hrow := hcontract (m.address,m.chainId)
    rw [if_pos rfl] at hrow
    rw [← loaded_implementation (w := w)]
    change ((stored m metadata source w).contract _).bind _ = _
    rw [hrow]
    rfl

/-- A call that returns `False` or raises leaves the implementation alone. -/
theorem implementation_kept {r : Except PyError Bool} (hr : r ≠ .ok true)
    (h : Redelivery.Completes m w r w') :
    (w'.contract (m.address,m.chainId)).bind ContractRow.implementation =
      (w.contract (m.address,m.chainId)).bind ContractRow.implementation := by
  rcases completes_cases h with ⟨_,_,rfl⟩ | ⟨hfits,hends⟩
  · rfl
  have hloaded : ((withContract m w).contract (m.address,m.chainId)).bind ContractRow.implementation =
      (w.contract (m.address,m.chainId)).bind ContractRow.implementation := by
    rw [contract_withContract_eq hfits, if_pos rfl, ← loaded_implementation]
    rfl
  cases hends with
  | failed _ =>
    rw [loaded_key, contract_updateContract, if_pos rfl, ← hloaded]
    cases (withContract m w).contract (m.address,m.chainId) <;> rfl
  | stored _ => exact absurd rfl hr
  | refused _ _ hw =>
    rcases hw with rfl | rfl
    · exact hloaded
    · rw [contract_withAbi, hloaded]

theorem unset_call {r : Except PyError Bool} (hkey : (m.address,m.chainId) = key)
    (h : Redelivery.Completes m w r w') :
    Unset w' key ↔ Unset w key ∧
      (r = .ok true → ∀ metadata, m.metadata = some metadata → named metadata = none) := by
  subst hkey
  unfold Unset
  by_cases hr : r = .ok true
  · subst hr
    obtain ⟨metadata,_,_,hm,_⟩ := (completes_processed h).stored rfl
    rw [implementation_stored hm h, Option.or_eq_none_iff, and_comm]
    refine and_congr_right fun _ => ⟨fun hnone _ metadata' hm' => ?_,fun hall => hall rfl metadata hm⟩
    rw [hm] at hm'
    cases hm'
    exact hnone
  · rw [implementation_kept hr h]
    exact ⟨fun hnone => ⟨hnone,fun hok => absurd hok hr⟩,fun hboth => hboth.1⟩

/-- The contract has no implementation as long as no successful call has named one. -/
theorem unset_calls (h : Calls key w calls w') :
    Unset w' key ↔ Unset w key ∧ ∀ c ∈ calls, c.2 = .ok true →
      ∀ metadata, c.1.metadata = some metadata → named metadata = none := by
  induction h with
  | none => simp
  | call before hkey h ih =>
    rw [unset_call hkey h, ih, and_assoc]
    refine and_congr_right fun _ => ?_
    simp only [List.forall_mem_append, List.forall_mem_singleton]

/-- Who is a proxy for `update_proxies_task`. -/
theorem mem_proxies {c : ContractRow} (hc : w.contract key = some c) :
    ∃ rows, (respond unasked w active .selectProxyContracts).1 = .ok rows ∧
      (c ∈ rows ↔ c.implementation.isSome) := by
  refine ⟨_,rfl,?_⟩
  rw [List.mem_filter]
  exact and_iff_right (mem_of_contract w hc)

/-- After a successful call the contract says what its metadata say if these name an
implementation or the contract had none, and otherwise it does not. It had none if no
successful call before has named one. -/
theorem reflects_iff (before : Calls key w calls w') (hkey : (m.address,m.chainId) = key)
    (h : Redelivery.Completes m w' (.ok true) w'') :
    ∃ metadata, m.metadata = some metadata ∧
      (Reflects w'' key metadata ↔ (named metadata).isSome ∨ Unset w' key) ∧
      (Unset w' key ↔ Unset w key ∧ ∀ c ∈ calls, c.2 = .ok true →
        ∀ metadata, c.1.metadata = some metadata → named metadata = none) := by
  obtain ⟨metadata,abi,c,hm,halone,hc,habi,hname,_⟩ := (completes_processed h).stored rfl
  have himplementation := implementation_stored hm h
  rw [hc, Option.bind_some] at himplementation
  subst hkey
  refine ⟨metadata,hm,?_,unset_calls before⟩
  unfold Unset
  constructor
  · rintro ⟨c',_,_,hc',_,_,_,hsame,_,_⟩
    rw [hc] at hc'
    cases hc'
    rw [hsame] at himplementation
    cases hnamed : named metadata with
    | some i => exact .inl rfl
    | none =>
      rw [hnamed, Option.none_or] at himplementation
      exact .inr himplementation.symm
  · intro hor
    have hsame : c.implementation = named metadata := by
      rw [himplementation]
      rcases hor with hsome | hnone
      · obtain ⟨i,hi⟩ := Option.isSome_iff_exists.mp hsome
        rw [hi, Option.some_or]
      · rw [hnone, Option.or_none]
    obtain ⟨rows,hrows,hmem⟩ := mem_proxies hc
    exact ⟨c,abi,rows,hc,halone,habi,hname,hsame,hrows,hsame ▸ hmem⟩

end Main

section Examples
open Reference

def asProxy : EnhancedContractMetadata :=
  { found with metadata := some { document with implementation := some [2] } }

def afterProxy : World database := (evaluate (Worker.processContractMetadata asProxy) withSource active).2.1

theorem completes_asProxy : Redelivery.Completes asProxy withSource (.ok true) afterProxy :=
  completes_iff_evaluate.mpr ⟨active,rfl⟩

/-- Nothing is found at first, then the contract is a proxy, then one for another implementation. -/
def missing : EnhancedContractMetadata := { found with metadata := none }

def moved : EnhancedContractMetadata :=
  { found with metadata := some { document with implementation := some [3] } }

def afterMissing : World database :=
  (evaluate (Worker.processContractMetadata missing) withSource active).2.1

def afterFirst : World database :=
  (evaluate (Worker.processContractMetadata asProxy) afterMissing active).2.1

def afterMoved : World database :=
  (evaluate (Worker.processContractMetadata moved) afterFirst active).2.1

theorem reflects_moved : ∃ metadata, moved.metadata = some metadata ∧
    Reflects afterMoved ([1],1) metadata ∧ ¬Unset afterFirst ([1],1) := by
  have hmissing : Redelivery.Completes missing withSource (.ok false) afterMissing :=
    completes_iff_evaluate.mpr ⟨active,rfl⟩
  have hproxy : Redelivery.Completes asProxy afterMissing (.ok true) afterFirst :=
    completes_iff_evaluate.mpr ⟨active,rfl⟩
  have hmoved : Redelivery.Completes moved afterFirst (.ok true) afterMoved :=
    completes_iff_evaluate.mpr ⟨active,rfl⟩
  have hcalls : Calls ([1],1) withSource [(missing,.ok false), (asProxy,.ok true)] afterFirst :=
    .call (.call .none rfl hmissing) rfl hproxy
  obtain ⟨metadata,hm,hiff,hunset⟩ := reflects_iff hcalls rfl hmoved
  cases hm
  refine ⟨_,rfl,hiff.mpr (.inl rfl),fun h => ?_⟩
  have hnamed := (hunset.mp h).2 (asProxy,.ok true) (List.mem_cons_of_mem _ List.mem_cons_self) rfl _ rfl
  cases hnamed

def afterBoth : World database := (evaluate (Worker.processContractMetadata found) afterProxy active).2.1

/-- The contract is no proxy any more, and is still updated as one. -/
theorem asProxy_found_notReflects :
    Calls ([1],1) withSource [(asProxy,.ok true)] afterProxy ∧
      Redelivery.Completes found afterProxy (.ok true) afterBoth ∧
      found.metadata = some document ∧ document.implementation = none ∧
      (afterBoth.contract ([1],1)).bind ContractRow.implementation = some [2] ∧
      ¬Reflects afterBoth ([1],1) document := by
  refine ⟨.call .none rfl completes_asProxy,completes_iff_evaluate.mpr ⟨active,rfl⟩,rfl,rfl,rfl,?_⟩
  rintro ⟨c,_,_,hc,_,_,_,hsame,_,_⟩
  have hkept : (afterBoth.contract ([1],1)).bind ContractRow.implementation = some [2] := rfl
  rw [hc, Option.bind_some, hsame] at hkept
  cases hkept

end Examples
end SafeDecoder.LatestMetadata
