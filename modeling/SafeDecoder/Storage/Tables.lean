import SafeDecoder.Data.Json
import SafeDecoder.Library.RankedStream
import Mathlib.Data.List.Sort

/-! # The tables and the queries that the services run

Rows hold the columns that some query reads or some task writes; the two
timestamps are left out. The uniqueness that Postgres enforces is carried by the
database value itself, so a query that relies on it needs no further premise.
-/
namespace SafeDecoder

structure AbiSourceRow where
  id : ℕ
  name : String
  url : String
  deriving DecidableEq, Repr

structure AbiRow where
  id : ℕ
  relevance : Int
  abiJson : Json
  sourceId : ℕ

structure ContractRow where
  id : ℕ
  address : Bytes
  name : Option String
  displayName : Option String
  description : Option String
  trustedForDelegateCall : Bool
  implementation : Option Bytes
  fetchRetries : ℕ
  abiId : Option ℕ
  projectId : Option ℕ
  chainId : Int
  deriving DecidableEq, Repr

/-- The unique key `address_chain_unique`. -/
def ContractRow.key (c : ContractRow) : Bytes × Int := (c.address, c.chainId)

structure Db where
  sources : List AbiSourceRow
  abis : List AbiRow
  contracts : List ContractRow
  abiIds : (abis.map AbiRow.id).Nodup
  contractKeys : (contracts.map ContractRow.key).Nodup

theorem contractKeys_nil : (([] : List ContractRow).map ContractRow.key).Nodup := List.nodup_nil

/-- The column `chain_id` is a `BigInteger`: asyncpg refuses any other parameter. -/
def fitsBigInt (n : Int) : Bool := -2 ^ 63 ≤ n && n < 2 ^ 63

section AbiQueries

/-- `Abi.get_last_inserted_id` -/
def getLastInsertedId (abis : List AbiRow) : Option ℕ := (abis.map AbiRow.id).max?

/-- `Abi.get_abis_with_id_greater_than`, as rows -/
def getAbisWithIdGreaterThan (abis : List AbiRow) (lastId : ℕ) : List AbiRow :=
  (abis.filter fun r => lastId < r.id).insertionSort fun a b => a.id ≤ b.id

/-- The row orders that `ORDER BY relevance` of `Abi.get_abis_sorted_by_relevance` allows. -/
def IsRelevanceOrder (abis order : List AbiRow) : Prop :=
  RankedStream.IsOrder AbiRow.relevance abis order

theorem le_of_getLastInsertedId {abis : List AbiRow} {n : ℕ} (h : getLastInsertedId abis = some n)
    {r : AbiRow} (hr : r ∈ abis) : r.id ≤ n :=
  (List.max?_eq_some_iff.mp h).2 r.id (List.mem_map_of_mem hr)

theorem exists_of_getLastInsertedId {abis : List AbiRow} {n : ℕ}
    (h : getLastInsertedId abis = some n) : ∃ r ∈ abis, r.id = n :=
  List.mem_map.mp (List.max?_eq_some_iff.mp h).1

@[simp] theorem getLastInsertedId_eq_none {abis : List AbiRow} :
    getLastInsertedId abis = none ↔ abis = [] := by
  rw [getLastInsertedId, List.max?_eq_none_iff, List.map_eq_nil_iff]

theorem exists_getLastInsertedId {abis : List AbiRow} {r : AbiRow} (hr : r ∈ abis) :
    ∃ n, getLastInsertedId abis = some n ∧ r.id ≤ n := by
  cases hn : getLastInsertedId abis with
  | none =>
    rw [getLastInsertedId_eq_none.mp hn] at hr
    cases hr
  | some n => exact ⟨n,rfl,le_of_getLastInsertedId hn hr⟩

theorem mem_getAbisWithIdGreaterThan {abis : List AbiRow} {n : ℕ} {r : AbiRow} :
    r ∈ getAbisWithIdGreaterThan abis n ↔ r ∈ abis ∧ n < r.id := by
  rw [getAbisWithIdGreaterThan, (List.perm_insertionSort _ _).mem_iff, List.mem_filter,
    decide_eq_true_eq]

theorem getAbisWithIdGreaterThan_sorted (abis : List AbiRow) (n : ℕ) :
    RankedStream.Sorted AbiRow.id (getAbisWithIdGreaterThan abis n) := by
  have : Std.Total (fun a b : AbiRow => a.id ≤ b.id) := ⟨fun a b => le_total _ _⟩
  have : IsTrans AbiRow (fun a b => a.id ≤ b.id) := ⟨fun a b c => le_trans⟩
  exact List.pairwise_insertionSort _ _

end AbiQueries

namespace Db
variable (db : Db)

/-- `Contract.get_contract` -/
def getContract (address : Bytes) (chainId : Int) : Option ContractRow :=
  db.contracts.find? fun c => c.address = address && c.chainId = chainId

def abiById (id : ℕ) : Option AbiRow := db.abis.find? fun r => r.id = id

/-- The join of the contracts at an address with their ABIs. -/
def contractAbis (address : Bytes) : List (Int × Json) :=
  db.contracts.filterMap fun c =>
    if c.address = address then
      (c.abiId.bind db.abiById).map fun r => (c.chainId, r.abiJson)
    else none

/-- `first()` of the selected documents; a falsy document counts as no result. -/
def firstTruthy (rows : List (Int × Json)) : Option Json :=
  (rows.head?.map Prod.snd).filter Json.truthy

/-- `Contract.get_abi_by_contract_address`: without a chain the rows are sorted by chain. -/
def getAbiByContractAddress (address : Bytes) (chainId : Option Int) :
    Except PyError (Option Json) :=
  match chainId with
  | some chain =>
    if fitsBigInt chain then
      .ok (firstTruthy ((db.contractAbis address).filter fun e => e.1 = chain))
    else .error .dbApiError
  | none =>
    .ok (firstTruthy ((db.contractAbis address).insertionSort fun a b => a.1 ≤ b.1))

theorem firstTruthy_truthy {rows : List (Int × Json)} {abi : Json}
    (h : firstTruthy rows = some abi) : abi.truthy := (Option.filter_eq_some_iff.mp h).2

theorem getAbiByContractAddress_truthy {address : Bytes} {chainId : Option Int} {abi : Json}
    (h : db.getAbiByContractAddress address chainId = .ok (some abi)) : abi.truthy := by
  unfold getAbiByContractAddress at h
  cases chainId with
  | some chain =>
    dsimp only at h
    by_cases hf : fitsBigInt chain
    · rw [if_pos hf] at h
      exact firstTruthy_truthy (Except.ok.inj h)
    · rw [if_neg hf] at h
      cases h
  | none => exact firstTruthy_truthy (Except.ok.inj h)

theorem mem_contractAbis {address : Bytes} {e : Int × Json} (h : e ∈ db.contractAbis address) :
    ∃ r ∈ db.abis, r.abiJson = e.2 := by
  obtain ⟨c,_,hc⟩ := List.mem_filterMap.mp h
  split at hc
  · obtain ⟨r,hr,rfl⟩ := Option.map_eq_some_iff.mp hc
    obtain ⟨id,_,hid⟩ := Option.bind_eq_some_iff.mp hr
    exact ⟨r,List.mem_of_find?_eq_some hid,rfl⟩
  · cases hc

theorem mem_of_firstTruthy {rows : List (Int × Json)} {abi : Json}
    (h : firstTruthy rows = some abi) : ∃ e ∈ rows, e.2 = abi := by
  obtain ⟨e,he,hj⟩ := Option.map_eq_some_iff.mp (Option.filter_eq_some_iff.mp h).1
  exact ⟨e,List.mem_of_head? he,hj⟩

/-- The document that the query finds is one of the stored ones. -/
theorem getAbiByContractAddress_stored {address : Bytes} {chainId : Option Int} {abi : Json}
    (h : db.getAbiByContractAddress address chainId = .ok (some abi)) :
    ∃ r ∈ db.abis, r.abiJson = abi := by
  have hrows : ∃ e ∈ db.contractAbis address, e.2 = abi := by
    unfold getAbiByContractAddress at h
    cases chainId with
    | some chain =>
      dsimp only at h
      by_cases hf : fitsBigInt chain
      · rw [if_pos hf] at h
        obtain ⟨e,he,hj⟩ := mem_of_firstTruthy (Except.ok.inj h)
        exact ⟨e,List.mem_of_mem_filter he,hj⟩
      · rw [if_neg hf] at h
        cases h
    | none =>
      obtain ⟨e,he,hj⟩ := mem_of_firstTruthy (Except.ok.inj h)
      exact ⟨e,(List.perm_insertionSort _ _).mem_iff.mp he,hj⟩
  obtain ⟨e,he,rfl⟩ := hrows
  exact db.mem_contractAbis he

/-- The row of a contract decides what the query for its address and chain finds. -/
theorem getAbiByContractAddress_row {c : ContractRow} (hc : c ∈ db.contracts) {r : AbiRow}
    (hr : c.abiId.bind db.abiById = some r) (hfits : fitsBigInt c.chainId)
    (ht : r.abiJson.truthy) :
    db.getAbiByContractAddress c.address (some c.chainId) = .ok (some r.abiJson) := by
  have hmem : (c.chainId,r.abiJson) ∈ (db.contractAbis c.address).filter fun e => e.1 = c.chainId := by
    refine List.mem_filter.mpr ⟨List.mem_filterMap.mpr ⟨c,hc,?_⟩,by simp⟩
    rw [if_pos rfl, hr]
    rfl
  have huniq : ∀ e ∈ (db.contractAbis c.address).filter fun e => e.1 = c.chainId,
      e.2 = r.abiJson := by
    intro e he
    obtain ⟨he,hchain⟩ := List.mem_filter.mp he
    obtain ⟨c',hc',h⟩ := List.mem_filterMap.mp he
    split at h
    · rename_i haddress
      obtain ⟨q,hq,rfl⟩ := Option.map_eq_some_iff.mp h
      have hkey : c'.key = c.key := Prod.ext haddress (decide_eq_true_eq.mp hchain)
      have hsame := List.inj_on_of_nodup_map db.contractKeys hc' hc hkey
      rw [hsame, hr] at hq
      cases hq
      rfl
    · cases h
  rw [getAbiByContractAddress, if_pos hfits]
  cases hl : (db.contractAbis c.address).filter fun e => e.1 = c.chainId with
  | nil =>
    rw [hl] at hmem
    cases hmem
  | cons e rest =>
    have he := huniq e (hl ▸ List.mem_cons_self ..)
    simp [firstTruthy, he, ht]

/-- Only an out-of-range chain makes the query raise. -/
theorem getAbiByContractAddress_isOk (address : Bytes) (chainId : Option Int)
    (h : ∀ c, chainId = some c → fitsBigInt c) :
    ∃ r, db.getAbiByContractAddress address chainId = .ok r := by
  cases chainId with
  | some c => exact ⟨_,if_pos (h c rfl)⟩
  | none => exact ⟨_,rfl⟩

end Db
end SafeDecoder
