import Mathlib.Data.List.Lex
import Mathlib.Data.Prod.Lex
import SafeDecoder.Library.Effects
import SafeDecoder.Library.Paging
import SafeDecoder.Storage.Tables

/-! # Listing the contracts

The query behind the two listings, its pages, and the links between them. A client
that follows `next` sees every row that matches once, and can go back, as long as the
rows fit the response model.
-/
namespace SafeDecoder.Listing
open Effects Paging

section Query

/-- The arguments of `Contract.get_contracts_query` -/
structure ContractsQuery where
  address : Option Bytes := none
  chainIds : Option (List Int) := none
  trustedForDelegateCall : Option Bool := none
  onlyWithAbi : Bool := false

/-- `if value:` for an address or a list: an empty one counts as none. -/
def given {α : Type} (value : Option (List α)) : Option (List α) := value.filter fun l => !l.isEmpty

/-- The `WHERE` clauses -/
def ContractsQuery.selects (q : ContractsQuery) (c : ContractRow) : Bool :=
  (given q.address).all (fun address => c.address = address) &&
    q.trustedForDelegateCall.all (fun trusted => c.trustedForDelegateCall = trusted) &&
    (given q.chainIds).all (fun chainIds => c.chainId ∈ chainIds) &&
    (!q.onlyWithAbi || c.abiId.isSome)

/-- `ORDER BY address, chain_id`: addresses are compared byte by byte. -/
def sortKey (c : ContractRow) : List ℕ ×ₗ Int := toLex (c.address.map UInt8.toNat,c.chainId)

/-- The rows of the query, or the error of a parameter that is no `BIGINT`. -/
def execute (db : Db) (q : ContractsQuery) : Except PyError (List ContractRow) :=
  if (given q.chainIds).all fun chainIds => chainIds.all fitsBigInt then
    .ok ((db.contracts.filter q.selects).insertionSort fun a b => sortKey a ≤ sortKey b)
  else .error .dbApiError

end Query

section Service

/-- What the query of a request may ask for: FastAPI checks `ge=1` and `ge=0`. -/
structure PaginationQueryParams where
  limit : Option ℕ
  offset : Option ℕ
  limit_ge : ∀ l ∈ limit, 1 ≤ l

structure GenericPagination where
  limit : ℕ
  offset : ℕ

/-- The defaults of `GenericPagination.__init__`, which no caller changes. -/
abbrev defaultPageSize : ℕ := 10
abbrev maxPageSize : ℕ := 100

/-- `GenericPagination(limit, offset)` -/
def GenericPagination.init (limit offset : Option ℕ) : GenericPagination where
  limit := (limit.filter fun l => l ≠ 0).elim defaultPageSize fun l => min l maxPageSize
  offset := offset.getD 0

/-- URLs as Starlette handles them and FastAPI reads them: `include_query_params`
replaces the limit and the offset and leaves the filter alone. -/
structure Urls where
  Url : Type
  includeQueryParams : Url → ℕ → ℕ → Url
  params : Url → PaginationQueryParams
  filter : Url → ContractsQuery
  limit_include : ∀ u l o, 1 ≤ l → (params (includeQueryParams u l o)).limit = some l
  offset_include : ∀ u l o, (params (includeQueryParams u l o)).offset = some o
  filter_include : ∀ u l o, filter (includeQueryParams u l o) = filter u

variable {urls : Urls}

structure PaginatedResponse (urls : Urls) where
  count : ℕ
  next : Option urls.Url
  previous : Option urls.Url
  results : List ContractRow

namespace GenericPagination
variable (p : GenericPagination)

def getNextPage (url : urls.Url) (count : ℕ) : Option urls.Url :=
  if p.offset + p.limit < count then some (urls.includeQueryParams url p.limit (p.offset + p.limit))
  else none

def getPreviousPage (url : urls.Url) : Option urls.Url :=
  if 0 < p.offset then some (urls.includeQueryParams url p.limit (max 0 (p.offset - p.limit)))
  else none

/-- `OFFSET` takes a `BIGINT`. -/
def getPage (db : Db) (q : ContractsQuery) : Except PyError (List ContractRow) :=
  if p.offset < 2 ^ 63 then page p.limit p.offset <$> execute db q else .error .dbApiError

def getCount (db : Db) (q : ContractsQuery) : Except PyError ℕ := List.length <$> execute db q

def serialize (url : urls.Url) (results : List ContractRow) (count : ℕ) : PaginatedResponse urls :=
  ⟨count,p.getNextPage url count,p.getPreviousPage url,results⟩

end GenericPagination

/-- `ContractService.get_contracts` -/
def getContracts (db : Db) (p : GenericPagination) (q : ContractsQuery) :
    Except PyError (List ContractRow × ℕ) := do
  let page ← p.getPage db q
  let count ← GenericPagination.getCount db q
  return (page,count)

def isDict : Json → Bool
  | .obj _ => true
  | _ => false

/-- `AbiPublic.abi_json: list[dict] | dict | None` -/
def AbiPublic.acceptsJson : Json → Bool
  | .null => true
  | .arr elems => elems.all isDict
  | document => isDict document

/-- What `ContractsPublic` makes of a row: its address has a checksum when it has 20 bytes. -/
def ContractsPublic.accepts (db : Db) (c : ContractRow) : Bool :=
  c.address.length = 20 && (c.abiId.bind db.abiById).all fun abi => AbiPublic.acceptsJson abi.abiJson

/-- `list_all_contracts` and the body of `list_contracts`: what the request asks for is
read off its URL, and the response has to fit its model. -/
def listContracts (db : Db) (url : urls.Url) : Except PyError (PaginatedResponse urls) := do
  let pagination := GenericPagination.init (urls.params url).limit (urls.params url).offset
  let (contractsPage,count) ← getContracts db pagination (urls.filter url)
  if contractsPage.all (ContractsPublic.accepts db) then
    return pagination.serialize url contractsPage count
  else throw (.other "ResponseValidationError")

/-- The pages that a client sees who follows `next` to the end. -/
inductive Visits (db : Db) : urls.Url → List (PaginatedResponse urls) → Prop
  | last {url r} (h : listContracts db url = .ok r) (hnext : r.next = none) : Visits db url [r]
  | next {url url' r rest} (h : listContracts db url = .ok r) (hnext : r.next = some url')
      (hrest : Visits db url' rest) : Visits db url (r :: rest)

end Service
section Rows
variable {db : Db} {q : ContractsQuery} {rows : List ContractRow}

/-- What a row has to have to be listed. An empty address or list is no filter. -/
structure Matches (q : ContractsQuery) (c : ContractRow) : Prop where
  address : ∀ address, q.address = some address → address ≠ [] → c.address = address
  trusted : ∀ trusted, q.trustedForDelegateCall = some trusted → c.trustedForDelegateCall = trusted
  chain : ∀ chainIds, q.chainIds = some chainIds → chainIds ≠ [] → c.chainId ∈ chainIds
  abi : q.onlyWithAbi → c.abiId.isSome

theorem given_eq_some {α : Type} {value : Option (List α)} {l : List α} :
    given value = some l ↔ value = some l ∧ l ≠ [] := by
  rw [given, Option.filter_eq_some_iff]
  simp

theorem selects_iff {c : ContractRow} : q.selects c ↔ Matches q c := by
  simp only [ContractsQuery.selects, Bool.and_eq_true, decide_eq_true_eq, Option.all_eq_true,
    Bool.or_eq_true, Bool.not_eq_true', given_eq_some]
  constructor
  · rintro ⟨⟨⟨haddress,htrusted⟩,hchain⟩,habi⟩
    refine ⟨fun a ha hne => haddress a ⟨ha,hne⟩,htrusted,fun l hl hne => hchain l ⟨hl,hne⟩,fun h => ?_⟩
    simpa [h] using habi
  · rintro ⟨haddress,htrusted,hchain,habi⟩
    refine ⟨⟨⟨fun a ha => haddress a ha.1 ha.2,htrusted⟩,fun l hl => hchain l hl.1 hl.2⟩,?_⟩
    cases h : q.onlyWithAbi with
    | false => exact .inl rfl
    | true => exact .inr (habi h)

/-- Addresses that are written alike are the same. -/
theorem sortKey_injOn {c d : ContractRow} (h : sortKey c = sortKey d) : c.key = d.key := by
  have hkey := toLex.injective h
  have haddress : c.address.map UInt8.toNat = d.address.map UInt8.toNat := congrArg Prod.fst hkey
  have hinj : Function.Injective UInt8.toNat := fun _ _ => UInt8.toNat_inj.mp
  have hchain : c.chainId = d.chainId := congrArg Prod.snd hkey
  exact Prod.ext (List.map_injective_iff.mpr hinj haddress) hchain

theorem mem_execute (h : execute db q = .ok rows) {c : ContractRow} :
    c ∈ rows ↔ c ∈ db.contracts ∧ Matches q c := by
  unfold execute at h
  split at h
  · rw [← Except.ok.inj h, (List.perm_insertionSort _ _).mem_iff, List.mem_filter, selects_iff]
  · cases h

theorem length_execute (h : execute db q = .ok rows) : rows.length ≤ db.contracts.length := by
  unfold execute at h
  split at h
  · rw [← Except.ok.inj h, (List.perm_insertionSort _ _).length_eq]
    exact List.length_filter_le _ _
  · cases h

/-- The unique key makes the order strict. -/
theorem execute_sorted (h : execute db q = .ok rows) :
    rows.Pairwise fun a b => sortKey a < sortKey b := by
  unfold execute at h
  split at h
  · rw [← Except.ok.inj h]
    have : Std.Total (fun a b : ContractRow => sortKey a ≤ sortKey b) := ⟨fun a b => le_total _ _⟩
    have : IsTrans ContractRow (fun a b => sortKey a ≤ sortKey b) := ⟨fun a b c => le_trans⟩
    have hsorted := List.pairwise_insertionSort (fun a b : ContractRow => sortKey a ≤ sortKey b)
      (db.contracts.filter q.selects)
    have hkeys : (db.contracts.map ContractRow.key).Nodup := db.contractKeys
    have hdistinct : ((db.contracts.filter q.selects).insertionSort fun a b =>
        sortKey a ≤ sortKey b).Pairwise fun a b => a.key ≠ b.key := by
      apply ((List.pairwise_map.mp hkeys).filter _).perm (List.perm_insertionSort _ _).symm
      exact fun hne => Ne.symm hne
    refine (hsorted.and hdistinct).imp fun {a b} hab => ?_
    exact lt_of_le_of_ne hab.1 fun he => hab.2 (sortKey_injOn he)
  · cases h

/-- Only a chain that is no `BIGINT` is refused. -/
theorem execute_isOk (h : ∀ chainIds, q.chainIds = some chainIds → ∀ c ∈ chainIds, fitsBigInt c) :
    ∃ rows, execute db q = .ok rows := by
  refine ⟨_,if_pos ?_⟩
  rw [Option.all_eq_true]
  intro chainIds hids
  exact List.all_eq_true.mpr (h chainIds (given_eq_some.mp hids).1)

end Rows

section Traversal
variable {urls : Urls} {db : Db} {q : ContractsQuery} {rows : List ContractRow}

/-- The limit that the links carry. -/
def clampedLimit : Option ℕ → ℕ
  | some l => min l 100
  | none => 10

/-- What the request for a URL asks for. -/
def Asks (url : urls.Url) (q : ContractsQuery) (p : GenericPagination) : Prop :=
  GenericPagination.init (urls.params url).limit (urls.params url).offset = p ∧ urls.filter url = q

theorem init_eq (params : PaginationQueryParams) :
    GenericPagination.init params.limit params.offset =
      ⟨clampedLimit params.limit,params.offset.getD 0⟩ := by
  unfold GenericPagination.init clampedLimit
  cases hl : params.limit with
  | none => rfl
  | some l =>
    have hpos : l ≠ 0 := Nat.one_le_iff_ne_zero.mp (params.limit_ge l hl)
    simp [Option.filter, hpos]

theorem clampedLimit_bounds (params : PaginationQueryParams) :
    0 < clampedLimit params.limit ∧ clampedLimit params.limit ≤ 100 := by
  cases hl : params.limit with
  | none => exact ⟨by decide,by decide⟩
  | some l =>
    have hpos := params.limit_ge l hl
    exact ⟨by simp [clampedLimit]; omega,Nat.min_le_right _ _⟩

theorem Asks.include {url : urls.Url} {p : GenericPagination} (h : Asks url q p)
    (hpos : 0 < p.limit) (hle : p.limit ≤ 100) (o : ℕ) :
    Asks (urls.includeQueryParams url p.limit o) q ⟨p.limit,o⟩ := by
  refine ⟨?_,by rw [urls.filter_include, h.2]⟩
  rw [init_eq, urls.limit_include url p.limit o hpos, urls.offset_include]
  simp [clampedLimit, hle]

theorem getContracts_eq (hrows : execute db q = .ok rows) {p : GenericPagination}
    (hoffset : p.offset < 2 ^ 63) :
    getContracts db p q = .ok (page p.limit p.offset rows,rows.length) := by
  rw [getContracts, GenericPagination.getPage, if_pos hoffset, GenericPagination.getCount, hrows]
  rfl

theorem listContracts_eq (hrows : execute db q = .ok rows)
    (hvalid : ∀ c ∈ rows, ContractsPublic.accepts db c) {url : urls.Url} {p : GenericPagination}
    (h : Asks url q p) (hoffset : p.offset < 2 ^ 63) :
    listContracts db url = .ok (p.serialize url (page p.limit p.offset rows) rows.length) := by
  obtain ⟨rfl,rfl⟩ := h
  have hpage : (page (GenericPagination.init (urls.params url).limit (urls.params url).offset).limit
      (GenericPagination.init (urls.params url).limit (urls.params url).offset).offset rows).all
        (ContractsPublic.accepts db) := by
    apply List.all_eq_true.mpr
    exact fun c hc => hvalid c (List.mem_of_mem_drop (List.mem_of_mem_take hc))
  rw [listContracts, getContracts_eq hrows hoffset]
  exact if_pos hpage

/-- The page with number `i`; the link back leads to the one before it. -/
structure PageAt (db : Db) (rows : List ContractRow) (limit i : ℕ) (r : PaginatedResponse urls) :
    Prop where
  results : r.results = page limit (i * limit) rows
  count : r.count = rows.length
  previous : 0 < i → ∃ url s, r.previous = some url ∧ listContracts db url = .ok s ∧
    s.results = page limit ((i - 1) * limit) rows ∧ s.count = rows.length

section Pages
variable (hrows : execute db q = .ok rows) (hvalid : ∀ c ∈ rows, ContractsPublic.accepts db c)
  {limit : ℕ} (hpos : 0 < limit) (hle : limit ≤ 100)
include hrows hvalid hpos hle

theorem pageAt {url : urls.Url} {i : ℕ} (hoffset : i * limit < 2 ^ 63)
    (h : Asks url q ⟨limit,i * limit⟩) :
    PageAt db rows limit i ((⟨limit,i * limit⟩ : GenericPagination).serialize url
      (page limit (i * limit) rows) rows.length) := by
  refine ⟨rfl,rfl,fun hi => ?_⟩
  have hback : i * limit - limit = (i - 1) * limit := by rw [Nat.sub_mul, Nat.one_mul]
  have hfits : (i - 1) * limit < 2 ^ 63 := by omega
  have hasks := h.include hpos hle ((i - 1) * limit)
  refine ⟨_,_,?_,listContracts_eq hrows hvalid hasks hfits,rfl,rfl⟩
  change (if 0 < i * limit then some _ else none) = _
  rw [if_pos (Nat.mul_pos hi hpos), hback, Nat.zero_max]

/-- The traversal from the page with number `i` on. -/
theorem visits_from (hcount : rows.length < 2 ^ 63) {n i : ℕ}
    (hn : i + n + 1 = pageCount limit rows.length) {url : urls.Url}
    (h : Asks url q ⟨limit,i * limit⟩) :
    ∃ pages, Visits db url pages ∧ pages.length = n + 1 ∧
      ∀ j r, pages[j]? = some r → PageAt db rows limit (i + j) r := by
  have hoffset : i * limit < 2 ^ 63 := Nat.lt_of_le_of_lt (offset_le hpos (by omega)) hcount
  have hhead := pageAt hrows hvalid hpos hle hoffset h
  have hlist := listContracts_eq hrows hvalid h hoffset
  have hlast := last_iff hpos (show i < pageCount limit rows.length by omega)
  induction n generalizing i url with
  | zero =>
    refine ⟨[_],.last hlist ?_,rfl,fun j r hj => ?_⟩
    · exact if_neg (Nat.not_lt.mpr (hlast.mp hn))
    · obtain ⟨rfl,rfl⟩ : j = 0 ∧ _ = r := by
        cases j with
        | zero => exact ⟨rfl,Option.some.inj hj⟩
        | succ j => cases hj
      exact hhead
  | succ n ih =>
    have hmore : i * limit + limit < rows.length := by
      by_contra hno
      have hend := hlast.mpr (Nat.le_of_not_lt hno)
      omega
    have hasks : Asks (urls.includeQueryParams url limit (i * limit + limit)) q
        ⟨limit,(i + 1) * limit⟩ := by
      rw [Nat.succ_mul]
      exact h.include hpos hle _
    have hnext : (i + 1) * limit < 2 ^ 63 := Nat.lt_of_le_of_lt (offset_le hpos (by omega)) hcount
    obtain ⟨pages,hvisits,hlength,hpages⟩ := ih (i := i + 1) (by omega) hasks hnext
      (pageAt hrows hvalid hpos hle hnext hasks) (listContracts_eq hrows hvalid hasks hnext)
      (last_iff hpos (by omega))
    refine ⟨_,.next hlist (if_pos hmore) hvisits,by rw [List.length_cons, hlength],fun j r hj => ?_⟩
    cases j with
    | zero =>
      obtain rfl := Option.some.inj hj
      exact hhead
    | succ j =>
      have hr := hpages j r hj
      rwa [Nat.add_assoc, Nat.add_comm 1 j] at hr

end Pages

/-- Following the links leaves no choice. -/
theorem Visits.unique {url : urls.Url} {pages pages' : List (PaginatedResponse urls)}
    (h : Visits db url pages) (h' : Visits db url pages') : pages = pages' := by
  induction h generalizing pages' with
  | last hlist hnext =>
    cases h' with
    | last hlist' => rw [Except.ok.inj (hlist.symm.trans hlist')]
    | next hlist' hnext' =>
      obtain rfl := Except.ok.inj (hlist.symm.trans hlist')
      rw [hnext] at hnext'
      cases hnext'
  | next hlist hnext _ ih =>
    cases h' with
    | last hlist' hnext' =>
      obtain rfl := Except.ok.inj (hlist.symm.trans hlist')
      rw [hnext] at hnext'
      cases hnext'
    | next hlist' hnext' hrest' =>
      obtain rfl := Except.ok.inj (hlist.symm.trans hlist')
      rw [hnext] at hnext'
      obtain rfl := Option.some.inj hnext'
      rw [ih hrest']

/-- Every row that matches is on one of the pages, once and in order, and the way back
leads over the same pages. -/
structure Covers (db : Db) (q : ContractsQuery) (limit : ℕ) (pages : List (PaginatedResponse urls)) :
    Prop where
  rows : ∀ c, c ∈ pages.flatMap PaginatedResponse.results ↔ c ∈ db.contracts ∧ Matches q c
  order : (pages.flatMap PaginatedResponse.results).Pairwise fun a b => sortKey a < sortKey b
  number : pages.length = pageCount limit (pages.flatMap PaginatedResponse.results).length
  size : ∀ r ∈ pages, r.results.length ≤ limit
  count : ∀ r ∈ pages, r.count = (pages.flatMap PaginatedResponse.results).length
  back : ∀ i r r', pages[i]? = some r → pages[i + 1]? = some r' →
    ∃ url s, r'.previous = some url ∧ listContracts db url = .ok s ∧ s.results = r.results ∧
      s.count = r.count

/-- Following `next` from the first page comes to an end and covers the rows, unless a
chain is asked for that no row can have, or a row that matches does not fit the response. -/
theorem visits_covers (db : Db) (url : urls.Url) (hstart : (urls.params url).offset.getD 0 = 0)
    (hfits : ∀ chainIds, (urls.filter url).chainIds = some chainIds →
      ∀ c ∈ chainIds, fitsBigInt c)
    (hvalid : ∀ c ∈ db.contracts, Matches (urls.filter url) c → ContractsPublic.accepts db c)
    (hsize : db.contracts.length < 2 ^ 63) :
    ∃ pages, Visits db url pages ∧ (∀ pages', Visits db url pages' → pages' = pages) ∧
      Covers db (urls.filter url) (clampedLimit (urls.params url).limit) pages := by
  obtain ⟨rows,hrows⟩ : ∃ rows, execute db (urls.filter url) = .ok rows := execute_isOk hfits
  obtain ⟨hpos,hle⟩ := clampedLimit_bounds (urls.params url)
  set limit := clampedLimit (urls.params url).limit with hlimit
  have hasks : Asks url (urls.filter url) ⟨limit,0 * limit⟩ :=
    ⟨by rw [init_eq, hstart, Nat.zero_mul],rfl⟩
  obtain ⟨n,hn⟩ : ∃ n, 0 + n + 1 = pageCount limit rows.length :=
    ⟨pageCount limit rows.length - 1,by unfold pageCount; omega⟩
  have hcount : rows.length < 2 ^ 63 := Nat.lt_of_le_of_lt (length_execute hrows) hsize
  have hrowsValid : ∀ c ∈ rows, ContractsPublic.accepts db c := fun c hc =>
    hvalid c ((mem_execute hrows).mp hc).1 ((mem_execute hrows).mp hc).2
  obtain ⟨pages,hvisits,hlength,hpages⟩ := visits_from hrows hrowsValid hpos hle hcount hn hasks
  have hresults : pages.map PaginatedResponse.results = pagesFrom limit rows 0 (n + 1) := by
    apply List.ext_getElem?
    intro j
    rw [List.getElem?_map, pagesFrom, List.getElem?_map]
    by_cases hj : j < pages.length
    · have hr := hpages j _ (List.getElem?_eq_getElem hj)
      rw [List.getElem?_eq_getElem hj, List.getElem?_range' (by omega)]
      simp [hr.results]
    · rw [List.getElem?_eq_none (by omega), List.getElem?_eq_none (by simp; omega)]
      rfl
  have hflat : pages.flatMap PaginatedResponse.results = rows := by
    rw [List.flatMap, hresults, flatten_pagesFrom, Nat.zero_mul, List.drop_zero]
    rw [← Nat.add_assoc, hn]
    exact count_le hpos _
  refine ⟨pages,hvisits,fun pages' h => h.unique hvisits,?_⟩
  refine ⟨fun c => by rw [hflat, mem_execute hrows],by rw [hflat]; exact execute_sorted hrows,?_,
    fun r hr => ?_,fun r hr => ?_,fun i r r' hr hr' => ?_⟩
  · rw [hflat, hlength, ← hn, Nat.zero_add]
  · obtain ⟨j,hj⟩ := List.mem_iff_getElem?.mp hr
    rw [(hpages j r hj).results]
    exact length_page_le _ _ _
  · obtain ⟨j,hj⟩ := List.mem_iff_getElem?.mp hr
    rw [hflat, (hpages j r hj).count]
  · obtain ⟨url',s,hprevious,hs,hsame,hcount⟩ := (hpages (i + 1) r' hr').previous (by omega)
    refine ⟨url',s,hprevious,hs,?_,by rw [hcount, (hpages i r hr).count]⟩
    have hi : 0 + (i + 1) - 1 = 0 + i := by omega
    rw [hsame, (hpages i r hr).results, hi]

end Traversal

section Examples

/-- What a request reads off its URL, and nothing else of it. -/
def plainUrls : Urls where
  Url := PaginationQueryParams × ContractsQuery
  includeQueryParams := fun u l o =>
    (⟨if 1 ≤ l then some l else none,some o,fun _ h => by split at h <;> cases h; assumption⟩,u.2)
  params := Prod.fst
  filter := Prod.snd
  limit_include := fun _ _ _ h => if_pos h
  offset_include := fun _ _ _ => rfl
  filter_include := fun _ _ _ => rfl

/-- The first request of a client that asks for pages of two rows. -/
def inPairs (q : ContractsQuery) : plainUrls.Url := (⟨some 2,none,fun _ h => by cases h; decide⟩,q)

def contractAt (abiId : Option ℕ) (chainId : Int) : ContractRow :=
  ⟨0,List.replicate 20 1,none,none,none,false,none,0,abiId,none,chainId⟩

/-- Four contracts at one address. The ABI of one of them is no list of objects. -/
def fourChains : Db where
  sources := []
  abis := [⟨1,100,.arr [.obj [("type",.str "fallback")]],0⟩, ⟨2,0,.arr [.null],0⟩]
  contracts := [contractAt (some 1) 3, contractAt none 1, contractAt (some 2) 2, contractAt none 7]
  abiIds := by decide
  contractKeys := by decide

theorem visits_fourChains :
    ∃ pages, Visits fourChains (inPairs { chainIds := some [1,3,7] }) pages ∧
      (∀ pages', Visits fourChains (inPairs { chainIds := some [1,3,7] }) pages' → pages' = pages) ∧
      Covers fourChains { chainIds := some [1,3,7] } 2 pages := by
  refine visits_covers fourChains (inPairs { chainIds := some [1,3,7] }) rfl
    (fun _ h => by cases h; decide) (fun c hc hmatches => ?_) (by decide)
  have hchain := hmatches.chain [1,3,7] rfl (by simp)
  simp only [fourChains, List.mem_cons, List.not_mem_nil, or_false] at hc
  rcases hc with rfl | rfl | rfl | rfl
  · rfl
  · rfl
  · exact absurd hchain (by decide)
  · rfl

theorem not_visits_of_error {db : Db} {url : plainUrls.Url} {e : PyError}
    (h : listContracts db url = .error e) : ¬∃ pages, Visits db url pages := by
  rintro ⟨pages,hvisits⟩
  cases hvisits with
  | last hlist => cases h.symm.trans hlist
  | next hlist => cases h.symm.trans hlist

/-- A chain that no row can have, and a row that the response cannot show: the first request
is answered with an error. -/
theorem not_visits :
    (¬∃ pages, Visits fourChains (inPairs { chainIds := some [2 ^ 63] }) pages) ∧
      ¬∃ pages, Visits fourChains (inPairs { chainIds := some [2] }) pages :=
  ⟨not_visits_of_error (e := .dbApiError) rfl,
    not_visits_of_error (e := .other "ResponseValidationError") rfl⟩

end Examples
end SafeDecoder.Listing
