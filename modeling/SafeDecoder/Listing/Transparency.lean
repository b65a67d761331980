import SafeDecoder.Listing.ContractCache
import SafeDecoder.Listing.FieldKey
import SafeDecoder.Listing.PublicUrl

/-! # The listing with and without its cache

The hash of a response is known by the address in lower case only, and its field by everything
else that the response depends on. The field is computed before the address is looked at.
-/
namespace SafeDecoder.Transparency
open Effects Worker Listing ContractCache FieldKey Machine

variable {pg : Postgres} {urls : Urls}

section Model

/-- What the endpoint is built on. -/
structure Website (urls : Urls) where
  components : urls.Url → Except PyError PublicUrl.Components
  replace : urls.Url → (scheme hostname port : Option String) → (path : String) → Except PyError urls.Url
  /-- `url.query`, which every link to another page is built from -/
  readQuery : urls.Url → Except PyError String
  /-- `str(url)` -/
  str : urls.Url → String
  /-- `fast_is_checksum_address` -/
  isChecksumAddress : String → Bool
  /-- `HexBytes(address)` -/
  toBytes : String → Bytes
  /-- `str.lower`, of all of Unicode -/
  lower : String → String
  md5 : String → String

abbrev Website.starlette (web : Website urls) : PublicUrl.Starlette := ⟨urls.Url,web.components,web.replace⟩

/-- `pagination.serialize`, where a link needs a URL that can be read. -/
def Website.serialize (web : Website urls) (p : GenericPagination) (url : urls.Url)
    (page : List ContractRow) (count : ℕ) : Except PyError (PaginatedResponse urls) :=
  let response := p.serialize url page count
  if response.next.isSome ∨ response.previous.isSome then do
    let _ ← web.readQuery url
    return response
  else return response

/-- The arguments of `list_contracts`, with the request they have been read from. -/
structure ListRequest (web : Website urls) extends PublicUrl.Request web.starlette where
  address : String
  paginationParams : PaginationQueryParams
  chainIds : Option (List Int)

variable {web : Website urls}

def httpException : PyError := .other "HTTPException"

namespace ListRequest
variable (r : ListRequest web)

/-- `get_proxy_aware_url(request)` -/
def publicUrl : Except PyError urls.Url := PublicUrl.getProxyAwareUrl r.toRequest

def pagination : GenericPagination :=
  GenericPagination.init r.paginationParams.limit r.paginationParams.offset

def query : ContractsQuery := { address := some (web.toBytes r.address), chainIds := r.chainIds }

/-- `get_key_for_contract(**kwargs)` -/
def hashKey : String := "contract:" ++ web.lower r.address

/-- `get_field_key(kwargs)` -/
def fieldKey : Except PyError String := do
  let url ← r.publicUrl
  return web.md5 (rawKey ⟨r.address,r.chainIds,r.paginationParams,web.str url⟩)

/-- `list_contracts` as it is written -/
def listContracts : Visit urls (PaginatedResponse urls) :=
  if web.isChecksumAddress r.address then do
    let page ← send (.selectPage r.pagination r.query)
    let count ← send (.selectCount r.query)
    let url ← fromExcept r.publicUrl
    fromExcept (web.serialize r.pagination url page count)
  else throw httpException

/-- The end of the wrapper: the response is stored, and its hash given a deadline if it has none. -/
def store (expire : ℕ) (field : String) (response : PaginatedResponse urls) :
    Visit urls (PaginatedResponse urls) := do
  send (.hset r.hashKey field response)
  if (← send (.ttl r.hashKey)) = -1 then send (.expire r.hashKey expire)
  return response

/-- `list_contracts` as it is served, in the wrapper of `cache_response` -/
def served (expire : ℕ) : Visit urls (PaginatedResponse urls) := do
  let field ← fromExcept r.fieldKey
  match ← send (.hget r.hashKey field) with
  | some cached => return cached
  | none =>
    let response ← r.listContracts
    r.store expire field response

/-- What `list_contracts` gives for a database that does not change. -/
def undecorated (db : Db) : Except PyError (PaginatedResponse urls) :=
  if web.isChecksumAddress r.address then do
    let page ← r.pagination.getPage db r.query
    let count ← GenericPagination.getCount db r.query
    let url ← r.publicUrl
    web.serialize r.pagination url page count
  else .error httpException

/-- The field is computed first, whatever comes of it. -/
def decorated (db : Db) : Except PyError (PaginatedResponse urls) := do
  let _ ← r.fieldKey
  r.undecorated db

/-- The address is refused, and the address of the service cannot be built. -/
def Unbuildable : Prop := web.isChecksumAddress r.address = false ∧ ∃ e, r.publicUrl = .error e

end ListRequest

/-- A response as the client sees it. -/
inductive HttpResponse (urls : Urls)
  | page (body : PaginatedResponse urls)
  | error (status : ℕ) (detail : String)

def httpResponse : Except PyError (PaginatedResponse urls) → HttpResponse urls
  | .ok body => .page body
  | .error e =>
    if e = httpException then .error 400 "Address is not checksummed"
    else .error 500 "Internal Server Error"

/-- Time passes, a hash is dropped, and a request arrives. -/
inductive VisitMove (web : Website urls)
  | pass (seconds : ℕ)
  | drop (key : String)
  | arrive (r : ListRequest web)

inductive VisitMoves : VisitMove web → Site pg urls → Site pg urls → List (ListRequest web) → Prop
  | pass (seconds : ℕ) (s : Site pg urls) : VisitMoves (.pass seconds) s (s.pass seconds) []
  | drop (key : String) (s : Site pg urls) : VisitMoves (.drop key) s (s.unlink key) []
  | arrive (r : ListRequest web) (s : Site pg urls) : VisitMoves (.arrive r) s s [r]

/-- Requests side by side. Each may be cut off, and nobody writes to the database. -/
def visits (pg : Postgres) (web : Website urls) : Machine (SiteCommand urls) SiteCommand.Answer PyError
    (Site pg urls) DbSession (VisitMove web) (ListRequest web) (PaginatedResponse urls) where
  exec := SiteExec fun _ _ _ _ => True
  move := VisitMoves
  program := fun r => r.served 60
  session := active

abbrev VisitsConfig (pg : Postgres) (web : Website urls) :=
  Config (SiteCommand urls) SiteCommand.Answer PyError (Site pg urls) DbSession (ListRequest web)
    (PaginatedResponse urls)

abbrev VisitEvent (web : Website urls) :=
  Event (SiteCommand urls) SiteCommand.Answer PyError (VisitMove web)

/-- Different texts have different digests and different URLs different texts, and URLs raise
nothing that stands for a response. -/
structure Website.Sound (web : Website urls) : Prop where
  md5 : Function.Injective web.md5
  str : Function.Injective web.str
  raises : ∀ (r : ListRequest web) e, r.publicUrl = .error e → e ≠ httpException

/-- A request that has been answered has got what it would have got without the cache. -/
def Answered (db : Db) (r : ListRequest web) (outcome : Except PyError (PaginatedResponse urls)) : Prop :=
  outcome ≠ .error .cancelledError → httpResponse outcome = httpResponse (r.undecorated db)

/-- Every request is answered so, except that an error takes the place of the refusal where the
address of the service cannot be built. -/
structure AlmostTransparent (db : Db) (r : ListRequest web)
    (outcome : Except PyError (PaginatedResponse urls)) : Prop where
  answered : ¬r.Unbuildable → Answered db r outcome
  failed : r.Unbuildable → outcome ≠ .error .cancelledError →
    httpResponse outcome = .error 500 "Internal Server Error" ∧
      httpResponse (r.undecorated db) = .error 400 "Address is not checksummed"

end Model

section Keys
variable {web : Website urls} {q r : ListRequest web} {db : Db}

/-- Requests with the same field have the same arguments and the same public URL. -/
theorem arguments_of_fieldKey (hweb : web.Sound) {field : String} (hq : q.fieldKey = .ok field)
    (hr : r.fieldKey = .ok field) : q.address = r.address ∧ q.chainIds = r.chainIds ∧
      q.paginationParams = r.paginationParams ∧ q.publicUrl = r.publicUrl := by
  obtain ⟨url,hurl,hq⟩ := bind_eq_ok_iff.mp hq
  obtain ⟨url',hurl',hr⟩ := bind_eq_ok_iff.mp hr
  have hdigest := (Except.ok.inj hq).trans (Except.ok.inj hr).symm
  have hpayload := rawKey_injective (hweb.md5 hdigest)
  rw [Payload.mk.injEq] at hpayload
  obtain ⟨haddress,hids,hparams,htext⟩ := hpayload
  refine ⟨haddress,hids,hparams,?_⟩
  rw [hurl, hurl', hweb.str htext]

theorem undecorated_of_fieldKey (hweb : web.Sound) {field : String} (hq : q.fieldKey = .ok field)
    (hr : r.fieldKey = .ok field) : q.undecorated db = r.undecorated db := by
  obtain ⟨haddress,hids,hparams,hurl⟩ := arguments_of_fieldKey hweb hq hr
  simp only [ListRequest.undecorated, ListRequest.pagination, ListRequest.query, haddress, hids, hparams,
    hurl]

theorem fieldKey_error {e : PyError} : r.fieldKey = .error e ↔ r.publicUrl = .error e := by
  rw [ListRequest.fieldKey]
  cases r.publicUrl with
  | error e' => simp
  | ok url => simp [pure, Except.pure]

/-- Nothing that the database raises stands for a response. -/
theorem execute_error {α : Type} {q : ContractsQuery} {f : List ContractRow → α} {e : PyError}
    (h : f <$> execute db q = .error e) : e ≠ httpException := by
  unfold execute at h
  split at h <;> cases h
  decide

theorem getPage_error {p : GenericPagination} {q : ContractsQuery} {e : PyError}
    (h : p.getPage db q = .error e) : e ≠ httpException := by
  unfold GenericPagination.getPage at h
  split at h
  · exact execute_error h
  · cases h
    decide

/-- What comes after it fails, and it raises nothing that stands for a response. -/
theorem httpResponse_bind {α : Type} {x : Except PyError α}
    {f : α → Except PyError (PaginatedResponse urls)} (hx : ∀ e, x = .error e → e ≠ httpException)
    (hf : ∀ a, httpResponse (f a) = .error 500 "Internal Server Error") :
    httpResponse (x >>= f) = .error 500 "Internal Server Error" := by
  cases x with
  | error e => exact if_neg (hx e rfl)
  | ok a => exact hf a

/-- An address that is looked up fails as well where the field does. -/
theorem undecorated_failed (hweb : web.Sound) (hchecked : web.isChecksumAddress r.address = true)
    {e : PyError} (hurl : r.publicUrl = .error e) :
    httpResponse (r.undecorated db) = .error 500 "Internal Server Error" := by
  rw [ListRequest.undecorated, if_pos hchecked]
  apply httpResponse_bind fun _ => getPage_error
  intro page
  apply httpResponse_bind fun _ => execute_error
  intro count
  rw [hurl]
  exact if_neg (hweb.raises r e hurl)

/-- Only where the field cannot be computed does it matter that it is computed first. -/
theorem httpResponse_decorated (hweb : web.Sound) (h : ¬r.Unbuildable) :
    httpResponse (r.decorated db) = httpResponse (r.undecorated db) := by
  rw [ListRequest.decorated]
  cases hfield : r.fieldKey with
  | ok field => rfl
  | error e =>
    have hurl := fieldKey_error.mp hfield
    have hchecked : web.isChecksumAddress r.address = true := by
      by_contra hno
      exact h ⟨Bool.eq_false_iff.mpr hno,e,hurl⟩
    rw [undecorated_failed hweb hchecked hurl]
    exact if_neg (hweb.raises r e hurl)

theorem httpResponse_unbuildable (hweb : web.Sound) (h : r.Unbuildable) :
    httpResponse (r.decorated db) = .error 500 "Internal Server Error" ∧
      httpResponse (r.undecorated db) = .error 400 "Address is not checksummed" := by
  obtain ⟨hchecked,e,hurl⟩ := h
  constructor
  · rw [ListRequest.decorated, fieldKey_error.mpr hurl]
    exact if_neg (hweb.raises r e hurl)
  · rw [ListRequest.undecorated, hchecked, if_neg Bool.false_ne_true, httpResponse, if_pos rfl]

end Keys
section Runs
variable {web : Website urls} {db : Db} {i : ℕ}

/-- Whatever is stored is what a request with that field would get without the cache. -/
structure CacheTrue (web : Website urls) (db : Db) (s : Site pg urls) : Prop where
  unchanged : s.world.db = db
  stored : ∀ key field v, s.cached key field = some v →
    ∃ q : ListRequest web, q.fieldKey = .ok field ∧ q.undecorated db = .ok v

theorem CacheTrue.keeps {s s' : Site pg urls} (h : CacheTrue web db s) (hw : s'.world = s.world)
    (hs : ∀ key, Keeps key s s') : CacheTrue web db s' :=
  ⟨by rw [hw]; exact h.unchanged,fun key field v hv => h.stored key field v (hs key field v hv)⟩

theorem CacheTrue.hset {s : Site pg urls} (h : CacheTrue web db s) {r : ListRequest web}
    {key field : String} {v : PaginatedResponse urls} (hfield : r.fieldKey = .ok field)
    (hv : r.undecorated db = .ok v) : CacheTrue web db (s.hset key field v) := by
  refine ⟨h.unchanged,fun k f v' hv' => ?_⟩
  rw [cached_hset] at hv'
  split at hv'
  · rename_i hsame
    obtain ⟨_,rfl⟩ := hsame
    cases hv'
    exact ⟨r,hfield,hv⟩
  · exact h.stored k f v' hv'

theorem keeps_unlink (key k : String) (s : Site pg urls) : Keeps k s (s.unlink key) := by
  intro field v hv
  rw [Site.unlink, cached_setHash] at hv
  split at hv
  · cases hv
  · exact hv

/-- Nothing is asked of the others but that the cache stays true. -/
def truthful (web : Website urls) (db : Db) : Discipline (Site pg urls × Unit) :=
  .uniform (fun s => CacheTrue web db s.1) (fun _ _ => True) (fun _ => trivial) fun _ _ => trivial

def noHistory (_ : Unit) (_ : Site pg urls) (_ : VisitEvent web) : Unit := ()

/-- A program that ends in time ends with `result`. -/
def EndsWith {α : Type} (result : Except PyError α) (outcome : Except PyError α) : Prop :=
  outcome = .error .cancelledError ∨ outcome = result

/-- The rule of one command of a request: it is answered, or the request is cut off. -/
theorem ask {α : Type} {c : SiteCommand urls} {next : Except PyError c.Answer → Visit urls α}
    {Q : Except PyError α → Site pg urls × Unit → DbSession → Prop} {s : Site pg urls × Unit}
    {l : DbSession} (hc : ∀ command, c ≠ .task command)
    (hcut : ∀ t l, Meets (truthful web db) i ((visits pg web).recorded noHistory i) Q
      (next (.error .cancelledError)) t l)
    (hask : ∀ t l r s', CacheTrue web db t → answer t c = some (r,s') → CacheTrue web db s' ∧
      ∀ u, Meets (truthful web db) i ((visits pg web).recorded noHistory i) Q (next r) (s',u) l) :
    Meets (truthful web db) i ((visits pg web).recorded noHistory i) Q (.call c next) s l := by
  apply Meets.call
  rintro t _ hinv r ⟨t',u⟩ l' ⟨he,_⟩
  cases he with
  | task => exact absurd rfl (hc _)
  | request h =>
    obtain ⟨htrue,hnext⟩ := hask t.1 _ r t' hinv h
    exact ⟨⟨htrue,trivial⟩,hnext u⟩
  | cut => exact ⟨⟨hinv,trivial⟩,hcut _ _⟩

theorem meets_of_outcome {α : Type} {x : Visit urls α} {o result : Except PyError α} (hx : x.outcome? = some o)
    (ho : EndsWith result o) (s : Site pg urls × Unit) (l : DbSession) :
    Meets (truthful web db) i ((visits pg web).recorded noHistory i) (fun r _ _ => EndsWith result r) x s l := by
  rcases Proc.eq_of_outcome? hx with ⟨a,rfl,rfl⟩ | ⟨e,rfl,rfl⟩
  · exact Meets.ret fun _ _ _ => ho
  · exact Meets.raise fun _ _ _ => ho

theorem outcome?_fromExcept {α : Type} (x : Except PyError α) :
    (fromExcept x : Visit urls α).outcome? = some x := by
  cases x with
  | ok a => rfl
  | error e => rfl

theorem listContracts_meets (r : ListRequest web) (s : Site pg urls × Unit) (l : DbSession) :
    Meets (truthful web db) i ((visits pg web).recorded noHistory i)
      (fun o _ _ => EndsWith (r.undecorated db) o) r.listContracts s l := by
  rw [ListRequest.listContracts, ListRequest.undecorated]
  cases hchecked : web.isChecksumAddress r.address with
  | false => exact meets_of_outcome rfl (.inr rfl) s l
  | true =>
    rw [if_pos rfl, if_pos rfl]
    apply ask (fun _ h => by cases h) (fun t l => meets_of_outcome rfl (.inl rfl) t l)
    rintro t l page s' htrue hpage
    obtain ⟨rfl,rfl⟩ := Prod.mk.inj (Option.some.inj hpage)
    refine ⟨htrue,fun u => ?_⟩
    rw [htrue.unchanged]
    cases r.pagination.getPage db r.query with
    | error e => exact meets_of_outcome rfl (.inr rfl) _ _
    | ok page =>
      apply ask (fun _ h => by cases h) (fun t l => meets_of_outcome rfl (.inl rfl) t l)
      rintro t l count s' htrue hcount
      obtain ⟨rfl,rfl⟩ := Prod.mk.inj (Option.some.inj hcount)
      refine ⟨htrue,fun u => ?_⟩
      rw [htrue.unchanged]
      cases GenericPagination.getCount db r.query with
      | error e => exact meets_of_outcome rfl (.inr rfl) _ _
      | ok count =>
        cases hurl : r.publicUrl with
        | error e => exact meets_of_outcome rfl (.inr rfl) _ _
        | ok url => exact meets_of_outcome (outcome?_fromExcept _) (.inr rfl) _ _

theorem store_meets (r : ListRequest web) {field : String} (hfield : r.fieldKey = .ok field)
    {v : PaginatedResponse urls} (hv : r.undecorated db = .ok v) (expire : ℕ) (s : Site pg urls × Unit)
    (l : DbSession) :
    Meets (truthful web db) i ((visits pg web).recorded noHistory i)
      (fun o _ _ => EndsWith (.ok v) o) (r.store expire field v) s l := by
  apply ask (fun _ h => by cases h) (fun t l => meets_of_outcome rfl (.inl rfl) t l)
  rintro t l _ s' htrue hset
  obtain ⟨rfl,rfl⟩ := Prod.mk.inj (Option.some.inj hset)
  refine ⟨htrue.hset hfield hv,fun u => ?_⟩
  apply ask (fun _ h => by cases h) (fun t l => meets_of_outcome rfl (.inl rfl) t l)
  rintro t l _ s' htrue httl
  obtain ⟨rfl,rfl⟩ := Prod.mk.inj (Option.some.inj httl)
  refine ⟨htrue,fun u => ?_⟩
  dsimp only [Proc.ret_bind]
  by_cases hnone : t.ttl r.hashKey = -1
  · rw [if_pos hnone]
    apply ask (fun _ h => by cases h) (fun t l => meets_of_outcome rfl (.inl rfl) t l)
    rintro t l _ s' htrue hexpire
    obtain ⟨rfl,rfl⟩ := Prod.mk.inj (Option.some.inj hexpire)
    exact ⟨htrue.keeps rfl fun _ => keeps_expire _ _,fun u => meets_of_outcome rfl (.inr rfl) _ _⟩
  · rw [if_neg hnone]
    exact meets_of_outcome rfl (.inr rfl) _ _

/-- A cached response is what its reader would have got, and so is a new one. -/
theorem served_meets (hweb : web.Sound) (r : ListRequest web) (expire : ℕ) (s : Site pg urls × Unit)
    (l : DbSession) :
    Meets (truthful web db) i ((visits pg web).recorded noHistory i)
      (fun o _ _ => EndsWith (r.decorated db) o) (r.served expire) s l := by
  rw [ListRequest.served, ListRequest.decorated]
  cases hfield : r.fieldKey with
  | error e => exact meets_of_outcome rfl (.inr rfl) s l
  | ok field =>
    apply ask (fun _ h => by cases h) (fun t l => meets_of_outcome rfl (.inl rfl) t l)
    rintro t l _ s' htrue hget
    obtain ⟨rfl,rfl⟩ := Prod.mk.inj (Option.some.inj hget)
    refine ⟨htrue,fun u => ?_⟩
    cases hcached : t.cached r.hashKey field with
    | some v =>
      obtain ⟨q,hq,hv⟩ := htrue.stored r.hashKey field v hcached
      rw [undecorated_of_fieldKey hweb hq hfield] at hv
      exact meets_of_outcome rfl (.inr hv.symm) _ _
    | none =>
      apply (listContracts_meets r (t,u) l).bind
      · intro v t l _ hends
        have hv : r.undecorated db = .ok v := (hends.resolve_left nofun).symm
        change Meets _ _ _ (fun o _ _ => EndsWith (r.undecorated db) o) _ _ _
        rw [hv]
        exact store_meets r hfield hv expire t l
      · intro e t l _ hends
        exact hends

theorem admits (hweb : web.Sound) : (visits pg web).Admits noHistory (truthful web db) (fun _ _ => True)
    (fun _ r o _ _ => EndsWith (r.decorated db) o) where
  shared := fun _ h => h
  own := fun _ => trivial
  move := by
    intro move s s' labels g h hinv
    cases h with
    | pass seconds => exact ⟨hinv.keeps rfl fun _ => keeps_pass seconds,fun _ => trivial⟩
    | drop key => exact ⟨hinv.keeps rfl fun k => keeps_unlink key k s,fun _ => trivial⟩
    | arrive => exact ⟨hinv,fun _ => trivial⟩
  grows := fun _ _ => trivial
  starts := fun _ _ _ _ _ => served_meets hweb _ _ _ _

theorem visits_sound (hweb : web.Sound) {s : Site pg urls} (hempty : ∀ key, s.hashes key = none)
    {requests : List (ListRequest web)} {tr : List (Site pg urls × VisitEvent web)} {c : VisitsConfig pg web}
    (h : (visits pg web).Run ((visits pg web).initial s requests) tr c) :
    (visits pg web).Sound noHistory (truthful web s.world.db) (fun _ _ => True)
      (fun _ r o _ _ => EndsWith (r.decorated s.world.db) o) c () := by
  apply h.sound (g := ()) (admits hweb)
  apply sound_initial
  · refine ⟨rfl,fun key field v hv => ?_⟩
    rw [Site.cached, hempty] at hv
    cases hv
  · trivial
  · exact fun _ _ _ => served_meets hweb _ _ _ _

end Runs

/-- The cache shows only where the address of the service cannot be built. -/
theorem visits_transparent {web : Website urls} (hweb : web.Sound) {s : Site pg urls}
    (hempty : ∀ key, s.hashes key = none) {requests : List (ListRequest web)}
    {tr : List (Site pg urls × VisitEvent web)} {c : VisitsConfig pg web}
    (h : (visits pg web).Run ((visits pg web).initial s requests) tr c) :
    ∀ th ∈ c.threads, ∀ o, th.prog.outcome? = some o → AlmostTransparent s.world.db th.label o := by
  intro th hth o ho
  obtain ⟨i,hi⟩ := List.getElem?_of_mem hth
  have hends := (visits_sound hweb hempty h).outcome hi ho
  constructor
  · intro hbuildable hcompleted
    rw [hends.resolve_left hcompleted]
    exact httpResponse_decorated hweb hbuildable
  · intro hunbuildable hcompleted
    rw [hends.resolve_left hcompleted]
    exact httpResponse_unbuildable hweb hunbuildable

section Texts

/-- The number at the end of a text after a name. Texts are read from their ends. -/
def numberAfter (name text : List Char) : Option (ℕ × List Char) :=
  let rest := text.dropWhile Char.isDigit
  if name.isPrefixOf rest then
    some (Nat.ofDigitChars 10 (text.takeWhile Char.isDigit).reverse 0,rest.drop name.length)
  else none

theorem numberAfter_append {c : Char} (hc : c.isDigit = false) (name rest : List Char) (n : ℕ) :
    numberAfter (c :: name) ((Nat.toDigits 10 n).reverse ++ (c :: name ++ rest)) = some (n,rest) := by
  have hdigits : ∀ d ∈ (Nat.toDigits 10 n).reverse, d.isDigit := fun d hd =>
    Jsonb.isDigit_toDigits (List.mem_reverse.mp hd)
  have hname : (c :: name).isPrefixOf (c :: name ++ rest) :=
    List.isPrefixOf_iff_prefix.mpr (List.prefix_append _ _)
  have hstops : (c :: name ++ rest).takeWhile Char.isDigit = [] := by simp [hc]
  have hkept : (c :: name ++ rest).dropWhile Char.isDigit = c :: name ++ rest := by simp [hc]
  rw [numberAfter]
  simp only [List.takeWhile_append_of_pos hdigits, List.dropWhile_append_of_pos hdigits, hstops, hkept,
    if_pos hname, List.append_nil, List.reverse_reverse, List.drop_left,
    Nat.ofDigitChars_toDigits (by omega : 1 < 10) (by omega : 10 ≤ 10)]

/-- A URL with `limit` and `offset` behind its query. -/
def withPage (url : String) (limit offset : ℕ) : List Char :=
  (Nat.toDigits 10 offset).reverse ++ ("=tesffo&".toList ++ ((Nat.toDigits 10 limit).reverse ++
    ("=timil".toList ++ ((if '?' ∈ url.toList then '&' else '?') :: url.toList.reverse))))

def pageOf (url : String) : PaginationQueryParams :=
  match numberAfter "=tesffo&".toList url.toList.reverse with
  | none => ⟨none,some 0,nofun⟩
  | some (offset,rest) =>
    match numberAfter "=timil".toList rest with
    | none => ⟨none,some offset,nofun⟩
    | some (limit,_) => ⟨if 1 ≤ limit then some limit else none,some offset,by grind⟩

theorem pageOf_withPage (url : String) (limit offset : ℕ) :
    (pageOf (String.ofList (withPage url limit offset).reverse)).limit =
      (if 1 ≤ limit then some limit else none) ∧
    (pageOf (String.ofList (withPage url limit offset).reverse)).offset = some offset := by
  have hoffset : numberAfter "=tesffo&".toList (withPage url limit offset) =
      some (offset,(Nat.toDigits 10 limit).reverse ++ ("=timil".toList ++
        ((if '?' ∈ url.toList then '&' else '?') :: url.toList.reverse))) :=
    numberAfter_append rfl "tesffo&".toList _ offset
  have hlimit : numberAfter "=timil".toList ((Nat.toDigits 10 limit).reverse ++ ("=timil".toList ++
      ((if '?' ∈ url.toList then '&' else '?') :: url.toList.reverse))) =
        some (limit,(if '?' ∈ url.toList then '&' else '?') :: url.toList.reverse) :=
    numberAfter_append rfl "timil".toList _ limit
  simp only [pageOf, String.toList_ofList, List.reverse_reverse, hoffset, hlimit, and_self]

/-- URLs are their texts, and filter by nothing. -/
def textUrls : Urls where
  Url := String
  includeQueryParams := fun url limit offset => String.ofList (withPage url limit offset).reverse
  params := pageOf
  filter := fun _ => {}
  limit_include := fun url limit offset h => by rw [(pageOf_withPage url limit offset).1, if_pos h]
  offset_include := fun url limit offset => (pageOf_withPage url limit offset).2
  filter_include := fun _ _ _ => rfl

end Texts

section Examples
open Reference

abbrev checksummed : String := "0x1111111111111111111111111111111111111111"
abbrev lowercase : String := "0xd9db270c1b5e3bd161e8c8503c55ceabee709552"

def endpoint (address : String) : String := "/api/v1/contracts/" ++ address

def firstPage : PaginationQueryParams := ⟨none,some 0,nofun⟩

/-- One digest. Other texts are their own, so that no two are the same. -/
def md5 : Equiv.Perm String :=
  Equiv.swap (rawKey ⟨checksummed,none,firstPage,"http://testserver" ++ endpoint checksummed⟩)
    "b8f53c784b15f17c4bd789fc9c2765b0"

/-- The parts of any other URL cannot be read. -/
def componentsOf (url : String) : Except PyError PublicUrl.Components :=
  if url = "http://testserver" ++ endpoint checksummed then
    .ok ⟨"http",some "testserver",none,endpoint checksummed,""⟩
  else .error .valueError

def website : Website textUrls where
  components := componentsOf
  replace := fun _ scheme hostname port path =>
    .ok (scheme.getD "" ++ "://" ++ hostname.getD "" ++ port.elim "" (":" ++ ·) ++ path)
  readQuery := fun _ => .ok ""
  str := id
  isChecksumAddress := fun address => address = checksummed
  toBytes := addresses.toBytes
  lower := fun text => String.ofList (text.toList.map Char.toLower)
  md5 := md5

theorem website_sound : website.Sound where
  md5 := md5.injective
  str := Function.injective_id
  raises := by
    intro r e h
    rw [ListRequest.publicUrl, PublicUrl.getProxyAwareUrl] at h
    split at h
    · change (componentsOf r.url >>= _) = _ at h
      unfold componentsOf at h
      split at h <;> cases h
      decide
    · cases h

def requestOf (host address : String) (headers : List (String × String)) : ListRequest website where
  url := (host ++ endpoint address : String)
  headers := fun name => headers.lookup name
  address := address
  paginationParams := firstPage
  chainIds := none

def empty : Site database textUrls := ⟨World.empty database,0,fun _ => none,fun _ _ _ h => nomatch h⟩

/-- Nobody is cut off. -/
def player : (visits database website).Player where
  respond := fun s l c =>
    match c with
    | .task _ => (.error .cancelledError,s,l)
    | .selectPage p q => (p.getPage s.world.db q,s,l)
    | .selectCount q => (GenericPagination.getCount s.world.db q,s,l)
    | .hget key field => (.ok (s.cached key field),s,l)
    | .hset key field response => (.ok (),s.hset key field response,l)
    | .ttl key => (.ok (s.ttl key),s,l)
    | .expire key seconds => (.ok (),s.expire key seconds,l)
  move := fun _ _ => none
  respond_exec := by
    intro s l c
    cases c with
    | task c => exact .cut
    | _ => exact .request rfl
  move_move := fun h => nomatch h

/-- The first page of a contract -/
def asked : ListRequest website := requestOf "http://testserver" checksummed []

theorem fieldKey_asked : asked.fieldKey = .ok "b8f53c784b15f17c4bd789fc9c2765b0" := by
  have hplain : ¬asked.forwarded ≠ "" := by decide +kernel
  have hurl : asked.publicUrl = .ok ("http://testserver" ++ endpoint checksummed : String) := by
    rw [ListRequest.publicUrl, PublicUrl.getProxyAwareUrl, if_neg hplain]
    rfl
  rw [ListRequest.fieldKey, hurl]
  exact congrArg Except.ok (Equiv.swap_apply_left _ _)

/-- The same request twice, the second one when the first is through -/
def inTurn : Played (SiteCommand textUrls) SiteCommand.Answer PyError (Site database textUrls) DbSession
    (VisitMove website) (ListRequest website) (PaginatedResponse textUrls) :=
  play player ((visits database website).initial empty [asked, asked]) ([0, 0, 0, 0, 0, 0, 1].map .inl)

theorem inTurn_finished : inTurn.2.finished := by
  have hthrough : (inTurn.2.threads.all fun th => th.prog.outcome?.isSome) = true := by
    simp only [inTurn, initial, List.map, spawn, visits, ListRequest.served, fieldKey_asked]
    decide +kernel
  exact List.all_eq_true.mp hthrough

/-- Both have been answered, and like without the cache. -/
theorem visits_transparent_inTurn : inTurn.2.finished ∧ ∀ th ∈ inTurn.2.threads, ∀ o,
    th.prog.outcome? = some o → AlmostTransparent empty.world.db th.label o :=
  ⟨inTurn_finished,visits_transparent website_sound (fun _ => rfl) (play_run player _ _)⟩

/-- The port in the `Host` of a request is too large, and the address is not checksummed. -/
def outOfRange : ListRequest website :=
  requestOf "http://testserver:99999" lowercase [("x-forwarded-prefix","/decoder")]

/-- Without the cache the address would be refused. -/
theorem outOfRange_fails : website.Sound ∧
    (visits database website).Run ((visits database website).initial empty [outOfRange]) []
      ((visits database website).initial empty [outOfRange]) ∧
    (∃ th ∈ ((visits database website).initial empty [outOfRange]).threads,
      th.label = outOfRange ∧ th.prog.outcome? = some (.error .valueError)) ∧
    httpResponse (.error .valueError : Except PyError (PaginatedResponse textUrls)) =
      .error 500 "Internal Server Error" ∧
    httpResponse (outOfRange.undecorated empty.world.db) = .error 400 "Address is not checksummed" ∧
    ¬Answered empty.world.db outOfRange (.error .valueError) := by
  have hurl : outOfRange.publicUrl = .error .valueError := by
    have hprefixed : outOfRange.forwarded ≠ "" := by decide +kernel
    rw [ListRequest.publicUrl, PublicUrl.getProxyAwareUrl, if_pos hprefixed]
    have hunreadable : componentsOf ("http://testserver:99999" ++ endpoint lowercase) =
        .error .valueError := if_neg (by decide +kernel)
    exact congrArg (fun own => own >>= _) hunreadable
  have hrefused : website.isChecksumAddress outOfRange.address = false := by decide +kernel
  have hplain : httpResponse (outOfRange.undecorated empty.world.db) =
      .error 400 "Address is not checksummed" :=
    (httpResponse_unbuildable website_sound ⟨hrefused,_,hurl⟩).2
  have hended : (outOfRange.served 60).outcome? = some (.error .valueError) := by
    rw [ListRequest.served, fieldKey_error.mpr hurl]
    rfl
  refine ⟨website_sound,.refl,⟨_,List.mem_singleton_self _,rfl,hended⟩,rfl,hplain,?_⟩
  intro h
  have hsame := h (by simp)
  rw [hplain] at hsame
  cases hsame

end Examples
end SafeDecoder.Transparency
