import SafeDecoder.Data.PythonValue
import SafeDecoder.Library.Effects

/-! # The public address of a request

Behind a proxy the service rebuilds its own address from the headers in two places: for the
links between pages and for redirects. For a header that is missing the first falls back on the
request, the second on the redirect, and where neither the header nor the redirect says
anything it fails.
-/
namespace SafeDecoder.PublicUrl
open Effects

section Model

/-- The parts of a URL; the port as it is written. -/
structure Components where
  scheme : String
  hostname : Option String
  port : Option String
  path : String
  query : String

/-- URLs of Starlette. A URL is its text, which need not be one that can be read. -/
structure Starlette where
  Url : Type
  components : Url → Except PyError Components
  /-- `url.replace(scheme=…, hostname=…, port=…, path=…)` -/
  replace : Url → (scheme hostname port : Option String) → (path : String) → Except PyError Url

/-- The headers are known by their names in lower case. -/
structure Request (S : Starlette) where
  url : S.Url
  headers : String → Option String

structure Response (S : Starlette) where
  status : ℕ
  location : Option S.Url

/-- `text.rstrip("/")` -/
def rstripSlash (text : String) : String :=
  String.ofList (text.toList.reverse.dropWhile fun c => c = '/').reverse

variable {S : Starlette}

/-- `request.headers.get("x-forwarded-prefix", "").rstrip("/")` -/
def Request.forwarded (r : Request S) : String := rstripSlash ((r.headers "x-forwarded-prefix").getD "")

def getProxyAwareUrl (r : Request S) : Except PyError S.Url :=
  if r.forwarded ≠ "" then do
    let own ← S.components r.url
    let host := (r.headers "x-forwarded-host").or own.hostname
    let protocol := (r.headers "x-forwarded-proto").getD own.scheme
    let port := (r.headers "x-forwarded-port").or own.port
    S.replace r.url (some protocol) host port (r.forwarded ++ own.path)
  else .ok r.url

/-- What the middleware makes of the response of the next one. -/
def httpRedirectMiddleware (r : Request S) (response : Response S) : Except PyError (Response S) :=
  match response.location with
  | none => .ok response
  | some originalUrl =>
    if r.forwarded ≠ "" then do
      let original ← S.components originalUrl
      let location ← S.replace originalUrl (r.headers "x-forwarded-proto") (r.headers "x-forwarded-host")
        (r.headers "x-forwarded-port") (r.forwarded ++ original.path)
      return { response with location := some location }
    else .ok response

/-- A host that is there and not empty. -/
def IsHost (hostname : Option String) : Prop := ∃ h, hostname = some h ∧ h ≠ ""

instance (hostname : Option String) : Decidable (IsHost hostname) :=
  decidable_of_iff (hostname.any fun h => h ≠ "") (by simp [IsHost, Option.any_eq_true])

def Components.absolute (c : Components) : Prop := c.scheme ≠ "" ∨ IsHost c.hostname

/-- `replace` puts the given parts in and keeps its own host for none. It fails without a
scheme, and when it is given no host and has none. Outside of this are IPv6 hosts, an
`x-forwarded-host` with a port in it, and an empty one, for which Starlette does not fail. -/
structure Lawful (S : Starlette) : Prop where
  substitutes : ∀ u c scheme hostname port path, S.components u = .ok c →
    IsHost hostname ∨ IsHost c.hostname → ∃ v, S.replace u (some scheme) hostname port path = .ok v ∧
      S.components v = .ok ⟨scheme,hostname.or c.hostname,port,path,c.query⟩
  needs_scheme : ∀ u hostname port path, ∃ e, S.replace u none hostname port path = .error e
  needs_host : ∀ u c scheme hostname port path, S.components u = .ok c → ¬IsHost hostname →
    ¬IsHost c.hostname → ∃ e, S.replace u scheme hostname port path = .error e

/-- The redirect leads to the host of the request, or names none. -/
def OnSameHost (r : Request S) (target : S.Url) : Prop :=
  ∀ t own, S.components target = .ok t → S.components r.url = .ok own → IsHost t.hostname →
    own.hostname = t.hostname

/-- The redirect goes to the path under the prefix, with the query as it was. -/
def UnderPrefix (r : Request S) (target location : S.Url) : Prop :=
  ∀ t, S.components target = .ok t → ∃ c, S.components location = .ok c ∧
    c.path = r.forwarded ++ t.path ∧ c.query = t.query

/-- The redirect has the scheme, the host and the port of the links between pages. -/
def AtPublicAddress (r : Request S) (location : S.Url) : Prop :=
  ∀ c url p, S.components location = .ok c → c.absolute → getProxyAwareUrl r = .ok url →
    S.components url = .ok p → c.scheme = p.scheme ∧ c.hostname = p.hostname ∧ c.port = p.port

/-- The middleware completes, and its redirect agrees with the links. -/
structure Agrees (r : Request S) (status : ℕ) (target : S.Url) : Prop where
  completes : ∃ location, httpRedirectMiddleware r ⟨status,some target⟩ = .ok ⟨status,some location⟩ ∧
    UnderPrefix r target location ∧ AtPublicAddress r location

/-- The headers and the redirect leave nothing for the middleware to fall back on that the
links would have taken from the request. -/
structure Determined (r : Request S) (target : S.Url) : Prop where
  host : ∃ t, S.components target = .ok t ∧ (IsHost (r.headers "x-forwarded-host") ∨ IsHost t.hostname)
  scheme : (r.headers "x-forwarded-proto").isSome
  port : (r.headers "x-forwarded-port").isSome ∨
    (∀ own, S.components r.url = .ok own → own.port = none) ∨
      r.headers "x-forwarded-proto" = some "" ∧ r.headers "x-forwarded-host" = some ""

/-- When both are left as they are, an absolute redirect has to have the address of the request. -/
def Unprefixed (r : Request S) (target : S.Url) : Prop :=
  ∀ t own, S.components target = .ok t → t.absolute → S.components r.url = .ok own →
    t.scheme = own.scheme ∧ t.hostname = own.hostname ∧ t.port = own.port

end Model

section Agreement
variable {S : Starlette} {r : Request S} {target : S.Url} {status : ℕ}

theorem middleware_unprefixed (h : r.forwarded = "") :
    httpRedirectMiddleware r ⟨status,some target⟩ = .ok ⟨status,some target⟩ := by
  simp [httpRedirectMiddleware, h]

theorem middleware_error {e : PyError} (hprefixed : r.forwarded ≠ "")
    (h : S.components target = .error e) :
    httpRedirectMiddleware r ⟨status,some target⟩ = .error e := by
  rw [httpRedirectMiddleware]
  simp only [if_pos hprefixed, h, error_bind]

theorem middleware_ok {t : Components} (hprefixed : r.forwarded ≠ "") (h : S.components target = .ok t) :
    httpRedirectMiddleware r ⟨status,some target⟩ = do
      let location ← S.replace target (r.headers "x-forwarded-proto") (r.headers "x-forwarded-host")
        (r.headers "x-forwarded-port") (r.forwarded ++ t.path)
      return ⟨status,some location⟩ := by
  rw [httpRedirectMiddleware]
  simp only [if_pos hprefixed, h, ok_bind]

theorem proxyAware_ok {own : Components} (hprefixed : r.forwarded ≠ "")
    (h : S.components r.url = .ok own) :
    getProxyAwareUrl r = S.replace r.url (some ((r.headers "x-forwarded-proto").getD own.scheme))
      ((r.headers "x-forwarded-host").or own.hostname) ((r.headers "x-forwarded-port").or own.port)
      (r.forwarded ++ own.path) := by
  rw [getProxyAwareUrl, if_pos hprefixed, h, ok_bind]

theorem proxyAware_readable {url : S.Url} (hprefixed : r.forwarded ≠ "")
    (h : getProxyAwareUrl r = .ok url) : ∃ own, S.components r.url = .ok own := by
  rw [getProxyAwareUrl, if_pos hprefixed] at h
  obtain ⟨own,hown,_⟩ := bind_eq_ok_iff.mp h
  exact ⟨own,hown⟩

theorem agrees_unprefixed_iff (h : r.forwarded = "") : Agrees r status target ↔ Unprefixed r target := by
  have hlinks : getProxyAwareUrl r = .ok r.url := by simp [getProxyAwareUrl, h]
  constructor
  · rintro ⟨location,hrun,_,haddress⟩ t own ht habsolute hown
    rw [middleware_unprefixed h] at hrun
    cases hrun
    exact haddress t r.url own ht habsolute hlinks hown
  · intro hsame
    refine ⟨target,middleware_unprefixed h,?_,?_⟩
    · intro t ht
      exact ⟨t,ht,by simp [h],rfl⟩
    · intro c url p hc habsolute hurl hp
      rw [hlinks] at hurl
      cases hurl
      exact hsame c p hc habsolute hp

/-- What the middleware is able to do. -/
theorem middleware_completes (hlaw : Lawful S) (hprefixed : r.forwarded ≠ "") {location : S.Url}
    (hrun : httpRedirectMiddleware r ⟨status,some target⟩ = .ok ⟨status,some location⟩) :
    ∃ t protocol, S.components target = .ok t ∧ r.headers "x-forwarded-proto" = some protocol ∧
      (IsHost (r.headers "x-forwarded-host") ∨ IsHost t.hostname) ∧
      S.components location = .ok ⟨protocol,(r.headers "x-forwarded-host").or t.hostname,
        r.headers "x-forwarded-port",r.forwarded ++ t.path,t.query⟩ := by
  cases ht : S.components target with
  | error e =>
    rw [middleware_error hprefixed ht] at hrun
    cases hrun
  | ok t =>
    rw [middleware_ok hprefixed ht] at hrun
    obtain ⟨v,hv,hlocation⟩ := bind_eq_ok_iff.mp hrun
    cases hlocation
    cases hprotocol : r.headers "x-forwarded-proto" with
    | none =>
      rw [hprotocol] at hv
      obtain ⟨e,he⟩ := hlaw.needs_scheme target (r.headers "x-forwarded-host")
        (r.headers "x-forwarded-port") (r.forwarded ++ t.path)
      cases hv.symm.trans he
    | some protocol =>
      rw [hprotocol] at hv
      by_cases hhost : IsHost (r.headers "x-forwarded-host") ∨ IsHost t.hostname
      · obtain ⟨v',hv',hc⟩ := hlaw.substitutes target t protocol (r.headers "x-forwarded-host")
          (r.headers "x-forwarded-port") (r.forwarded ++ t.path) ht hhost
        cases hv.symm.trans hv'
        exact ⟨t,protocol,rfl,rfl,hhost,hc⟩
      · rw [not_or] at hhost
        obtain ⟨e,he⟩ := hlaw.needs_host target t (some protocol) (r.headers "x-forwarded-host")
          (r.headers "x-forwarded-port") (r.forwarded ++ t.path) ht hhost.1 hhost.2
        cases hv.symm.trans he

/-- The address of the links, where the redirect or a header names a host. -/
theorem links_complete (hlaw : Lawful S) (hprefixed : r.forwarded ≠ "") (hsame : OnSameHost r target)
    {t own : Components} {protocol : String} (ht : S.components target = .ok t)
    (hown : S.components r.url = .ok own) (hprotocol : r.headers "x-forwarded-proto" = some protocol)
    (hhost : IsHost (r.headers "x-forwarded-host") ∨ IsHost t.hostname) :
    ∃ url, getProxyAwareUrl r = .ok url ∧ S.components url = .ok ⟨protocol,
      (r.headers "x-forwarded-host").or t.hostname,(r.headers "x-forwarded-port").or own.port,
      r.forwarded ++ own.path,own.query⟩ := by
  have hnamed : IsHost ((r.headers "x-forwarded-host").or own.hostname) ∨ IsHost own.hostname := by
    rcases hhost with ⟨h,hh,hne⟩ | hhost
    · exact .inl ⟨h,by simp [hh],hne⟩
    · rw [hsame t own ht hown hhost]
      exact .inr hhost
  have hsame' : ((r.headers "x-forwarded-host").or own.hostname).or own.hostname =
      (r.headers "x-forwarded-host").or t.hostname := by
    cases hh : r.headers "x-forwarded-host" with
    | some h => rfl
    | none =>
      rw [hh] at hhost
      have hhost := hhost.resolve_left fun ⟨_,h,_⟩ => nomatch h
      simp [hsame t own ht hown hhost]
  obtain ⟨url,hurl,hc⟩ := hlaw.substitutes r.url own protocol
    ((r.headers "x-forwarded-host").or own.hostname) ((r.headers "x-forwarded-port").or own.port)
    (r.forwarded ++ own.path) hown hnamed
  rw [hsame'] at hc
  refine ⟨url,?_,hc⟩
  rw [proxyAware_ok hprefixed hown, hprotocol]
  exact hurl

theorem Agrees.determined (hlaw : Lawful S) (hprefixed : r.forwarded ≠ "") (hsame : OnSameHost r target)
    (h : Agrees r status target) : Determined r target := by
  obtain ⟨location,hrun,_,haddress⟩ := h
  obtain ⟨t,protocol,ht,hprotocol,hhost,hc⟩ := middleware_completes hlaw hprefixed hrun
  refine ⟨⟨t,ht,hhost⟩,by simp [hprotocol],?_⟩
  by_contra hport
  obtain ⟨hnone,hport⟩ := not_or.mp hport
  obtain ⟨hown,hempty⟩ := not_or.mp hport
  push Not at hown
  obtain ⟨own,hown,hownport⟩ := hown
  rw [Option.not_isSome_iff_eq_none] at hnone
  have habsolute : (⟨protocol,(r.headers "x-forwarded-host").or t.hostname,
      r.headers "x-forwarded-port",r.forwarded ++ t.path,t.query⟩ : Components).absolute := by
    by_cases hscheme : protocol = ""
    · right
      rcases hhost with ⟨h,hh,hne⟩ | hhost
      · exact ⟨h,by simp [hh],hne⟩
      · cases hh : r.headers "x-forwarded-host" with
        | none => simpa using hhost
        | some h =>
          refine ⟨h,rfl,?_⟩
          rintro rfl
          exact hempty ⟨by rw [hprotocol, hscheme],hh⟩
    · exact .inl hscheme
  obtain ⟨url,hurl,hp⟩ := links_complete hlaw hprefixed hsame ht hown hprotocol hhost
  have hagree := (haddress _ url _ hc habsolute hurl hp).2.2
  rw [hnone] at hagree
  exact hownport hagree.symm

theorem Determined.agrees (hlaw : Lawful S) (hprefixed : r.forwarded ≠ "") (hsame : OnSameHost r target)
    (h : Determined r target) (status : ℕ) : Agrees r status target := by
  obtain ⟨t,ht,hhost⟩ := h.host
  obtain ⟨protocol,hprotocol⟩ := Option.isSome_iff_exists.mp h.scheme
  obtain ⟨location,hlocation,hc⟩ := hlaw.substitutes target t protocol (r.headers "x-forwarded-host")
    (r.headers "x-forwarded-port") (r.forwarded ++ t.path) ht hhost
  refine ⟨location,?_,?_,?_⟩
  · rw [middleware_ok hprefixed ht, hprotocol, hlocation]
    rfl
  · intro t' ht'
    rw [ht] at ht'
    cases ht'
    exact ⟨_,hc,rfl,rfl⟩
  · intro c url p hc' habsolute hurl hp
    rw [hc] at hc'
    cases hc'
    obtain ⟨own,hown⟩ := proxyAware_readable hprefixed hurl
    obtain ⟨url',hurl',hp'⟩ := links_complete hlaw hprefixed hsame ht hown hprotocol hhost
    cases hurl.symm.trans hurl'
    rw [hp'] at hp
    cases hp
    refine ⟨rfl,rfl,?_⟩
    rcases h.port with hport | hport | ⟨hscheme,hempty⟩
    · obtain ⟨port,hport⟩ := Option.isSome_iff_exists.mp hport
      simp [hport]
    · simp [hport own hown]
    · rw [hprotocol] at hscheme
      cases hscheme
      rcases habsolute with hne | ⟨h,hh,hne⟩
      · exact absurd rfl hne
      · rw [hempty] at hh
        cases hh
        exact absurd rfl hne

end Agreement

/-- The redirect and the links agree exactly when the headers and the redirect determine the
public address. -/
theorem agrees_iff {S : Starlette} (hlaw : Lawful S) (r : Request S) (target : S.Url)
    (hsame : OnSameHost r target) (status : ℕ) :
    Agrees r status target ↔ (r.forwarded = "" → Unprefixed r target) ∧
      (r.forwarded ≠ "" → Determined r target) := by
  by_cases hprefixed : r.forwarded = ""
  · rw [agrees_unprefixed_iff hprefixed]
    exact ⟨fun h => ⟨fun _ => h,fun hne => absurd hprefixed hne⟩,fun h => h.1 hprefixed⟩
  · constructor
    · exact fun h => ⟨fun he => absurd he hprefixed,fun _ => h.determined hlaw hprefixed hsame⟩
    · exact fun h => (h.2 hprefixed).agrees hlaw hprefixed hsame status

section Redirects

/-- URLs that are kept in their parts. -/
def inParts : Starlette where
  Url := Components
  components := .ok
  replace u scheme hostname port path :=
    if IsHost hostname ∨ IsHost u.hostname then
      match scheme with
      | some scheme => .ok ⟨scheme,hostname.or u.hostname,port,path,u.query⟩
      | none => .error .typeError
    else .error .indexError

theorem inParts_lawful : Lawful inParts where
  substitutes := by
    intro u c scheme hostname port path hc hhost
    cases hc
    exact ⟨_,if_pos hhost,rfl⟩
  needs_scheme := by
    intro u hostname port path
    by_cases hhost : IsHost hostname ∨ IsHost u.hostname
    · exact ⟨.typeError,if_pos hhost⟩
    · exact ⟨.indexError,if_neg hhost⟩
  needs_host := by
    intro u c scheme hostname port path hc hgiven hown
    cases hc
    exact ⟨.indexError,if_neg (not_or.mpr ⟨hgiven,hown⟩)⟩

/-- The page of the documentation, with some headers. -/
def docs (headers : List (String × String)) : Request inParts where
  url := (⟨"http",some "testserver",none,"/docs",""⟩ : Components)
  headers := fun name => headers.lookup name

/-- Where it redirects to -/
def home : inParts.Url := (⟨"",none,none,"/",""⟩ : Components)

theorem docs_onSameHost (headers : List (String × String)) : OnSameHost (docs headers) home := by
  rintro t own ht _ ⟨h,hh,_⟩
  cases ht
  cases hh

/-- A proxy that only says where the service is mounted gets an error in place of the redirect. -/
theorem docs_fails : OnSameHost (docs [("x-forwarded-prefix","/safe-decoder")]) home ∧
    httpRedirectMiddleware (docs [("x-forwarded-prefix","/safe-decoder")]) ⟨307,some home⟩ =
      .error .indexError ∧
    ¬Agrees (docs [("x-forwarded-prefix","/safe-decoder")]) 307 home := by
  have hfails : httpRedirectMiddleware (docs [("x-forwarded-prefix","/safe-decoder")]) ⟨307,some home⟩ =
      .error .indexError := by
    have hprefixed : (docs [("x-forwarded-prefix","/safe-decoder")]).forwarded ≠ "" := by decide +kernel
    have hnone : ¬IsHost none := fun ⟨_,h,_⟩ => nomatch h
    have hreplace : ∀ path, inParts.replace home none none none path = .error .indexError := by
      simp [inParts, home, hnone]
    rw [middleware_ok hprefixed rfl]
    exact congrArg (fun location => location >>= fun l => .ok ⟨307,some l⟩) (hreplace _)
  refine ⟨docs_onSameHost _,hfails,?_⟩
  rintro ⟨location,hrun,_⟩
  rw [hfails] at hrun
  cases hrun

/-- The headers of a proxy that names everything. -/
def proxied : List (String × String) :=
  [("x-forwarded-prefix","/safe-decoder"), ("x-forwarded-host","proxy.example.com"),
    ("x-forwarded-proto","https"), ("x-forwarded-port","8000")]

theorem agrees_iff_proxied : Agrees (docs proxied) 307 home := by
  apply (agrees_iff inParts_lawful (docs proxied) home (docs_onSameHost _) 307).mpr
  constructor
  · intro h
    exact absurd h (by decide +kernel)
  · intro _
    exact ⟨⟨_,rfl,.inl ⟨"proxy.example.com",rfl,by decide⟩⟩,rfl,.inl rfl⟩

end Redirects
end SafeDecoder.PublicUrl
