import SafeDecoder.Listing.Pagination
import SafeDecoder.Worker.System

/-! # The cached listing of one address

Requests keep their responses in a Redis hash with one field for each request, and
downloads unlink the hash of their contract. Requests and the tasks of the workers
take turns; each of them may be cut off at any command.
-/
namespace SafeDecoder.ContractCache
open Worker Listing

variable {pg : Postgres} {urls : Urls}

/-- A hash of Redis with the second in which it expires, if it does. -/
structure Hash (urls : Urls) where
  fields : String → Option (PaginatedResponse urls)
  deadline : Option ℕ

/-- The database, Redis and the clock. The hashes are known by the lower-case address. -/
structure Site (pg : Postgres) (urls : Urls) where
  world : World pg
  now : ℕ
  hashes : String → Option (Hash urls)
  live : ∀ key h d, hashes key = some h → h.deadline = some d → now < d

inductive SiteCommand (urls : Urls)
  | task (c : Command)
  | selectPage (p : GenericPagination) (q : ContractsQuery)
  | selectCount (q : ContractsQuery)
  | hget (key field : String)
  | hset (key field : String) (response : PaginatedResponse urls)
  | ttl (key : String)
  | expire (key : String) (seconds : ℕ)

@[reducible] def SiteCommand.Answer : SiteCommand urls → Type
  | task c => c.Answer
  | selectPage _ _ => List ContractRow
  | selectCount _ => ℕ
  | hget _ _ => Option (PaginatedResponse urls)
  | hset _ _ _ => Unit
  | ttl _ => Int
  | expire _ _ => Unit

namespace Site
variable (s : Site pg urls)

/-- The cached response under a field. -/
def cached (key field : String) : Option (PaginatedResponse urls) :=
  (s.hashes key).bind fun h => h.fields field

/-- A hash is written, or removed, and with a deadline only one that is still to come. -/
def setHash (key : String) (hash : Option (Hash urls))
    (h : ∀ x d, hash = some x → x.deadline = some d → s.now < d) : Site pg urls :=
  { s with
    hashes := Function.update s.hashes key hash
    live := by
      intro k x d hx hd
      by_cases hk : k = key
      · subst hk
        rw [Function.update_self] at hx
        exact h x d hx hd
      · rw [Function.update_of_ne hk] at hx
        exact s.live k x d hx hd }

def unlink (key : String) : Site pg urls := s.setHash key none fun _ _ h => nomatch h

/-- What `HSET` leaves of a hash: it keeps its deadline. -/
def written (key field : String) (response : PaginatedResponse urls) : Hash urls where
  fields := Function.update (fun f => s.cached key f) field (some response)
  deadline := (s.hashes key).bind Hash.deadline

def hset (key field : String) (response : PaginatedResponse urls) : Site pg urls :=
  s.setHash key (some (s.written key field response)) fun x d hx hd => by
    cases hx
    obtain ⟨h,hh,hd⟩ := Option.bind_eq_some_iff.mp hd
    exact s.live key h d hh hd

/-- `-2` without the key and `-1` without a deadline -/
def ttl (key : String) : Int :=
  match s.hashes key with
  | none => -2
  | some h => h.deadline.elim (-1) fun d => (d : Int) - s.now

def expire (key : String) (seconds : ℕ) : Site pg urls :=
  s.setHash key ((s.hashes key).bind fun h =>
      if 0 < seconds then some { h with deadline := some (s.now + seconds) } else none)
    fun x d hx hd => by
      obtain ⟨h,_,hx⟩ := Option.bind_eq_some_iff.mp hx
      split at hx
      · cases hx
        cases hd
        omega
      · cases hx

/-- Time passes, and keys vanish when their second comes. -/
def pass (seconds : ℕ) : Site pg urls where
  world := s.world
  now := s.now + seconds
  hashes := fun key => (s.hashes key).filter fun h => h.deadline.all fun d => s.now + seconds < d
  live := by
    intro key x d hx hd
    have hlive := (Option.filter_eq_some_iff.mp hx).2
    simpa [hd] using hlive

/-- What a command of a worker does, with the hash that it unlinks. -/
def after (c : Command) (w : World pg) : Site pg urls :=
  match c with
  | .redisDelete (.contract key) => { s.unlink key with world := w }
  | _ => { s with world := w }

end Site

/-- What a command of a request does. -/
def answer (s : Site pg urls) : (c : SiteCommand urls) → Option (Except PyError c.Answer × Site pg urls)
  | .task _ => none
  | .selectPage p q => some (p.getPage s.world.db q,s)
  | .selectCount q => some (GenericPagination.getCount s.world.db q,s)
  | .hget key field => some (.ok (s.cached key field),s)
  | .hset key field response => some (.ok (),s.hset key field response)
  | .ttl key => some (.ok (s.ttl key),s)
  | .expire key seconds => some (.ok (),s.expire key seconds)

/-- A command is carried out, or its program is cut off before. -/
inductive SiteExec (explorers : Explorers) : Site pg urls → DbSession → (c : SiteCommand urls) →
    Except PyError c.Answer → Site pg urls → DbSession → Prop
  | task {s l c r w' l'} (h : Exec explorers s.world l c r w' l') :
      SiteExec explorers s l (.task c) r (s.after c w') l'
  | request {s l c r s'} (h : answer s c = some (r,s')) : SiteExec explorers s l c r s' l
  | cut {s l c} : SiteExec explorers s l c (.error .cancelledError) s l

section Cached
variable {key : String} {s s' : Site pg urls}

/-- Nothing is cached that was not cached before. -/
def Keeps (key : String) (s s' : Site pg urls) : Prop :=
  ∀ field v, s'.cached key field = some v → s.cached key field = some v

theorem hashes_setHash (k : String) (hash : Option (Hash urls)) (h) :
    (s.setHash k hash h).hashes key = if key = k then hash else s.hashes key := by
  unfold Site.setHash
  by_cases hk : key = k
  · subst hk
    simp
  · simp [hk]

theorem hashes_after {c : Command} {w : World pg} {h : Hash urls}
    (hh : (s.after c w).hashes key = some h) : s.hashes key = some h := by
  unfold Site.after at hh
  split at hh
  · rename_i k
    change (s.unlink k).hashes key = some h at hh
    rw [Site.unlink, hashes_setHash] at hh
    split at hh
    · cases hh
    · exact hh
  · exact hh

/-- `HSET` keeps the deadline of its hash, and the other hashes. -/
theorem hashes_hset {k field : String} {response : PaginatedResponse urls} {h : Hash urls}
    (hh : (s.hset k field response).hashes key = some h) :
    key = k ∧ h.deadline = (s.hashes k).bind Hash.deadline ∨
      key ≠ k ∧ s.hashes key = some h := by
  rw [Site.hset, hashes_setHash] at hh
  split at hh
  · rename_i hk
    cases hh
    exact .inl ⟨hk,rfl⟩
  · rename_i hk
    exact .inr ⟨hk,hh⟩

/-- `EXPIRE` sets the deadline of its hash, and keeps the other hashes. -/
theorem hashes_expire {k : String} {seconds : ℕ} {h : Hash urls}
    (hh : (s.expire k seconds).hashes key = some h) :
    key = k ∧ h.deadline = some (s.now + seconds) ∨ key ≠ k ∧ s.hashes key = some h := by
  rw [Site.expire, hashes_setHash] at hh
  split at hh
  · rename_i hk
    obtain ⟨x,_,hx⟩ := Option.bind_eq_some_iff.mp hh
    split at hx
    · cases hx
      exact .inl ⟨hk,rfl⟩
    · cases hx
  · rename_i hk
    exact .inr ⟨hk,hh⟩

theorem cached_setHash (k : String) (hash : Option (Hash urls)) (h) (field : String) :
    (s.setHash k hash h).cached key field =
      if key = k then hash.bind fun x => x.fields field else s.cached key field := by
  rw [Site.cached, hashes_setHash]
  split <;> rfl

theorem cached_hset (k f field : String) (response : PaginatedResponse urls) :
    (s.hset k f response).cached key field =
      if key = k ∧ field = f then some response else s.cached key field := by
  rw [Site.hset, cached_setHash]
  by_cases hk : key = k
  · subst hk
    by_cases hf : field = f
    · subst hf
      simp [Site.written]
    · simp [Site.written, hf]
  · simp [hk]

theorem keeps_expire (k : String) (seconds : ℕ) : Keeps key s (s.expire k seconds) := by
  intro field v hv
  rw [Site.expire, cached_setHash] at hv
  split at hv
  · rename_i hk
    subst hk
    obtain ⟨x,hx,hv⟩ := Option.bind_eq_some_iff.mp hv
    obtain ⟨h,hh,hx⟩ := Option.bind_eq_some_iff.mp hx
    split at hx
    · cases hx
      exact Option.bind_eq_some_iff.mpr ⟨h,hh,hv⟩
    · cases hx
  · exact hv

theorem keeps_pass (seconds : ℕ) : Keeps key s (s.pass seconds) := by
  intro field v hv
  obtain ⟨x,hx,hv⟩ := Option.bind_eq_some_iff.mp hv
  exact Option.bind_eq_some_iff.mpr ⟨x,(Option.filter_eq_some_iff.mp hx).1,hv⟩

/-- A command of a worker unlinks at most one hash. -/
theorem keeps_after (c : Command) (w : World pg) : Keeps key s (s.after c w) := by
  intro field v hv
  obtain ⟨h,hh,hv⟩ := Option.bind_eq_some_iff.mp hv
  exact Option.bind_eq_some_iff.mpr ⟨h,hashes_after hh,hv⟩

end Cached

section Programs

abbrev Visit (urls : Urls) := Proc (SiteCommand urls) SiteCommand.Answer PyError

def send (c : SiteCommand urls) : Visit urls c.Answer := Proc.perform c

/-- The wiring of the web service. -/
structure Web (urls : Urls) where
  inst : Installation
  isChecksumAddress : String → Bool
  /-- `get_field_key`: the digest of the URL and the arguments of a request -/
  getFieldKey : urls.Url → String → String

structure Request (urls : Urls) where
  url : urls.Url
  address : String

/-- `get_key_for_contract`, without its prefix -/
def getKeyForContract (address : String) : String := address.toLower

/-- `list_contracts` -/
def listContractsAt (web : Web urls) (r : Request urls) : Visit urls (PaginatedResponse urls) :=
  if web.isChecksumAddress r.address then do
    let pagination :=
      GenericPagination.init (urls.params r.url).limit (urls.params r.url).offset
    let q : ContractsQuery :=
      { address := some (web.inst.addresses.toBytes r.address)
        chainIds := (urls.filter r.url).chainIds }
    let page ← send (.selectPage pagination q)
    let count ← send (.selectCount q)
    return pagination.serialize r.url page count
  else throw (.other "HTTPException")

/-- The wrapper of `cache_response` around `list_contracts` -/
def cacheResponse (web : Web urls) (expire : ℕ) (r : Request urls) :
    Visit urls (PaginatedResponse urls) := do
  let hashKey := getKeyForContract r.address
  let fieldKey := web.getFieldKey r.url r.address
  match ← send (.hget hashKey fieldKey) with
  | some cached => return cached
  | none =>
    let response ← listContractsAt web r
    send (.hset hashKey fieldKey response)
    if (← send (.ttl hashKey)) = -1 then send (.expire hashKey expire)
    return response

/-- A task of the workers, among the requests. -/
def ofTask {α : Type} : Worker.Task α → Visit urls α
  | .ret a => .ret a
  | .raise e => .raise e
  | .call c next => .call (.task c) fun r => ofTask (next r)

/-- What is at work: a request or a task. -/
inductive Party (urls : Urls)
  | request (r : Request urls)
  | job (j : Job)

/-- Responses expire after 60 seconds. -/
def Party.program (web : Web urls) : Party urls → Visit urls (Option (PaginatedResponse urls))
  | request r => some <$> cacheResponse web 60 r
  | job j => do
    ofTask (j.program web.inst)
    return none

end Programs

section System

inductive SiteMove (urls : Urls)
  | pass (seconds : ℕ)
  | expire (key : RedisKey)
  | arrive (party : Party urls)

/-- Requests and tasks arrive at any time. -/
inductive SiteMoves : SiteMove urls → Site pg urls → Site pg urls → List (Party urls) → Prop
  | pass (seconds : ℕ) (s : Site pg urls) : SiteMoves (.pass seconds) s (s.pass seconds) []
  | expire (key : RedisKey) (s : Site pg urls) :
      SiteMoves (.expire key) s { s with world := s.world.setRedis key none } []
  | arrive (party : Party urls) (s : Site pg urls) : SiteMoves (.arrive party) s s [party]

def site (pg : Postgres) (web : Web urls) (explorers : Explorers) :
    Machine (SiteCommand urls) SiteCommand.Answer PyError (Site pg urls) DbSession (SiteMove urls)
      (Party urls) (Option (PaginatedResponse urls)) where
  exec := SiteExec explorers
  move := SiteMoves
  program := Party.program web
  session := active

abbrev SiteEvent (urls : Urls) := Event (SiteCommand urls) SiteCommand.Answer PyError (SiteMove urls)

abbrev SiteConfig (pg : Postgres) (urls : Urls) :=
  Config (SiteCommand urls) SiteCommand.Answer PyError (Site pg urls) DbSession (Party urls)
    (Option (PaginatedResponse urls))

end System
end SafeDecoder.ContractCache
