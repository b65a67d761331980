import SafeDecoder.Listing.ContractCache

/-! # Responses of the past

A download commits the metadata and then unlinks the cached responses of its contract.
A response that is stored between the two vanishes; one that is stored later was
either read after the commit or brings the past back.
-/
namespace SafeDecoder.Staleness
open Worker Listing ContractCache Machine

variable {pg : Postgres} {urls : Urls}

section History

/-- What has happened to the responses of one address, and when. Times count events. -/
structure History where
  clock : ℕ
  /-- The last commit of a task. -/
  committedAt : ℕ → Option ℕ
  /-- Commits, each with the end of the `UNLINK` that its task issued afterwards. -/
  invalidated : List (ℕ × ℕ)
  /-- A request starts with its lookup. -/
  lookedAt : ℕ → Option ℕ
  readAt : ℕ → ℕ
  /-- When the response under a field was read from the database. -/
  storedAt : String → ℕ
  /-- When the response that a request got was read from the database. -/
  servedAt : ℕ → Option ℕ
  /-- A response has been stored that was read before a commit whose `UNLINK` had ended. -/
  late : Bool

namespace History

def start : History :=
  ⟨0,fun _ => none,[],fun _ => none,fun _ => 0,fun _ => 0,fun _ => none,false⟩

variable (g : History) (i : ℕ)

def tick : History := { g with clock := g.clock + 1 }

def commit : History := { g.tick with committedAt := Function.update g.committedAt i (some (g.clock + 1)) }

def unlink : History :=
  { g.tick with
    invalidated := g.invalidated ++ (g.committedAt i).toList.map fun c => (c,g.clock + 1) }

def look (found : Option ℕ) : History :=
  { g.tick with
    lookedAt := Function.update g.lookedAt i (some (g.clock + 1))
    servedAt := Function.update g.servedAt i found }

def read : History :=
  { g.tick with
    readAt := Function.update g.readAt i (g.clock + 1)
    servedAt := Function.update g.servedAt i (some (g.clock + 1)) }

def store (field : String) : History :=
  { g.tick with
    storedAt := Function.update g.storedAt field (g.readAt i)
    late := g.late || g.invalidated.any fun x => g.readAt i ≤ x.1 }

/-- No request that starts after an `UNLINK` gets a response that was read before the
commit of its task. -/
def Current : Prop := ∀ i c u t n, (c,u) ∈ g.invalidated → g.lookedAt i = some t →
  g.servedAt i = some n → u < t → c < n

end History

/-- The commands of a worker that matter to the responses of the address with the key `key`. -/
def noteTask (key : String) (g : History) (i : ℕ) : Command → History
  | .updateContract _ _ => g.commit i
  | .redisDelete (.contract k) => if k = key then g.unlink i else g.tick
  | _ => g.tick

def noteAnswer (key : String) (g : History) (i : ℕ) : (c : SiteCommand urls) → c.Answer → History
  | .task c, _ => noteTask key g i c
  | .hget k field, found =>
    if k = key then g.look i (found.map fun _ => g.storedAt field) else g.tick
  | .selectPage _ _, _ => g.read i
  | .hset k field _, _ => if k = key then g.store i field else g.tick
  | _, _ => g.tick

def note (key : String) (g : History) (_ : Site pg urls) : SiteEvent urls → History
  | .own i c (.ok a) => noteAnswer key g i c a
  | _ => g.tick

abbrev history (key : String) (tr : List (Site pg urls × SiteEvent urls)) : History :=
  observe (note key) History.start tr

end History

section Invariant
variable {key : String} {s s' : Site pg urls} {g : History} {i : ℕ}

/-- What is cached was read after the commits whose responses have been unlinked. -/
structure Inv (key : String) (s : Site pg urls) (g : History) : Prop where
  current : g.Current
  cached : ∀ field v, s.cached key field = some v → ∀ c u, (c,u) ∈ g.invalidated → c < g.storedAt field
  committed : ∀ i c, g.committedAt i = some c → c ≤ g.clock
  invalidated : ∀ c u, (c,u) ∈ g.invalidated → c ≤ g.clock ∧ u ≤ g.clock
  looked : ∀ i t, g.lookedAt i = some t → t ≤ g.clock

theorem start_inv (s : Site pg urls) : Inv key s History.start where
  current := fun _ _ _ _ _ h => nomatch h
  cached := fun _ _ _ _ _ h => nomatch h
  committed := fun _ _ h => nomatch h
  invalidated := fun _ _ h => nomatch h
  looked := fun _ _ h => nomatch h

theorem Inv.tick (h : Inv key s g) (hs : Keeps key s s') : Inv key s' g.tick where
  current := h.current
  cached := fun field v hv => h.cached field v (hs field v hv)
  committed := fun i c hc => Nat.le_succ_of_le (h.committed i c hc)
  invalidated := fun c u hc =>
    ⟨Nat.le_succ_of_le (h.invalidated c u hc).1,Nat.le_succ_of_le (h.invalidated c u hc).2⟩
  looked := fun i t ht => Nat.le_succ_of_le (h.looked i t ht)

theorem Inv.commit (h : Inv key s g) (hs : Keeps key s s') : Inv key s' (g.commit i) := by
  have htick := h.tick hs
  refine { htick with committed := fun j c hc => ?_ }
  by_cases hj : j = i
  · subst hj
    have hc' : some (g.clock + 1) = some c := by simpa [History.commit] using hc
    cases hc'
    exact le_rfl
  · exact htick.committed j c (by simpa [History.commit, History.tick, Function.update_of_ne hj] using hc)

theorem mem_unlink {c u : ℕ} : (c,u) ∈ (g.unlink i).invalidated ↔
    (c,u) ∈ g.invalidated ∨ g.committedAt i = some c ∧ u = g.clock + 1 := by
  rw [History.unlink, List.mem_append, List.mem_map]
  simp [eq_comm]

theorem Inv.unlink (h : Inv key s g) (hs : ∀ field, s'.cached key field = none) :
    Inv key s' (g.unlink i) := by
  have htick : Inv key s' g.tick := h.tick fun field v hv => by simp [hs] at hv
  refine { htick with current := ?_, cached := ?_, invalidated := ?_ }
  · intro j c u t n hc ht hn hlt
    rcases mem_unlink.mp hc with hc | ⟨-,rfl⟩
    · exact h.current j c u t n hc ht hn hlt
    · have hlooked := h.looked j t ht
      omega
  · intro field v hv
    simp [hs] at hv
  · intro c u hc
    rcases mem_unlink.mp hc with hold | ⟨hcommit,hu⟩
    · exact htick.invalidated c u hold
    · exact ⟨Nat.le_succ_of_le (h.committed i c hcommit),hu.le⟩

theorem Inv.look (h : Inv key s g) (field : String) :
    Inv key s (g.look i ((s.cached key field).map fun _ => g.storedAt field)) := by
  have htick := h.tick fun _ _ hv => hv
  refine { htick with current := fun j c u t n hc ht hn hlt => ?_, looked := fun j t ht => ?_ }
  · by_cases hj : j = i
    · subst hj
      have hfound : (s.cached key field).map (fun _ => g.storedAt field) = some n := by
        simpa [History.look] using hn
      obtain ⟨v,hv,rfl⟩ := Option.map_eq_some_iff.mp hfound
      exact h.cached field v hv c u hc
    · refine h.current j c u t n hc ?_ ?_ hlt
      · simpa [History.look, Function.update_of_ne hj] using ht
      · simpa [History.look, Function.update_of_ne hj] using hn
  · by_cases hj : j = i
    · subst hj
      have ht' : some (g.clock + 1) = some t := by simpa [History.look] using ht
      cases ht'
      exact le_rfl
    · exact htick.looked j t (by simpa [History.look, History.tick, Function.update_of_ne hj] using ht)

theorem Inv.read (h : Inv key s g) : Inv key s (g.read i) := by
  have htick := h.tick fun _ _ hv => hv
  refine { htick with current := fun j c u t n hc ht hn hlt => ?_ }
  by_cases hj : j = i
  · subst hj
    have hn' : some (g.clock + 1) = some n := by simpa [History.read] using hn
    cases hn'
    exact Nat.lt_succ_of_le (h.invalidated c u hc).1
  · exact h.current j c u t n hc ht (by simpa [History.read, Function.update_of_ne hj] using hn) hlt

theorem Inv.store (h : Inv key s g) {field : String}
    (hs : ∀ f v, f ≠ field → s'.cached key f = some v → s.cached key f = some v)
    (hlate : ¬(g.store i field).late) : Inv key s' (g.store i field) := by
  have htick : Inv key s g.tick := h.tick fun _ _ hv => hv
  refine { htick with cached := fun f v hv c u hc => ?_ }
  by_cases hf : f = field
  · subst hf
    change c < Function.update g.storedAt f (g.readAt i) f
    rw [Function.update_self]
    by_contra hno
    have hany : (g.invalidated.any fun x => g.readAt i ≤ x.1) = true :=
      List.any_eq_true.mpr ⟨(c,u),hc,decide_eq_true (Nat.le_of_not_lt hno)⟩
    exact hlate (by simp [History.store, hany])
  · change c < Function.update g.storedAt field (g.readAt i) f
    rw [Function.update_of_ne hf]
    exact h.cached f v (hs f v hf hv) c u hc

end Invariant

section Steps
variable {key : String} {s : Site pg urls} {g : History} {i : ℕ}

theorem task_inv (hi : Inv key s g) (c : Command) (w : World pg) :
    Inv key (s.after c w) (noteTask key g i c) := by
  unfold noteTask
  split
  · exact hi.commit (keeps_after _ _)
  · split
    · rename_i hk
      subst hk
      apply hi.unlink
      intro field
      change (s.unlink _).cached _ field = none
      rw [Site.unlink, cached_setHash, if_pos rfl]
      rfl
    · exact hi.tick (keeps_after _ _)
  · exact hi.tick (keeps_after _ _)

theorem own_inv {explorers : Explorers} {l l' : DbSession} {c : SiteCommand urls}
    {r : Except PyError c.Answer} {s' : Site pg urls} (h : SiteExec explorers s l c r s' l')
    (hi : Inv key s g) (hlate : ¬(note key g s (.own i c r)).late) :
    Inv key s' (note key g s (.own i c r)) := by
  cases h with
  | cut => exact hi.tick fun _ _ hv => hv
  | task h =>
    rename_i c r w
    cases r with
    | error e => exact hi.tick (keeps_after c w)
    | ok a => exact task_inv hi c w
  | request h =>
    cases c with
    | task c => cases h
    | selectPage p q =>
      cases h
      cases p.getPage s.world.db q with
      | error e => exact hi.tick fun _ _ hv => hv
      | ok page => exact hi.read
    | selectCount q =>
      cases h
      cases GenericPagination.getCount s.world.db q <;> exact hi.tick fun _ _ hv => hv
    | hget k field =>
      cases h
      simp only [note, noteAnswer]
      split
      · rename_i hk
        subst hk
        exact hi.look field
      · exact hi.tick fun _ _ hv => hv
    | hset k field response =>
      cases h
      simp only [note, noteAnswer] at hlate ⊢
      split
      · rename_i hk
        subst hk
        rw [if_pos rfl] at hlate
        refine hi.store (fun f v hf hv => ?_) hlate
        rwa [cached_hset, if_neg fun hno => hf hno.2] at hv
      · rename_i hk
        apply hi.tick
        intro f v hv
        rwa [cached_hset, if_neg fun hno => hk hno.1.symm] at hv
    | ttl k =>
      cases h
      exact hi.tick fun _ _ hv => hv
    | expire k seconds =>
      cases h
      exact hi.tick (keeps_expire k seconds)

end Steps

section Main
variable {web : Web urls} {explorers : Explorers} {key : String}

/-- What has been late stays late. -/
theorem late_note {g : History} {s : Site pg urls} {e : SiteEvent urls} (h : g.late) :
    (note key g s e).late := by
  unfold note
  split
  · unfold noteAnswer
    split
    · unfold noteTask
      split
      · exact h
      · split <;> exact h
      · exact h
    · split <;> exact h
    · exact h
    · split
      · simp [History.store, h]
      · exact h
    · exact h
  · exact h

theorem run_inv {s : Site pg urls} {parties : List (Party urls)}
    {tr : List (Site pg urls × SiteEvent urls)} {c : SiteConfig pg urls}
    (h : (site pg web explorers).Run ((site pg web explorers).initial s parties) tr c)
    (hlate : ¬(history key tr).late) : Inv key c.state (history key tr) := by
  induction h with
  | refl => exact start_inv s
  | @step d d' tr e _ hstep ih =>
    rw [history, observe_append] at hlate ⊢
    have hi := ih fun hl => hlate (late_note hl)
    cases hstep with
    | own _ he => exact own_inv he hi hlate
    | env hm =>
      cases hm with
      | pass seconds => exact hi.tick (keeps_pass seconds)
      | expire => exact hi.tick fun _ _ hv => hv
      | arrive => exact hi.tick fun _ _ hv => hv

/-- As long as no response is stored that was read before a commit whose `UNLINK` has
ended, no request that starts after an `UNLINK` gets a response of before its commit. -/
theorem run_current {s : Site pg urls} {parties : List (Party urls)}
    {tr : List (Site pg urls × SiteEvent urls)} {c : SiteConfig pg urls}
    (h : (site pg web explorers).Run ((site pg web explorers).initial s parties) tr c)
    (hlate : ¬(history key tr).late) : (history key tr).Current :=
  (run_inv h hlate).current

end Main

section Examples
open Reference

/-- The web service in front of the worker's database; a request is known by its URL. -/
def web : Web plainUrls where
  inst := installation
  isChecksumAddress := fun address => address = "0x1111111111111111111111111111111111111111"
  getFieldKey := fun _ _ => "GET"

def document : ContractMetadata := ⟨some "Token",.arr [.null],none⟩

/-- The requests, and the download of the same contract. -/
def request : Party plainUrls := .request ⟨inPairs {},"0x1111111111111111111111111111111111111111"⟩
def download : Party plainUrls :=
  .job (.getContractMetadata ⟨"0x1111111111111111111111111111111111111111",1,true⟩)

def before : Site database plainUrls where
  world := (World.empty database).addSource ContractSource.etherscan.value ""
  now := 0
  hashes := fun _ => none
  live := fun _ _ _ h => nomatch h

def explorers : Explorers := fun _ _ _ r => r = .ok (some document)

def player : (site database web explorers).Player where
  respond := fun s l c =>
    match c with
    | .task c =>
      let r := Worker.respond (fun _ _ _ => .ok (some document)) s.world l c
      (r.1,s.after c r.2.1,r.2.2)
    | .selectPage p q => (p.getPage s.world.db q,s,l)
    | .selectCount q => (GenericPagination.getCount s.world.db q,s,l)
    | .hget key field => (.ok (s.cached key field),s,l)
    | .hset key field response => (.ok (),s.hset key field response,l)
    | .ttl key => (.ok (s.ttl key),s,l)
    | .expire key seconds => (.ok (),s.expire key seconds,l)
  move := fun _ _ => none
  respond_exec := by
    intro s l c
    cases c with
    | task c => exact .task ⟨_,rfl,fun _ _ _ _ => rfl⟩
    | _ => exact .request rfl
  move_move := fun h => nomatch h

abbrev key : String := getKeyForContract "0x1111111111111111111111111111111111111111"

abbrev Performance := Played (SiteCommand plainUrls) SiteCommand.Answer PyError
  (Site database plainUrls) DbSession (SiteMove plainUrls) (Party plainUrls)
  (Option (PaginatedResponse plainUrls))

def perform (turns : List ℕ) : Performance :=
  play player ((site database web explorers).initial before [request, download, request])
    (turns.map .inl)

theorem toLower_address : "0x1111111111111111111111111111111111111111".toLower =
    "0x1111111111111111111111111111111111111111" := by decide +kernel

/-- The first request is through when the download begins, the second one comes after it. -/
def inTurn : Performance := perform [0, 0, 0, 0, 0, 0, 1, 1, 1, 1, 1, 1, 2, 2, 2, 2]

theorem inTurn_current : (history key inTurn.1).Current := by
  have hlate : ¬(history key inTurn.1).late := by
    simp only [inTurn, perform, initial, List.map, spawn, site, Party.program, request, download,
      cacheResponse, getKeyForContract, Job.program, getContractMetadataTask,
      downloadContractMetadata, toLower_address]
    decide +kernel
  exact run_current (play_run player _ _) hlate

/-- The first request reads the contracts, the download goes through, and then the first
one stores what it has read. The second one gets it. -/
def overtaken : Performance := perform [0, 0, 1, 1, 1, 1, 1, 1, 0, 0, 0, 0, 2]

theorem overtaken_notCurrent :
    ∃ (tr : List (Site database plainUrls × SiteEvent plainUrls)) (c : SiteConfig database plainUrls),
      (site database web explorers).Run
        ((site database web explorers).initial before [request, download, request]) tr c ∧
      (history key tr).invalidated = [(7,8)] ∧ (history key tr).lookedAt 2 = some 13 ∧
      (history key tr).servedAt 2 = some 2 ∧ ¬(history key tr).Current := by
  have hhistory : (history key overtaken.1).invalidated = [(7,8)] ∧
      (history key overtaken.1).lookedAt 2 = some 13 ∧
      (history key overtaken.1).servedAt 2 = some 2 := by
    simp only [overtaken, perform, initial, List.map, spawn, site, Party.program, request, download,
      cacheResponse, getKeyForContract, Job.program, getContractMetadataTask,
      downloadContractMetadata, toLower_address]
    decide +kernel
  obtain ⟨hinvalidated,hlooked,hserved⟩ := hhistory
  refine ⟨overtaken.1,overtaken.2,play_run player _ _,hinvalidated,hlooked,hserved,fun h => ?_⟩
  have hlater := h 2 7 8 13 2 (by rw [hinvalidated]; exact List.mem_singleton_self _) hlooked hserved
    (by omega)
  omega

end Examples
end SafeDecoder.Staleness
