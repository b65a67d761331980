import SafeDecoder.Listing.Staleness

/-! # Responses that expire

A hash has no deadline until a request that has written to it looks at its TTL and sets
one. As long as no request is cut off in between while nobody else is about to do the
same, every hash is looked after.
-/
namespace SafeDecoder.Expiry
open Worker Listing ContractCache Machine

variable {pg : Postgres} {urls : Urls} {α β : Type}

section Shape

/-- The next command is the look at the TTL of the hash. -/
def AwaitsTtl (key : String) (p : Visit urls α) : Prop := ∃ next, p = .call (.ttl key) next

/-- The next command sets the deadline of the hash. -/
def AwaitsExpire (key : String) (p : Visit urls α) : Prop :=
  ∃ seconds next, p = .call (.expire key seconds) next

/-- What comes after a command: the TTL after a write, the deadline after a missing one and
only then. -/
def Follows : (c : SiteCommand urls) → (Except PyError c.Answer → Visit urls α) → Prop
  | .hset key _ _, next => (∀ u, AwaitsTtl key (next (.ok u))) ∧ ∀ r k, ¬AwaitsExpire k (next r)
  | .ttl key, next => AwaitsExpire key (next (.ok (-1))) ∧
      ∀ r k, AwaitsExpire k (next r) → r = .ok (-1) ∧ k = key
  | .expire _ seconds, next => seconds = 60 ∧ ∀ r k, ¬AwaitsExpire k (next r)
  | _, next => ∀ r k, ¬AwaitsExpire k (next r)

/-- The program looks after what it writes. -/
def Diligent : Visit urls α → Prop
  | .ret _ => True
  | .raise _ => True
  | .call c next => Follows c next ∧ ∀ r, Diligent (next r)

theorem not_awaitsExpire_ret (key : String) (a : α) : ¬AwaitsExpire key (.ret a : Visit urls α) := by
  rintro ⟨_,_,h⟩
  cases h

theorem not_awaitsExpire_raise (key : String) (e : PyError) :
    ¬AwaitsExpire key (.raise e : Visit urls α) := by
  rintro ⟨_,_,h⟩
  cases h

/-- Commands that are neither a write nor part of what follows it. -/
def Plain : SiteCommand urls → Prop
  | .hset _ _ _ => False
  | .ttl _ => False
  | .expire _ _ => False
  | _ => True

theorem follows_plain {c : SiteCommand urls} (hc : Plain c)
    {next : Except PyError c.Answer → Visit urls α} (h : ∀ r k, ¬AwaitsExpire k (next r)) :
    Follows c next := by
  cases c with
  | hset => exact hc.elim
  | ttl => exact hc.elim
  | expire => exact hc.elim
  | _ => exact h

theorem not_awaitsExpire_plain {c : SiteCommand urls} (hc : Plain c)
    (next : Except PyError c.Answer → Visit urls α) (key : String) :
    ¬AwaitsExpire key (.call c next) := by
  rintro ⟨_,_,h⟩
  cases h
  exact hc

theorem diligent_bind {x : Visit urls α} {f : α → Visit urls β} (hx : Issues Plain x)
    (hf : ∀ a, Diligent (f a) ∧ ∀ k, ¬AwaitsExpire k (f a)) :
    Diligent (x.bind f) ∧ ∀ k, ¬AwaitsExpire k (x.bind f) := by
  induction x with
  | ret a => exact hf a
  | raise e => exact ⟨trivial,fun k => not_awaitsExpire_raise k e⟩
  | call c next ih =>
    exact ⟨⟨follows_plain hx.1 fun r => (ih r (hx.2 r)).2,fun r => (ih r (hx.2 r)).1⟩,
      not_awaitsExpire_plain hx.1 _⟩

theorem issues_ofTask (x : Worker.Task α) : Issues Plain (ofTask x : Visit urls α) := by
  induction x with
  | ret a => trivial
  | raise e => trivial
  | call c next ih => exact ⟨trivial,ih⟩

/-- A request that has missed reads the contracts, writes and looks after the hash. -/
def storeResponse (key field : String) (expire : ℕ) (response : PaginatedResponse urls) :
    Visit urls (Option (PaginatedResponse urls)) :=
  .call (.hset key field response) fun
    | .ok _ => .call (.ttl key) fun
      | .ok t =>
        if t = -1 then
          .call (.expire key expire) fun
            | .ok _ => .ret (some response)
            | .error e => .raise e
        else .ret (some response)
      | .error e => .raise e
    | .error e => .raise e

theorem program_request (web : Web urls) (r : Request urls) :
    (Party.request r).program web =
      .call (.hget (getKeyForContract r.address) (web.getFieldKey r.url r.address)) fun
        | .ok (some cached) => .ret (some cached)
        | .ok none => (listContractsAt web r).bind
          (storeResponse (getKeyForContract r.address) (web.getFieldKey r.url r.address) 60)
        | .error e => .raise e := by
  refine congrArg (Proc.call _) (funext fun found => ?_)
  rcases found with e | (_ | cached)
  · rfl
  · change Proc.bind (Proc.bind (listContractsAt web r) _) _ = Proc.bind (listContractsAt web r) _
    rw [Proc.bind_assoc]
    refine congrArg (Proc.bind (listContractsAt web r)) (funext fun response => ?_)
    refine congrArg (Proc.call _) (funext fun written => ?_)
    cases written with
    | error e => rfl
    | ok _ =>
      refine congrArg (Proc.call _) (funext fun t => ?_)
      cases t with
      | error e => rfl
      | ok t =>
        change Proc.bind (if t = -1 then _ else _) _ = if t = -1 then _ else _
        by_cases ht : t = -1
        · rw [if_pos ht, if_pos ht]
          refine congrArg (Proc.call _) (funext fun expired => ?_)
          cases expired <;> rfl
        · rw [if_neg ht, if_neg ht]
          rfl
  · rfl

theorem diligent_storeResponse (key field : String) (response : PaginatedResponse urls) :
    Diligent (storeResponse key field 60 response) := by
  refine ⟨⟨fun _ => ⟨_,rfl⟩,fun r k => ?_⟩,fun r => ?_⟩
  · cases r with
    | error e => exact not_awaitsExpire_raise k e
    | ok _ =>
      rintro ⟨_,_,h⟩
      cases h
  · cases r with
    | error e => trivial
    | ok _ =>
      refine ⟨⟨⟨60,_,if_pos rfl⟩,fun t k h => ?_⟩,fun t => ?_⟩
      · cases t with
        | error e => exact absurd h (not_awaitsExpire_raise k e)
        | ok t =>
          dsimp only at h
          by_cases ht : t = -1
          · obtain ⟨seconds,next,h⟩ := h
            rw [if_pos ht] at h
            cases h
            exact ⟨congrArg Except.ok ht,rfl⟩
          · rw [if_neg ht] at h
            exact absurd h (not_awaitsExpire_ret k _)
      · cases t with
        | error e => trivial
        | ok t =>
          dsimp only
          by_cases ht : t = -1
          · rw [if_pos ht]
            refine ⟨⟨rfl,fun r k => ?_⟩,fun r => ?_⟩
            · cases r with
              | error e => exact not_awaitsExpire_raise k e
              | ok _ => exact not_awaitsExpire_ret k _
            · cases r <;> trivial
          · rw [if_neg ht]
            trivial

theorem issues_listContractsAt (web : Web urls) (r : Request urls) :
    Issues Plain (listContractsAt web r) := by
  unfold listContractsAt
  split
  · apply (Issues.perform trivial).bind
    intro page
    exact (Issues.perform trivial).bind fun count => trivial
  · trivial

/-- Requests and tasks look after what they write, and do not begin with a deadline. -/
theorem diligent_program (web : Web urls) (party : Party urls) :
    Diligent (party.program web) ∧ ∀ k, ¬AwaitsExpire k (party.program web) := by
  cases party with
  | job j =>
    apply diligent_bind (issues_ofTask _)
    intro _
    exact ⟨trivial,fun k => not_awaitsExpire_ret k _⟩
  | request r =>
    rw [program_request]
    have hmiss := diligent_bind (issues_listContractsAt web r) fun response =>
      ⟨diligent_storeResponse (getKeyForContract r.address) (web.getFieldKey r.url r.address) response,
        fun k => by
          rintro ⟨_,_,h⟩
          cases h⟩
    refine ⟨⟨fun found k => ?_,fun found => ?_⟩,not_awaitsExpire_plain (c := .hget _ _) trivial _⟩
    · rcases found with e | (_ | cached)
      · exact not_awaitsExpire_raise k e
      · exact hmiss.2 k
      · exact not_awaitsExpire_ret k _
    · rcases found with e | (_ | cached)
      · trivial
      · exact hmiss.1
      · trivial

end Shape

section Attention
variable {web : Web urls} {explorers : Explorers} {c d : SiteConfig pg urls} {key : String}

/-- The request with number `i` is between its `HSET` and its `EXPIRE`. -/
def Between (c : SiteConfig pg urls) (key : String) (i : ℕ) : Prop :=
  ∃ th, c.threads[i]? = some th ∧ (AwaitsTtl key th.prog ∨ AwaitsExpire key th.prog)

/-- The hash has no deadline, and at most this request is going to set one. -/
def LastAt (c : SiteConfig pg urls) (key : String) (i : ℕ) : Prop :=
  (∃ h, c.state.hashes key = some h ∧ h.deadline = none) ∧ ∀ j, Between c key j → j = i

/-- A request is cut off at its `TTL` or at its `EXPIRE` and leaves a hash behind that
nobody looks after. -/
def Severs (c : SiteConfig pg urls) : SiteEvent urls → Prop
  | .own i (.ttl key) (.error _) => LastAt c key i
  | .own i (.expire key _) (.error _) => LastAt c key i
  | _ => False

/-- Unless a request is between its `HSET` and its `EXPIRE`, a hash ends within a minute,
and what is cached after that minute has been written since. -/
structure Expires (web : Web urls) (explorers : Explorers) (c : SiteConfig pg urls) : Prop where
  deadline : ∀ key, (∀ i, ¬Between c key i) → ∀ h, c.state.hashes key = some h →
    ∃ t, h.deadline = some t ∧ t ≤ c.state.now + 60
  fades : ∀ key, (∀ i, ¬Between c key i) → ∀ {tr d}, (site pg web explorers).Run c tr d →
    c.state.now + 60 ≤ d.state.now → ∀ field v, d.state.cached key field = some v →
      ∃ s i, (s,Event.own i (.hset key field v) (.ok ())) ∈ tr

/-- Every hash without a deadline is looked after. -/
structure Attended (c : SiteConfig pg urls) : Prop where
  diligent : ∀ th ∈ c.threads, Diligent th.prog
  between : ∀ key h, c.state.hashes key = some h → h.deadline = none → ∃ i, Between c key i
  minute : ∀ key h t, c.state.hashes key = some h → h.deadline = some t → t ≤ c.state.now + 60

theorem diligent_step {e : SiteEvent urls} (h : (site pg web explorers).Step c e d)
    (hc : ∀ th ∈ c.threads, Diligent th.prog) : ∀ th ∈ d.threads, Diligent th.prog := by
  cases h with
  | @own i label l l' cmd next r s' hi he =>
    intro th hth
    rcases List.mem_or_eq_of_mem_set hth with hth | rfl
    · exact hc th hth
    · exact (hc _ (List.mem_of_getElem? hi)).2 r
  | env hm =>
    intro th hth
    rcases List.mem_append.mp hth with hth | hth
    · exact hc th hth
    · obtain ⟨party,_,rfl⟩ := List.mem_map.mp hth
      exact (diligent_program web party).1

/-- Another thread is not moved by a step. -/
theorem between_set {i j : ℕ} (hij : i ≠ j) {th : Thread (SiteCommand urls) SiteCommand.Answer PyError
    DbSession (Party urls) (Option (PaginatedResponse urls))} {s : Site pg urls}
    (h : Between c key j) : Between ⟨s,c.threads.set i th⟩ key j := by
  obtain ⟨th',hj,hb⟩ := h
  exact ⟨th',by rwa [List.getElem?_set_ne hij],hb⟩

theorem between_self {i : ℕ} {th th' : Thread (SiteCommand urls) SiteCommand.Answer PyError
    DbSession (Party urls) (Option (PaginatedResponse urls))} {s : Site pg urls}
    (hi : c.threads[i]? = some th) (h : AwaitsTtl key th'.prog ∨ AwaitsExpire key th'.prog) :
    Between ⟨s,c.threads.set i th'⟩ key i :=
  ⟨th',List.getElem?_set_self (List.getElem?_eq_some_iff.mp hi).1,h⟩

/-- The hash that a command looks after. -/
def attends : SiteCommand urls → Option String
  | .ttl key => some key
  | .expire key _ => some key
  | _ => none

theorem attends_of_between {i : ℕ} {label : Party urls} {l : DbSession} {cmd : SiteCommand urls}
    {next : Except PyError cmd.Answer → Visit urls (Option (PaginatedResponse urls))}
    (hi : c.threads[i]? = some ⟨label,l,.call cmd next⟩) (h : Between c key i) :
    attends cmd = some key := by
  obtain ⟨th,hth,hb⟩ := h
  rw [hi] at hth
  cases hth
  rcases hb with ⟨_,h⟩ | ⟨_,_,h⟩
  · cases h
    rfl
  · cases h
    rfl

theorem now_after (s : Site pg urls) (cmd : Command) (w : World pg) : (s.after cmd w).now = s.now := by
  unfold Site.after
  split <;> rfl

section Own
variable {i : ℕ} {label : Party urls} {l l' : DbSession} {cmd : SiteCommand urls}
  {next : Except PyError cmd.Answer → Visit urls (Option (PaginatedResponse urls))}
  {r : Except PyError cmd.Answer} {s' : Site pg urls}

/-- Whoever else looks after a hash still does. -/
theorem between_others (hc : Attended c) (hi : c.threads[i]? = some ⟨label,l,.call cmd next⟩)
    {h : Hash urls} (hh : c.state.hashes key = some h) (hd : h.deadline = none)
    (hno : attends cmd ≠ some key) : ∃ j, Between ⟨s',c.threads.set i ⟨label,l',next r⟩⟩ key j := by
  obtain ⟨j,hj⟩ := hc.between key h hh hd
  have hij : i ≠ j := by
    rintro rfl
    exact hno (attends_of_between hi hj)
  exact ⟨j,between_set hij hj⟩

/-- Who is cut off is not the last to look after a hash. -/
theorem between_cut (hc : Attended c) (hi : c.threads[i]? = some ⟨label,l,.call cmd next⟩)
    {e : PyError} (hsevers : ¬Severs c (.own i cmd (.error e))) {h : Hash urls}
    (hh : c.state.hashes key = some h) (hd : h.deadline = none) :
    ∃ j, Between ⟨s',c.threads.set i ⟨label,l',next (.error e)⟩⟩ key j := by
  by_cases hattends : attends cmd = some key
  · have hlast : ¬LastAt c key i := by
      cases cmd with
      | ttl k =>
        cases hattends
        exact hsevers
      | expire k seconds =>
        cases hattends
        exact hsevers
      | _ => cases hattends
    obtain ⟨j,hj,hji⟩ : ∃ j, Between c key j ∧ j ≠ i := by
      by_contra hno
      refine hlast ⟨⟨h,hh,hd⟩,fun j hj => ?_⟩
      by_contra hji
      exact hno ⟨j,hj,hji⟩
    exact ⟨j,between_set (Ne.symm hji) hj⟩
  · exact between_others hc hi hh hd hattends

/-- A hash without a deadline is one that this request goes on to look after, or others do. -/
theorem between_request (hc : Attended c) (hi : c.threads[i]? = some ⟨label,l,.call cmd next⟩)
    (ha : answer c.state cmd = some (r,s')) {h : Hash urls} (hh : s'.hashes key = some h)
    (hd : h.deadline = none) : ∃ j, Between ⟨s',c.threads.set i ⟨label,l',next r⟩⟩ key j := by
  have hfollows : Follows cmd next := (hc.diligent _ (List.mem_of_getElem? hi)).1
  cases cmd with
  | task cmd => cases ha
  | hset k field response =>
    cases ha
    rcases hashes_hset hh with ⟨rfl,_⟩ | ⟨_,hh⟩
    · exact ⟨i,between_self hi (.inl (hfollows.1 ()))⟩
    · exact between_others hc hi hh hd nofun
  | ttl k =>
    cases ha
    by_cases hk : k = key
    · subst hk
      have hmissing : c.state.ttl k = -1 := by simp [Site.ttl, hh, hd]
      refine ⟨i,between_self hi (.inr ?_)⟩
      rw [hmissing]
      exact hfollows.1
    · exact between_others hc hi hh hd fun hno => hk (Option.some.inj hno)
  | expire k seconds =>
    cases ha
    rcases hashes_expire hh with ⟨_,hdeadline⟩ | ⟨hk,hh⟩
    · rw [hdeadline] at hd
      cases hd
    · exact between_others hc hi hh hd fun hno => hk (Option.some.inj hno).symm
  | _ =>
    cases ha
    exact between_others hc hi hh hd nofun

theorem between_own (hc : Attended c) (hi : c.threads[i]? = some ⟨label,l,.call cmd next⟩)
    (he : SiteExec explorers c.state l cmd r s' l') (hsevers : ¬Severs c (.own i cmd r))
    {h : Hash urls} (hh : s'.hashes key = some h) (hd : h.deadline = none) :
    ∃ j, Between ⟨s',c.threads.set i ⟨label,l',next r⟩⟩ key j := by
  cases he with
  | cut => exact between_cut hc hi hsevers hh hd
  | task _ => exact between_others hc hi (hashes_after hh) hd nofun
  | request ha => exact between_request hc hi ha hh hd

theorem minute_request (hc : Attended c) (hi : c.threads[i]? = some ⟨label,l,.call cmd next⟩)
    (ha : answer c.state cmd = some (r,s')) {h : Hash urls} {t : ℕ} (hh : s'.hashes key = some h)
    (hd : h.deadline = some t) : t ≤ s'.now + 60 := by
  have hfollows : Follows cmd next := (hc.diligent _ (List.mem_of_getElem? hi)).1
  cases cmd with
  | task cmd => cases ha
  | hset k field response =>
    cases ha
    rcases hashes_hset hh with ⟨rfl,hdeadline⟩ | ⟨_,hh⟩
    · rw [hdeadline] at hd
      obtain ⟨x,hx,hd⟩ := Option.bind_eq_some_iff.mp hd
      exact hc.minute key x t hx hd
    · exact hc.minute key h t hh hd
  | expire k seconds =>
    cases ha
    rcases hashes_expire hh with ⟨_,hdeadline⟩ | ⟨_,hh⟩
    · rw [hdeadline, hfollows.1] at hd
      cases hd
      exact le_rfl
    · exact hc.minute key h t hh hd
  | _ =>
    cases ha
    exact hc.minute key h t hh hd

theorem minute_own (hc : Attended c) (hi : c.threads[i]? = some ⟨label,l,.call cmd next⟩)
    (he : SiteExec explorers c.state l cmd r s' l') {h : Hash urls} {t : ℕ}
    (hh : s'.hashes key = some h) (hd : h.deadline = some t) : t ≤ s'.now + 60 := by
  cases he with
  | cut => exact hc.minute key h t hh hd
  | task _ =>
    rw [now_after]
    exact hc.minute key h t (hashes_after hh) hd
  | request ha => exact minute_request hc hi ha hh hd

end Own

theorem attended_step {e : SiteEvent urls} (hc : Attended c)
    (h : (site pg web explorers).Step c e d) (hsevers : ¬Severs c e) : Attended d := by
  have hdiligent := diligent_step h hc.diligent
  cases h with
  | own hi he =>
    exact ⟨hdiligent,fun _ _ => between_own hc hi he hsevers,fun _ _ _ => minute_own hc hi he⟩
  | @env mv s' labels hm =>
    have happend : ∀ {s : Site pg urls} key, (∃ j, Between c key j) →
        ∃ j, Between ⟨s,c.threads ++ labels.map (site pg web explorers).spawn⟩ key j := by
      rintro s key ⟨j,th,hj,hb⟩
      exact ⟨j,th,by rwa [List.getElem?_append_left (List.getElem?_eq_some_iff.mp hj).1],hb⟩
    cases hm with
    | pass seconds =>
      refine ⟨hdiligent,fun key h hh hd => ?_,fun key h t hh hd => ?_⟩
      · exact happend key (hc.between key h (Option.filter_eq_some_iff.mp hh).1 hd)
      · have hbound := hc.minute key h t (Option.filter_eq_some_iff.mp hh).1 hd
        change t ≤ c.state.now + seconds + 60
        omega
    | expire => exact ⟨hdiligent,fun key h hh hd => happend key (hc.between key h hh hd),hc.minute⟩
    | arrive => exact ⟨hdiligent,fun key h hh hd => happend key (hc.between key h hh hd),hc.minute⟩

end Attention

section Fading
variable {web : Web urls} {explorers : Explorers} {c d : SiteConfig pg urls} {key : String} {D : ℕ}
  {tr : List (Site pg urls × SiteEvent urls)}

/-- The hash still has the deadline that nobody is about to change. -/
structure Ending (key : String) (D : ℕ) (d : SiteConfig pg urls) : Prop where
  hash : ∃ h, d.state.hashes key = some h ∧ h.deadline = some D
  quiet : ∀ th ∈ d.threads, ¬AwaitsExpire key th.prog

/-- What is cached has been written in the run. -/
def Renewed (key : String) (tr : List (Site pg urls × SiteEvent urls)) (d : SiteConfig pg urls) : Prop :=
  ∀ field v, d.state.cached key field = some v →
    ∃ s i, (s,Event.own i (.hset key field v) (.ok ())) ∈ tr

theorem renewed_of_missing (h : d.state.hashes key = none) : Renewed key tr d := by
  intro field v hv
  rw [Site.cached, h] at hv
  cases hv

/-- Only who is told that there is no deadline goes on to set one. -/
theorem Follows.quiet {cmd : SiteCommand urls} {next : Except PyError cmd.Answer → Visit urls α}
    (h : Follows cmd next) (hcmd : ∀ k, cmd ≠ .ttl k) (r : Except PyError cmd.Answer) :
    ¬AwaitsExpire key (next r) := by
  cases cmd with
  | ttl k => exact absurd rfl (hcmd k)
  | hset k field response => exact h.2 r key
  | expire k seconds => exact h.2 r key
  | _ => exact h r key

theorem Follows.quiet_error {cmd : SiteCommand urls} {next : Except PyError cmd.Answer → Visit urls α}
    (h : Follows cmd next) (e : PyError) : ¬AwaitsExpire key (next (.error e)) := by
  cases cmd with
  | ttl k =>
    intro hexpire
    cases (h.2 _ key hexpire).1
  | hset k field response => exact h.2 _ key
  | expire k seconds => exact h.2 _ key
  | _ => exact h _ key

theorem ending_request (hc : ∀ th ∈ c.threads, Diligent th.prog) {i : ℕ} {label : Party urls}
    {l : DbSession} {cmd : SiteCommand urls}
    {next : Except PyError cmd.Answer → Visit urls (Option (PaginatedResponse urls))}
    {r : Except PyError cmd.Answer} {s' : Site pg urls}
    (hi : c.threads[i]? = some ⟨label,l,.call cmd next⟩) (ha : answer c.state cmd = some (r,s'))
    (hending : Ending key D c) :
    (∃ h, s'.hashes key = some h ∧ h.deadline = some D) ∧ ¬AwaitsExpire key (next r) := by
  obtain ⟨⟨x,hx,hD⟩,hquiet⟩ := hending
  have hfollows : Follows cmd next := (hc _ (List.mem_of_getElem? hi)).1
  cases cmd with
  | task cmd => cases ha
  | hset k field response =>
    cases ha
    refine ⟨?_,hfollows.quiet (by simp) _⟩
    rw [Site.hset, hashes_setHash]
    split
    · rename_i hk
      subst hk
      exact ⟨_,rfl,by simp [Site.written, hx, hD]⟩
    · exact ⟨x,hx,hD⟩
  | ttl k =>
    cases ha
    refine ⟨⟨x,hx,hD⟩,fun hexpire => ?_⟩
    obtain ⟨hmissing,rfl⟩ := hfollows.2 _ key hexpire
    have hlive := c.state.live key x D hx hD
    have hleft : c.state.ttl key = (D : Int) - c.state.now := by simp [Site.ttl, hx, hD]
    have hmissing : c.state.ttl key = -1 := Except.ok.inj hmissing
    omega
  | expire k seconds =>
    cases ha
    refine ⟨⟨x,?_,hD⟩,hfollows.quiet (by simp) _⟩
    have hk : key ≠ k := by
      rintro rfl
      exact hquiet _ (List.mem_of_getElem? hi) ⟨_,_,rfl⟩
    rw [Site.expire, hashes_setHash, if_neg hk, hx]
  | _ =>
    cases ha
    exact ⟨⟨x,hx,hD⟩,hfollows.quiet (by simp) _⟩

theorem ending_own (hc : ∀ th ∈ c.threads, Diligent th.prog) {i : ℕ} {label : Party urls}
    {l l' : DbSession} {cmd : SiteCommand urls}
    {next : Except PyError cmd.Answer → Visit urls (Option (PaginatedResponse urls))}
    {r : Except PyError cmd.Answer} {s' : Site pg urls}
    (hi : c.threads[i]? = some ⟨label,l,.call cmd next⟩)
    (he : SiteExec explorers c.state l cmd r s' l') (hending : Ending key D c) :
    Ending key D ⟨s',c.threads.set i ⟨label,l',next r⟩⟩ ∨ s'.hashes key = none := by
  have hfollows : Follows cmd next := (hc _ (List.mem_of_getElem? hi)).1
  have hset : ¬AwaitsExpire key (next r) →
      ∀ th ∈ c.threads.set i ⟨label,l',next r⟩, ¬AwaitsExpire key th.prog := by
    intro hnext th hth
    rcases List.mem_or_eq_of_mem_set hth with hth | rfl
    · exact hending.quiet th hth
    · exact hnext
  cases he with
  | cut => exact .inl ⟨hending.hash,hset (hfollows.quiet_error _)⟩
  | task h =>
    rename_i cmd r w
    cases hafter : (c.state.after cmd w).hashes key with
    | none => exact .inr rfl
    | some y =>
      obtain ⟨x,hx,hD⟩ := hending.hash
      have hy : some x = some y := hx.symm.trans (hashes_after hafter)
      cases hy
      exact .inl ⟨⟨y,hafter,hD⟩,hset (hfollows.quiet nofun _)⟩
  | request ha =>
    obtain ⟨hhash,hquiet⟩ := ending_request hc hi ha hending
    exact .inl ⟨hhash,hset hquiet⟩

theorem ending_step {e : SiteEvent urls} (hc : ∀ th ∈ c.threads, Diligent th.prog)
    (h : (site pg web explorers).Step c e d) (hending : Ending key D c) :
    Ending key D d ∨ d.state.hashes key = none := by
  cases h with
  | own hi he => exact ending_own hc hi he hending
  | @env mv s' labels hm =>
    obtain ⟨⟨x,hx,hD⟩,hquiet⟩ := hending
    have happend : ∀ th ∈ c.threads ++ labels.map (site pg web explorers).spawn,
        ¬AwaitsExpire key th.prog := by
      intro th hth
      rcases List.mem_append.mp hth with hth | hth
      · exact hquiet th hth
      · obtain ⟨party,_,rfl⟩ := List.mem_map.mp hth
        exact (diligent_program web party).2 key
    cases hm with
    | pass seconds =>
      by_cases hpassed : c.state.now + seconds < D
      · refine .inl ⟨⟨x,?_,hD⟩,happend⟩
        exact Option.filter_eq_some_iff.mpr ⟨hx,by simp [hD, hpassed]⟩
      · refine .inr ?_
        change (c.state.hashes key).filter _ = none
        simp [hx, Option.filter, hD, hpassed]
    | expire => exact .inl ⟨⟨x,hx,hD⟩,happend⟩
    | arrive => exact .inl ⟨⟨x,hx,hD⟩,happend⟩

theorem renewed_step {e : SiteEvent urls} (h : (site pg web explorers).Step c e d)
    (hc : Renewed key tr c) : Renewed key (tr ++ [(c.state,e)]) d := by
  have hold : ∀ {s'}, Keeps key c.state s' → ∀ field v, s'.cached key field = some v →
      ∃ s i, (s,Event.own i (.hset key field v) (.ok ())) ∈ tr ++ [(c.state,e)] := by
    intro s' hs field v hv
    obtain ⟨s,i,hmem⟩ := hc field v (hs field v hv)
    exact ⟨s,i,List.mem_append_left _ hmem⟩
  cases h with
  | @own i label l l' cmd next r s' hi he =>
    cases he with
    | cut => exact hold fun _ _ hv => hv
    | task h => exact hold (keeps_after _ _)
    | request h =>
      cases cmd with
      | task cmd => cases h
      | selectPage p q =>
        cases h
        exact hold fun _ _ hv => hv
      | selectCount q =>
        cases h
        exact hold fun _ _ hv => hv
      | hget k field =>
        cases h
        exact hold fun _ _ hv => hv
      | hset k f response =>
        cases h
        intro field v hv
        change (c.state.hset k f response).cached key field = some v at hv
        rw [cached_hset] at hv
        split at hv
        · rename_i hsame
          obtain ⟨rfl,rfl⟩ := hsame
          cases hv
          exact ⟨c.state,i,List.mem_append_right _ (List.mem_singleton_self _)⟩
        · exact hold (fun _ _ hv => hv) field v hv
      | ttl k =>
        cases h
        exact hold fun _ _ hv => hv
      | expire k seconds =>
        cases h
        exact hold (keeps_expire k seconds)
  | env hm =>
    cases hm with
    | pass seconds => exact hold (keeps_pass seconds)
    | expire => exact hold fun _ _ hv => hv
    | arrive => exact hold fun _ _ hv => hv

/-- A hash that nobody is about to change ends when its deadline comes. -/
theorem run_ending (hc : ∀ th ∈ c.threads, Diligent th.prog)
    (hstart : Ending key D c ∨ c.state.hashes key = none)
    (h : (site pg web explorers).Run c tr d) :
    (∀ th ∈ d.threads, Diligent th.prog) ∧ (Ending key D d ∨ Renewed key tr d) := by
  induction h with
  | refl => exact ⟨hc,hstart.imp_right renewed_of_missing⟩
  | step _ hstep ih =>
    obtain ⟨hdiligent,hd⟩ := ih
    refine ⟨diligent_step hstep hdiligent,?_⟩
    rcases hd with hd | hd
    · exact (ending_step hdiligent hstep hd).imp_right renewed_of_missing
    · exact .inr (renewed_step hstep hd)

theorem Attended.expires (hc : Attended c) : Expires web explorers c := by
  have hdeadline : ∀ key, (∀ i, ¬Between c key i) → ∀ h, c.state.hashes key = some h →
      ∃ t, h.deadline = some t ∧ t ≤ c.state.now + 60 := by
    intro key hno h hh
    cases hd : h.deadline with
    | none =>
      obtain ⟨i,hi⟩ := hc.between key h hh hd
      exact absurd hi (hno i)
    | some t => exact ⟨t,rfl,hc.minute key h t hh hd⟩
  refine ⟨hdeadline,fun key hno {tr d} hrun hnow => ?_⟩
  have hquiet : ∀ th ∈ c.threads, ¬AwaitsExpire key th.prog := by
    intro th hth hexpire
    obtain ⟨i,hi⟩ := List.mem_iff_getElem?.mp hth
    exact hno i ⟨th,hi,.inr hexpire⟩
  cases hh : c.state.hashes key with
  | none =>
    rcases (run_ending (D := 0) hc.diligent (.inr hh) hrun).2 with hending | hrenewed
    · obtain ⟨x,hx,hD⟩ := hending.hash
      exact absurd (d.state.live key x 0 hx hD) (Nat.not_lt_zero _)
    · exact hrenewed
  | some h =>
    obtain ⟨t,ht,hle⟩ := hdeadline key hno h hh
    rcases (run_ending hc.diligent (.inl ⟨⟨h,hh,ht⟩,hquiet⟩) hrun).2 with hending | hrenewed
    · obtain ⟨x,hx,hD⟩ := hending.hash
      have hlive := d.state.live key x t hx hD
      omega
    · exact hrenewed

/-- As long as nobody is cut off who is the last to look after a hash, every hash of
every state that is reached expires. -/
theorem run_expires {s : Site pg urls} {parties : List (Party urls)}
    (hs : ∀ key h, s.hashes key = some h → ∃ t, h.deadline = some t ∧ t ≤ s.now + 60)
    (h : (site pg web explorers).RunWhere (fun c e => ¬Severs c e)
      ((site pg web explorers).initial s parties) c) : Expires web explorers c := by
  refine Attended.expires (h.invariant ?_ attended_step)
  refine ⟨fun th hth => ?_,fun key x hx hd => ?_,fun key x t hx hd => ?_⟩
  · obtain ⟨party,_,rfl⟩ := List.mem_map.mp hth
    exact (diligent_program web party).1
  · obtain ⟨t,ht,_⟩ := hs key x hx
    rw [hd] at ht
    cases ht
  · obtain ⟨t',ht,hle⟩ := hs key x hx
    rw [hd] at ht
    cases ht
    exact hle

/-- A hash without a deadline never ends by itself. -/
theorem cached_pass {s : Site pg urls} {h : Hash urls} (hh : s.hashes key = some h)
    (hnone : h.deadline = none) (seconds : ℕ) (field : String) :
    (s.pass seconds).cached key field = s.cached key field := by
  have hkept : (s.pass seconds).hashes key = some h :=
    Option.filter_eq_some_iff.mpr ⟨hh,by simp [hnone]⟩
  rw [Site.cached, Site.cached, hkept, hh]

end Fading

section Examples
open Reference Staleness

/-- One request, to its end, with no cut. -/
def undisturbed : Performance :=
  play player ((site database web explorers).initial before [request]) ((List.replicate 6 0).map .inl)

/-- Every command of the events has been carried out. -/
def carriedOut (tr : List (Site database plainUrls × SiteEvent plainUrls)) : Bool :=
  tr.all fun x => match x.2 with
    | .own _ _ (.error _) => false
    | _ => true

theorem not_severs_of_carriedOut {tr : List (Site database plainUrls × SiteEvent plainUrls)}
    (h : carriedOut tr) {s : Site database plainUrls} {e : SiteEvent plainUrls} (he : (s,e) ∈ tr)
    (c : SiteConfig database plainUrls) : ¬Severs c e := by
  have hone := List.all_eq_true.mp h _ he
  cases e with
  | env mv => exact id
  | own i cmd r =>
    cases r with
    | error e => cases hone
    | ok a => cases cmd <;> exact id

theorem undisturbed_expires : Expires web explorers undisturbed.2 := by
  have hcarried : carriedOut undisturbed.1 := by
    simp only [undisturbed, initial, List.map, spawn, site, Party.program, request,
      cacheResponse, getKeyForContract]
    decide +kernel
  exact run_expires (fun _ _ h => by cases h)
    ((play_run player _ _).runWhere fun s e he c => not_severs_of_carriedOut hcarried he c)

/-- Requests are cut off when they look at the TTL. -/
def cutting : (site database web explorers).Player where
  respond := fun s l c =>
    match c with
    | .ttl _ => (.error .cancelledError,s,l)
    | c => player.respond s l c
  move := player.move
  respond_exec := by
    intro s l c
    cases c with
    | ttl key => exact .cut
    | _ => exact player.respond_exec s l _
  move_move := player.move_move

def severed : Performance :=
  play cutting ((site database web explorers).initial before [request]) ((List.replicate 5 0).map .inl)

theorem severed_left : (severed.2.threads.all fun th => th.prog.outcome?.isSome) = true ∧
    (severed.2.state.hashes key).map Hash.deadline = some none ∧
    (severed.2.state.cached key "GET").isSome := by
  simp only [severed, initial, List.map, spawn, site, Party.program, request,
    cacheResponse, getKeyForContract, toLower_address]
  decide +kernel

/-- The request has ended between its `HSET` and its `EXPIRE`, and its response stays. -/
theorem severed_notExpires : (site database web explorers).Run
      ((site database web explorers).initial before [request]) severed.1 severed.2 ∧
    (∀ key i, ¬Between severed.2 key i) ∧
    (severed.2.state.hashes key).map Hash.deadline = some none ∧
    (∀ seconds, ((severed.2.state.pass seconds).cached key "GET").isSome) ∧
    ¬Expires web explorers severed.2 := by
  obtain ⟨hended,hdeadline,hcached⟩ := severed_left
  have hno : ∀ key i, ¬Between severed.2 key i := by
    rintro key i ⟨th,hi,⟨_,h⟩ | ⟨_,_,h⟩⟩
    · have hone := List.all_eq_true.mp hended th (List.mem_of_getElem? hi)
      rw [h] at hone
      cases hone
    · have hone := List.all_eq_true.mp hended th (List.mem_of_getElem? hi)
      rw [h] at hone
      cases hone
  obtain ⟨h,hh,hnone⟩ := Option.map_eq_some_iff.mp hdeadline
  refine ⟨play_run cutting _ _,hno,hdeadline,fun seconds => ?_,fun hexpires => ?_⟩
  · rwa [cached_pass hh hnone]
  · obtain ⟨t,ht,_⟩ := hexpires.deadline key (hno key) h hh
    rw [hnone] at ht
    cases ht

end Examples
end SafeDecoder.Expiry
