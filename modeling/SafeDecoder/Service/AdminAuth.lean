import Mathlib.Logic.Function.Basic
import SafeDecoder.Library.Interleaving
import SafeDecoder.Worker.Events

/-! # Who is let into the admin panel

A login with the right credentials stores a token in Redis and in the session, which
the browser keeps as a signed cookie. A cookie can be sent again at any time, also
after a logout, so what counts is the key in Redis. It expires, a logout deletes it,
and the handlers of several requests take turns.
-/
namespace SafeDecoder.AdminAuth
open Effects Events

section Model

structure Settings where
  adminUsername : String
  adminPassword : String
  adminTokenExpirationSeconds : ℕ

/-- The deadlines of the keys `admin:token:…` in Redis, the clock, the tokens that have been
made, and those in the cookies that have been signed. -/
structure Site where
  redis : String → Option ℕ
  now : ℕ
  issued : List String
  signed : List String

def Site.exists? (s : Site) (secret : String) : Bool := (s.redis secret).any fun deadline => s.now < deadline

inductive Command
  | loadSession (cookie : Option String)
  | getToken
  | updateToken (secret : String)
  | clearSession
  | sendCookie
  | tokenHex
  | setKey (secret : String) (ex : ℕ)
  | deleteKey (secret : String)
  | existsKey (secret : String)

def Command.Answer : Command → Type
  | getToken => Option String
  | tokenHex => String
  | existsKey _ => Bool
  | loadSession _ | updateToken _ | clearSession | sendCookie | setKey _ _ | deleteKey _ => Unit

abbrev Handler := Proc Command Command.Answer PyError

def issue (c : Command) : Handler c.Answer := Proc.perform c

inductive Route
  | login (username password : Option String)
  | logout
  | page
  deriving DecidableEq

/-- The form fields that are no texts are left out, and the cookie holds the token of the session. -/
structure Request where
  cookie : Option String
  route : Route
  deriving DecidableEq

variable (settings : Settings)

/-- `secrets.compare_digest` -/
def compareCredentials (candidate expected : String) : Bool :=
  candidate.toUTF8.data == expected.toUTF8.data

def login : Option String → Option String → Handler Bool
  | some username, some password => do
    let usernameOk := compareCredentials username settings.adminUsername
    let passwordOk := compareCredentials password settings.adminPassword
    if usernameOk && passwordOk then do
      let secret : String ← issue .tokenHex
      issue (.updateToken secret)
      issue (.setKey secret settings.adminTokenExpirationSeconds)
      return true
    else return false
  | _, _ => return false

def truthy : Option String → Option String
  | some secret => if secret ≠ "" then some secret else none
  | none => none

/-- A token that Redis does not delete is only logged. -/
def deleteToken (secret : String) : Handler Unit :=
  catchOnly isException (issue (.deleteKey secret)) fun _ => return ()

def logout : Handler Bool := do
  let token : Option String ← issue .getToken
  (truthy token).elim (return ()) deleteToken
  issue .clearSession
  return true

def authenticate : Handler Bool := do
  let token : Option String ← issue .getToken
  match truthy token with
  | some secret => issue (.existsKey secret)
  | none => return false

def dispatch : Route → Handler Bool
  | .login username password => login settings username password
  | .logout => logout
  | .page => authenticate

/-- The session middleware reads the cookie and signs what is in the session at the end. -/
def serve (r : Request) : Handler Bool := do
  issue (.loadSession r.cookie)
  let answer ← dispatch settings r.route
  issue .sendCookie
  return answer

/-- What the commands do. A call of Redis may fail, with or without an effect. -/
inductive Exec : Site → Option String → (c : Command) → Except PyError c.Answer → Site →
    Option String → Prop
  | loadSession {s : Site} {l : Option String} (cookie : Option String) :
      Exec s l (.loadSession cookie) (.ok ()) s cookie
  | getToken {s : Site} {l : Option String} : Exec s l .getToken (.ok l) s l
  | updateToken {s : Site} {l : Option String} (secret : String) :
      Exec s l (.updateToken secret) (.ok ()) s (some secret)
  | clearSession {s : Site} {l : Option String} : Exec s l .clearSession (.ok ()) s none
  | sendCookie {s : Site} {l : Option String} :
      Exec s l .sendCookie (.ok ()) { s with signed := l.toList ++ s.signed } l
  | tokenHex {s : Site} {l : Option String} {secret : String} (new : secret ∉ s.issued) :
      Exec s l .tokenHex (.ok secret) { s with issued := secret :: s.issued } l
  | setKey {s : Site} {l : Option String} (secret : String) (ex : ℕ) (r : Except PyError Unit) :
      Exec s l (.setKey secret ex) r
        { s with redis := Function.update s.redis secret (some (s.now + ex)) } l
  | unset {s : Site} {l : Option String} (secret : String) (ex : ℕ) (e : PyError) :
      Exec s l (.setKey secret ex) (.error e) s l
  | deleteKey {s : Site} {l : Option String} (secret : String) (r : Except PyError Unit) :
      Exec s l (.deleteKey secret) r { s with redis := Function.update s.redis secret none } l
  | undeleted {s : Site} {l : Option String} (secret : String) (e : PyError) :
      Exec s l (.deleteKey secret) (.error e) s l
  | existsKey {s : Site} {l : Option String} (secret : String) :
      Exec s l (.existsKey secret) (.ok (s.exists? secret)) s l
  | unanswered {s : Site} {l : Option String} (secret : String) (e : PyError) :
      Exec s l (.existsKey secret) (.error e) s l

inductive Move
  | tick
  | evict (secret : String)
  | arrive (r : Request)

/-- A cookie that nobody has signed is not read. -/
inductive Moves : Move → Site → Site → List Request → Prop
  | tick {s : Site} : Moves .tick s { s with now := s.now + 1 } []
  | evict {s : Site} (secret : String) :
      Moves (.evict secret) s { s with redis := Function.update s.redis secret none } []
  | arrive {s : Site} {r : Request} (hcookie : ∀ secret ∈ r.cookie, secret ∈ s.signed) :
      Moves (.arrive r) s s [r]

def panel : Machine Command Command.Answer PyError Site (Option String) Move Request Bool where
  exec := Exec
  move := Moves
  program := serve settings
  session := none

def Site.start : Site := ⟨fun _ => none,0,[],[]⟩

end Model

section Watching

/-- The requests so far, who has made which token, who has stored it and when, which tokens
have been deleted, and which requests have asked for a token that Redis had. -/
structure Ghost where
  labels : List Request
  owner : String → Option ℕ
  stored : List (String × ℕ × ℕ)
  deleted : List String
  granted : List (ℕ × String)

def Ghost.start : Ghost := ⟨[],fun _ => none,[],[],[]⟩

def Ghost.answer (g : Ghost) (i : ℕ) (secret : String) (found : Bool) : Ghost :=
  if found then { g with granted := (i,secret) :: g.granted } else g

def watch (g : Ghost) (s : Site) : Event Command Command.Answer PyError Move → Ghost
  | .env (.arrive r) => { g with labels := g.labels ++ [r] }
  | .own i .tokenHex (.ok secret) => { g with owner := Function.update g.owner secret (some i) }
  | .own i (.setKey secret _) _ => { g with stored := (secret,s.now,i) :: g.stored }
  | .own _ (.deleteKey secret) (.ok _) => { g with deleted := secret :: g.deleted }
  | .own i (.existsKey secret) (.ok found) => g.answer i secret found
  | _ => g

variable (settings : Settings)

/-- The request is a login with the right credentials. -/
def Rightful (r : Request) : Prop :=
  r.route = .login (some settings.adminUsername) (some settings.adminPassword)

def Stored (secret : String) (s : Site × Ghost) : Prop := ∃ time i, (secret,time,i) ∈ s.2.stored

structure Inv (s : Site × Ghost) : Prop where
  known : ∀ secret i, s.2.owner secret = some i → secret ∈ s.1.issued
  stored : ∀ secret time i, (secret,time,i) ∈ s.2.stored →
    s.2.owner secret = some i ∧ time ≤ s.1.now ∧ ∃ r, s.2.labels[i]? = some r ∧ Rightful settings r
  redis : ∀ secret deadline, s.1.redis secret = some deadline →
    ∃ time i, (secret,time,i) ∈ s.2.stored ∧ deadline = time + settings.adminTokenExpirationSeconds
  signed : ∀ secret ∈ s.1.signed, Stored secret s
  deleted : ∀ secret ∈ s.2.deleted, s.1.redis secret = none ∧ Stored secret s

/-- What a task knows of its own token, and of what has been stored, it goes on knowing. -/
structure Kept (i : ℕ) (s t : Site × Ghost) : Prop where
  labels : ∀ (j : ℕ) r, s.2.labels[j]? = some r → t.2.labels[j]? = some r
  owner : ∀ secret, s.2.owner secret = some i → t.2.owner secret = some i
  stored : ∀ e ∈ s.2.stored, e ∈ t.2.stored
  own : ∀ secret, s.2.owner secret = some i → Stored secret t → Stored secret s
  granted : ∀ e ∈ s.2.granted, e ∈ t.2.granted

theorem Kept.refl (i : ℕ) (s : Site × Ghost) : Kept i s s :=
  ⟨fun _ _ h => h,fun _ h => h,fun _ h => h,fun _ _ h => h,fun _ h => h⟩

theorem Kept.trans {i : ℕ} {s t u : Site × Ghost} (h : Kept i s t) (h' : Kept i t u) : Kept i s u where
  labels := fun j r hr => h'.labels j r (h.labels j r hr)
  owner := fun secret ho => h'.owner secret (h.owner secret ho)
  stored := fun e he => h'.stored e (h.stored e he)
  own := fun secret ho hs => h.own secret ho (h'.own secret (h.owner secret ho) hs)
  granted := fun e he => h'.granted e (h.granted e he)

def discipline : Discipline (Site × Ghost) where
  inv := Inv settings
  rely := Kept
  guar := fun i s t => ∀ j, j ≠ i → Kept j s t
  rely_refl := Kept.refl
  rely_trans := fun _ _ _ _ h h' => h.trans h'

theorem discipline_shared : (discipline settings).Shared := fun hij h => h _ (Ne.symm hij)

abbrev sized (g : Ghost) (n : ℕ) : Prop := g.labels.length = n

variable {settings} {i : ℕ} {secret : String} {s t : Site × Ghost}

theorem Stored.mono (h : Stored secret s) (hst : Kept i s t) : Stored secret t := by
  obtain ⟨time,j,hmem⟩ := h
  exact ⟨time,j,hst.stored _ hmem⟩

/-- The session holds a token that has been stored. -/
def Holds (l : Option String) (s : Site × Ghost) : Prop := ∀ secret ∈ l, Stored secret s

theorem Holds.mono {l : Option String} (h : Holds l s) (hst : Kept i s t) : Holds l t :=
  fun secret hl => (h secret hl).mono hst

/-- The request has asked for the token of its cookie, and Redis had it. -/
def Granted (i : ℕ) (r : Request) (s : Site × Ghost) : Prop :=
  ∃ token, r.cookie = some token ∧ (i,token) ∈ s.2.granted

theorem Granted.mono {r : Request} (h : Granted i r s) (hst : Kept i s t) : Granted i r t := by
  obtain ⟨token,hcookie,hmem⟩ := h
  exact ⟨token,hcookie,hst.granted _ hmem⟩

/-- The task has made the token and has not stored it yet. -/
structure Fresh (i : ℕ) (secret : String) (s : Site × Ghost) : Prop where
  owner : s.2.owner secret = some i
  unstored : ¬Stored secret s

theorem Fresh.mono (h : Fresh i secret s) (hst : Kept i s t) : Fresh i secret t :=
  ⟨hst.owner secret h.owner,fun hs => h.unstored (hst.own secret h.owner hs)⟩

end Watching

section Steps
variable {settings : Settings} {i : ℕ} {secret : String} {s : Site} {g : Ghost} {l : Option String}

abbrev Keeps (settings : Settings) (i : ℕ) (s t : Site × Ghost) : Prop :=
  (discipline settings).inv t ∧ (discipline settings).guar i s t

theorem keeps_refl {s : Site × Ghost} (h : Inv settings s) : Keeps settings i s s :=
  ⟨h,fun j _ => Kept.refl j s⟩

theorem keeps_tokenHex (h : Inv settings (s,g)) (new : secret ∉ s.issued) :
    Keeps settings i (s,g)
      ({ s with issued := secret :: s.issued },{ g with owner := Function.update g.owner secret (some i) }) ∧
    Fresh i secret
      ({ s with issued := secret :: s.issued },{ g with owner := Function.update g.owner secret (some i) }) := by
  have hsame : ∀ {x j}, g.owner x = some j → Function.update g.owner secret (some i) x = some j := by
    intro x j hx
    have hne : x ≠ secret := by
      rintro rfl
      exact new (h.known x j hx)
    rw [Function.update_of_ne hne, hx]
  refine ⟨⟨⟨fun x j hx => ?_,fun x time j hx => ?_,h.redis,h.signed,h.deleted⟩,fun j hj =>
    ⟨fun _ _ hr => hr,fun x hx => hsame hx,fun _ he => he,fun _ _ hx => hx,fun _ hk => hk⟩⟩,
    Function.update_self ..,?_⟩
  · by_cases hx' : x = secret
    · rw [hx']
      exact List.mem_cons_self
    · have hx'' : Function.update g.owner secret (some i) x = some j := hx
      rw [Function.update_of_ne hx'] at hx''
      exact List.mem_cons_of_mem _ (h.known x j hx'')
  · obtain ⟨howner,hrest⟩ := h.stored x time j hx
    exact ⟨hsame howner,hrest⟩
  · rintro ⟨time,j,hmem⟩
    exact new (h.known secret j (h.stored secret time j hmem).1)

/-- The key is set, unless Redis has failed, and the attempt is on record. -/
theorem keeps_setKey {r : Request} {s' : Site} (h : Inv settings (s,g)) (hs : Fresh i secret (s,g))
    (hlabel : g.labels[i]? = some r) (hr : Rightful settings r) (hnow : s'.now = s.now)
    (hissued : s'.issued = s.issued) (hsigned : s'.signed = s.signed)
    (hredis : s'.redis = s.redis ∨ s'.redis =
      Function.update s.redis secret (some (s.now + settings.adminTokenExpirationSeconds))) :
    Keeps settings i (s,g) (s',{ g with stored := (secret,s.now,i) :: g.stored }) ∧
      Stored secret (s',{ g with stored := (secret,s.now,i) :: g.stored }) := by
  have hmono : ∀ {x}, Stored x (s,g) → Stored x (s',{ g with stored := (secret,s.now,i) :: g.stored }) := by
    rintro x ⟨time,j,hmem⟩
    exact ⟨time,j,List.mem_cons_of_mem _ hmem⟩
  have hread : ∀ {x}, x ≠ secret → s'.redis x = s.redis x := by
    intro x hx
    rcases hredis with he | he
    · rw [he]
    · rw [he, Function.update_of_ne hx]
  refine ⟨⟨⟨fun x j hx => ?_,fun x time j hx => ?_,fun x d hx => ?_,fun x hx => ?_,fun x hx => ?_⟩,fun j hj =>
    ⟨fun _ _ hr => hr,fun _ hx => hx,fun _ he => List.mem_cons_of_mem _ he,fun x howner hx => ?_,
      fun _ hk => hk⟩⟩,s.now,i,List.mem_cons_self⟩
  · change x ∈ s'.issued
    rw [hissued]
    exact h.known x j hx
  · change g.owner x = some j ∧ time ≤ s'.now ∧ _
    rw [hnow]
    rcases List.mem_cons.mp hx with he | hold
    · cases he
      exact ⟨hs.owner,Nat.le_refl _,r,hlabel,hr⟩
    · exact h.stored x time j hold
  · have hold : s.redis x = some d → ∃ time j, (x,time,j) ∈ (secret,s.now,i) :: g.stored ∧
        d = time + settings.adminTokenExpirationSeconds := by
      intro hd
      obtain ⟨time,j,hmem,he⟩ := h.redis x d hd
      exact ⟨time,j,List.mem_cons_of_mem _ hmem,he⟩
    have hx' : s'.redis x = some d := hx
    rcases hredis with he | he
    · rw [he] at hx'
      exact hold hx'
    · rw [he] at hx'
      by_cases hsecret : x = secret
      · subst hsecret
        rw [Function.update_self] at hx'
        exact ⟨s.now,i,List.mem_cons_self,(Option.some.inj hx').symm⟩
      · rw [Function.update_of_ne hsecret] at hx'
        exact hold hx'
  · have hx' : x ∈ s'.signed := hx
    rw [hsigned] at hx'
    exact hmono (h.signed x hx')
  · obtain ⟨hnone,hstored⟩ := h.deleted x hx
    have hne : x ≠ secret := by
      rintro rfl
      exact hs.unstored hstored
    exact ⟨(hread hne).trans hnone,hmono hstored⟩
  · obtain ⟨time,k,hmem⟩ := hx
    rcases List.mem_cons.mp hmem with he | hold
    · cases he
      exact absurd (Option.some.inj (hs.owner.symm.trans howner)).symm hj
    · exact ⟨time,k,hold⟩

/-- The key is gone. -/
theorem Inv.forget (h : Inv settings (s,g)) (secret : String) :
    Inv settings ({ s with redis := Function.update s.redis secret none },g) := by
  have hread : ∀ {x d}, Function.update s.redis secret none x = some d → s.redis x = some d := by
    intro x d hx
    have hne : x ≠ secret := by
      rintro rfl
      rw [Function.update_self] at hx
      cases hx
    rwa [Function.update_of_ne hne] at hx
  refine ⟨h.known,h.stored,fun x d hx => h.redis x d (hread hx),h.signed,fun x hx => ⟨?_,(h.deleted x hx).2⟩⟩
  cases hx' : Function.update s.redis secret none x with
  | none => exact hx'
  | some d =>
    cases (hread hx').symm.trans (h.deleted x hx).1

/-- A token that has been stored is deleted for good. -/
theorem keeps_deleteKey {g' : Ghost} (h : Inv settings (s,g)) (hs : Stored secret (s,g))
    (hg : g' = g ∨ g' = { g with deleted := secret :: g.deleted }) :
    Keeps settings i (s,g) ({ s with redis := Function.update s.redis secret none },g') := by
  have hforget := h.forget secret
  rcases hg with rfl | rfl
  · exact ⟨hforget,fun j _ =>
      ⟨fun _ _ hr => hr,fun _ hx => hx,fun _ he => he,fun _ _ hx => hx,fun _ hk => hk⟩⟩
  · refine ⟨⟨h.known,h.stored,hforget.redis,h.signed,fun x hx => ?_⟩,fun j _ =>
      ⟨fun _ _ hr => hr,fun _ hx => hx,fun _ he => he,fun _ _ hx => hx,fun _ hk => hk⟩⟩
    rcases List.mem_cons.mp hx with rfl | hold
    · exact ⟨Function.update_self ..,hs⟩
    · exact hforget.deleted x hold

theorem keeps_answer (secret : String) (found : Bool) (h : Inv settings (s,g)) :
    Keeps settings i (s,g) (s,g.answer i secret found) ∧ (g.answer i secret found).stored = g.stored ∧
      (found = true → (i,secret) ∈ (g.answer i secret found).granted) := by
  cases found with
  | false => exact ⟨keeps_refl h,rfl,fun hf => (by cases hf)⟩
  | true =>
    exact ⟨⟨⟨h.known,h.stored,h.redis,h.signed,h.deleted⟩,fun j _ =>
      ⟨fun _ _ hr => hr,fun _ hx => hx,fun _ he => he,fun _ _ hx => hx,fun _ hk => List.mem_cons_of_mem _ hk⟩⟩,
      rfl,fun _ => List.mem_cons_self⟩

theorem keeps_sendCookie (h : Inv settings (s,g)) (hl : Holds l (s,g)) :
    Keeps settings i (s,g) ({ s with signed := l.toList ++ s.signed },g) := by
  refine ⟨⟨h.known,h.stored,h.redis,fun x hx => ?_,h.deleted⟩,fun j _ =>
    ⟨fun _ _ hr => hr,fun _ hx => hx,fun _ he => he,fun _ _ hx => hx,fun _ hk => hk⟩⟩
  rcases List.mem_append.mp hx with hnew | hold
  · exact hl x (Option.mem_toList.mp hnew)
  · exact h.signed x hold

end Steps

section Handlers
variable {settings : Settings} {i : ℕ} {r : Request} {s : Site × Ghost} {l : Option String}

/-- A command of the task with number `i`. -/
abbrev Does (settings : Settings) (i : ℕ) : Site × Ghost → Option String → (c : Command) →
    Except PyError c.Answer → Site × Ghost → Option String → Prop :=
  (panel settings).recorded watch i

/-- What a handler ends with: a session that may be signed, and a page only if Redis has the token. -/
structure Answered (i : ℕ) (r : Request) (a : Except PyError Bool) (t : Site × Ghost)
    (l : Option String) : Prop where
  holds : ∀ b, a = .ok b → Holds l t
  granted : r.route = .page → a = .ok true → Granted i r t

theorem compareCredentials_iff {candidate expected : String} :
    compareCredentials candidate expected = true ↔ candidate = expected := by
  rw [compareCredentials, beq_iff_eq, ← ByteArray.ext_iff]
  exact String.toByteArray_inj

theorem setKey_meets {secret : String} (hpage : r.route ≠ .page) (hs : Fresh i secret s)
    (hlabel : s.2.labels[i]? = some r) (hr : Rightful settings r) :
    Meets (discipline settings) i (Does settings i) (Answered i r)
      ((issue (.setKey secret settings.adminTokenExpirationSeconds)).bind fun _ => .ret true) s
      (some secret) := by
  apply Meets.call
  rintro ⟨t,g⟩ hst hi a ⟨t',g'⟩ l' ⟨he,hg⟩
  have hfresh := hs.mono hst
  have ht : g.labels[i]? = some r := hst.labels i r hlabel
  have hset : g' = { g with stored := (secret,t.now,i) :: g.stored } := by
    refine Eq.trans hg ?_
    cases a <;> rfl
  have hboth : ∀ {u : Site}, Keeps settings i (t,g) (u,g') ∧ Stored secret (u,g') →
      Keeps settings i (t,g) (u,g') ∧ Meets (discipline settings) i (Does settings i) (Answered i r)
        (match a with
          | .ok _ => .ret true
          | .error e => .raise e) (u,g') (some secret) := by
    rintro u ⟨hkeeps,hstored⟩
    refine ⟨hkeeps,?_⟩
    cases a with
    | ok _ =>
      refine Meets.ret fun w hw _ => ⟨fun _ _ x hx => ?_,fun h => absurd h hpage⟩
      cases hx
      exact hstored.mono hw
    | error e => exact Meets.raise fun w hw _ => ⟨fun _ h => (by cases h),fun h => absurd h hpage⟩
  subst hset
  cases he with
  | setKey secret ex a =>
    have hkeeps := hboth
      (u := { t with redis := Function.update t.redis secret (some (t.now + settings.adminTokenExpirationSeconds)) })
      (keeps_setKey hi hfresh ht hr rfl rfl rfl (.inr rfl))
    cases a <;> exact hkeeps
  | unset secret ex e => exact hboth (keeps_setKey hi hfresh ht hr rfl rfl rfl (.inl rfl))

theorem login_meets (username password : Option String) (hr : r.route = .login username password)
    (hlabel : s.2.labels[i]? = some r) (hl : Holds l s) :
    Meets (discipline settings) i (Does settings i) (Answered i r) (login settings username password) s l := by
  have hpage : r.route ≠ .page := fun h => by rw [hr] at h; cases h
  have hrefuse : Meets (discipline settings) i (Does settings i) (Answered i r)
      (.ret false : Handler Bool) s l := Meets.ret fun t ht _ => ⟨fun _ _ => hl.mono ht,fun h => absurd h hpage⟩
  cases username with
  | none => exact hrefuse
  | some username =>
    cases password with
    | none => exact hrefuse
    | some password =>
      rw [login]
      by_cases hok : (compareCredentials username settings.adminUsername &&
          compareCredentials password settings.adminPassword) = true
      · rw [if_pos hok]
        obtain ⟨husername,hpassword⟩ := Bool.and_eq_true_iff.mp hok
        have hright : Rightful settings r := by
          rw [Rightful, hr, compareCredentials_iff.mp husername, compareCredentials_iff.mp hpassword]
        apply Meets.call
        rintro ⟨t,g⟩ hst hi a ⟨t',g'⟩ l' ⟨he,hg⟩
        have ht : g.labels[i]? = some r := hst.labels i r hlabel
        cases he with
        | tokenHex new =>
          cases hg
          obtain ⟨hkeeps,hfresh⟩ := keeps_tokenHex (i := i) hi new
          refine ⟨hkeeps,?_⟩
          apply Meets.call
          rintro ⟨u,g⟩ htu hi a ⟨u',g'⟩ l' ⟨he,hg⟩
          have hu : g.labels[i]? = some r := htu.labels i r ht
          cases he
          cases hg
          exact ⟨keeps_refl hi,setKey_meets hpage (hfresh.mono htu) hu hright⟩
      · rw [if_neg hok]
        exact hrefuse

/-- The session is read, and what follows depends on whether it holds a token. -/
theorem getToken_meets {x : Option String → Handler Bool} (hl : Holds l s)
    (hx : ∀ t, Holds l t → Meets (discipline settings) i (Does settings i) (Answered i r) (x l) t l) :
    Meets (discipline settings) i (Does settings i) (Answered i r) ((issue .getToken).bind x) s l := by
  apply Meets.call
  rintro ⟨t,g⟩ hst hi a ⟨t',g'⟩ l' ⟨he,hg⟩
  cases he
  cases hg
  exact ⟨keeps_refl hi,hx _ (hl.mono hst)⟩

theorem truthy_eq {l : Option String} {secret : String} (h : truthy l = some secret) : secret ∈ l := by
  cases l with
  | none => cases h
  | some token =>
    rw [truthy] at h
    split at h
    · exact h
    · cases h

theorem deleteToken_meets {secret : String} (hs : Stored secret s) :
    Meets (discipline settings) i (Does settings i) (fun _ _ l' => l' = l) (deleteToken secret) s l := by
  have hcaught : ∀ (e : PyError) (u : Site × Ghost), Meets (discipline settings) i (Does settings i)
      (fun _ _ l' => l' = l) (if isException e then (.ret () : Handler Unit) else .raise e) u l := by
    intro e u
    split
    · exact Meets.ret fun _ _ _ => rfl
    · exact Meets.raise fun _ _ _ => rfl
  apply Meets.call
  rintro ⟨t,g⟩ hst hi a ⟨t',g'⟩ l' ⟨he,hg⟩
  have ht := hs.mono hst
  cases he with
  | deleteKey secret a =>
    cases a with
    | ok _ => exact ⟨keeps_deleteKey hi ht (.inr hg),Meets.ret fun _ _ _ => rfl⟩
    | error e => exact ⟨keeps_deleteKey hi ht (.inl hg),hcaught e _⟩
  | undeleted secret e =>
    cases hg
    exact ⟨keeps_refl hi,hcaught e _⟩

theorem logout_meets (hpage : r.route ≠ .page) (hl : Holds l s) :
    Meets (discipline settings) i (Does settings i) (Answered i r) logout s l := by
  refine getToken_meets hl fun t ht => ?_
  have hclear : ∀ {u : Site × Ghost} {l : Option String}, Meets (discipline settings) i (Does settings i)
      (Answered i r) ((issue .clearSession).bind fun _ => .ret true) u l := by
    intro u l
    apply Meets.call
    rintro ⟨v,g⟩ _ hi a ⟨v',g'⟩ l' ⟨he,hg⟩
    cases he
    cases hg
    exact ⟨keeps_refl hi,Meets.ret fun w _ _ => ⟨fun _ _ x hx => (by cases hx),fun h => absurd h hpage⟩⟩
  cases hsecret : truthy l with
  | none => exact hclear
  | some secret =>
    exact (deleteToken_meets (ht secret (truthy_eq hsecret))).bind (fun _ u l _ _ => hclear)
      fun e u l _ _ => ⟨fun _ h => (by cases h),fun h => absurd h hpage⟩

theorem authenticate_meets (hcookie : Holds r.cookie s) :
    Meets (discipline settings) i (Does settings i) (Answered i r) authenticate s r.cookie := by
  refine getToken_meets hcookie fun t ht => ?_
  cases hsecret : truthy r.cookie with
  | none => exact Meets.ret fun u hu _ => ⟨fun _ _ => ht.mono hu,fun _ h => (by cases h)⟩
  | some secret =>
    apply Meets.call
    rintro ⟨u,g⟩ htu hi a ⟨u',g'⟩ l' ⟨he,hg⟩
    cases he with
    | existsKey secret =>
      cases hg
      obtain ⟨hkeeps,hstored,hgranted⟩ := keeps_answer (i := i) secret (u.exists? secret) hi
      have hu : Holds r.cookie (u,g.answer i secret (u.exists? secret)) := by
        intro x hx
        obtain ⟨time,j,hmem⟩ := (ht.mono htu) x hx
        exact ⟨time,j,hstored ▸ hmem⟩
      refine ⟨hkeeps,Meets.ret fun v hv _ => ⟨fun _ _ => hu.mono hv,fun _ h => ?_⟩⟩
      have hasked : Granted i r (u,g.answer i secret (u.exists? secret)) :=
        ⟨secret,truthy_eq hsecret,hgranted (Except.ok.inj h)⟩
      exact hasked.mono hv
    | unanswered secret e =>
      cases hg
      exact ⟨keeps_refl hi,Meets.raise fun v _ _ => ⟨fun _ h => (by cases h),fun _ h => (by cases h)⟩⟩

theorem serve_meets (hlabel : s.2.labels[i]? = some r) (hcookie : Holds r.cookie s) :
    Meets (discipline settings) i (Does settings i) (fun a t _ => r.route = .page → a = .ok true →
      Granted i r t) (serve settings r) s l := by
  apply Meets.call
  rintro ⟨t,g⟩ hst hi a ⟨t',g'⟩ l' ⟨he,hg⟩
  have ht := hcookie.mono hst
  have htlabel : g.labels[i]? = some r := hst.labels i r hlabel
  cases he
  cases hg
  refine ⟨keeps_refl hi,?_⟩
  have hroute : Meets (discipline settings) i (Does settings i) (Answered i r)
      (dispatch settings r.route) (t,g) r.cookie := by
    cases hr : r.route with
    | login username password => exact login_meets username password hr htlabel ht
    | logout => exact logout_meets (fun h => by rw [hr] at h; cases h) ht
    | page => exact authenticate_meets ht
  apply hroute.bind
  · intro answer u l _ hu
    apply Meets.call
    rintro ⟨v,g⟩ huv hi a ⟨v',g'⟩ l' ⟨he,hg⟩
    cases he
    cases hg
    refine ⟨keeps_sendCookie hi ((hu.holds answer rfl).mono huv),Meets.ret fun w hw _ hpage h => ?_⟩
    obtain ⟨token,hcookie,hmem⟩ := (hu.granted hpage h).mono huv
    exact ⟨token,hcookie,hw.granted _ hmem⟩
  · intro e u l _ _ _ h
    cases h

end Handlers

section Runs
variable {settings : Settings} {c : Config Command Command.Answer PyError Site (Option String) Request Bool}
  {tr pre post : List (Site × Event Command Command.Answer PyError Move)}

theorem Moves.keeps {mv : Move} {s s' : Site} {labels : List Request} {g : Ghost} (hm : Moves mv s s' labels)
    (hi : Inv settings (s,g)) :
    Inv settings (s',watch g s (.env mv)) ∧ ∀ i, Kept i (s,g) (s',watch g s (.env mv)) := by
  cases hm with
  | tick =>
    refine ⟨⟨hi.known,fun x time j hx => ?_,hi.redis,hi.signed,hi.deleted⟩,fun i =>
      ⟨fun _ _ hr => hr,fun _ hx => hx,fun _ he => he,fun _ _ hx => hx,fun _ hk => hk⟩⟩
    obtain ⟨howner,hle,hr⟩ := hi.stored x time j hx
    exact ⟨howner,Nat.le_succ_of_le hle,hr⟩
  | evict secret =>
    exact ⟨hi.forget secret,fun i =>
      ⟨fun _ _ hr => hr,fun _ hx => hx,fun _ he => he,fun _ _ hx => hx,fun _ hk => hk⟩⟩
  | @arrive _ r hcookie =>
    refine ⟨⟨hi.known,fun x time j hx => ?_,hi.redis,hi.signed,hi.deleted⟩,fun i =>
      ⟨fun j r' hr => ?_,fun _ hx => hx,fun _ he => he,fun _ _ hx => hx,fun _ hk => hk⟩⟩
    · obtain ⟨howner,hle,r',hr,hright⟩ := hi.stored x time j hx
      exact ⟨howner,hle,r',(List.getElem?_append_left (List.getElem?_eq_some_iff.mp hr).1).trans hr,hright⟩
    · exact (List.getElem?_append_left (List.getElem?_eq_some_iff.mp hr).1).trans hr

theorem admits : (panel settings).Admits watch (discipline settings) sized
    (fun i r a t _ => r.route = .page → a = .ok true → Granted i r t) where
  shared := discipline_shared settings
  own := by
    intro g n s i c a h
    rw [sized] at h ⊢
    rw [← h]
    cases c <;> cases a <;> try rfl
    change (g.answer i _ _).labels.length = _
    unfold Ghost.answer
    split <;> rfl
  move := Moves.keeps
  grows := by
    intro mv s s' labels g n hm h
    cases hm with
    | tick => exact h
    | evict secret => exact h
    | arrive hcookie => exact List.length_append.trans (congrArg (· + 1) h)
  starts := by
    intro mv s s' labels r g n j hm hsize hi hi' hj
    cases hm with
    | tick => cases hj
    | evict secret => cases hj
    | arrive hcookie =>
      obtain ⟨rfl,rfl⟩ : j = 0 ∧ r = _ := by
        cases j with
        | zero => exact ⟨rfl,(Option.some.inj hj).symm⟩
        | succ j => cases hj
      refine serve_meets ?_ fun secret hsecret => hi'.signed secret (hcookie secret hsecret)
      rw [← hsize]
      exact List.getElem?_concat_length

theorem run_sound (h : (panel settings).Run ((panel settings).initial .start []) tr c) :
    (panel settings).Sound watch (discipline settings) sized
      (fun i r a t _ => r.route = .page → a = .ok true → Granted i r t) c
      (Machine.observe watch .start tr) := by
  refine h.sound admits (Machine.sound_initial ⟨fun _ _ h => (by cases h),fun _ _ _ h => (by cases h),
    fun _ _ h => (by cases h),fun _ h => (by cases h),fun _ h => (by cases h)⟩ rfl fun i r hi => (by cases hi))

theorem labels_threads (h : (panel settings).Run ((panel settings).initial .start []) tr c) :
    (Machine.observe watch .start tr).labels = c.threads.map Thread.label := by
  induction h with
  | refl => rfl
  | @step d d' tr e _ hstep ih =>
    rw [Machine.observe_append]
    cases hstep with
    | @own i label l l' cmd next a s' hi he =>
      have hlabels : (watch (Machine.observe watch .start tr) d.state
          (.own i cmd a : Event Command Command.Answer PyError Move)).labels =
            (Machine.observe watch .start tr).labels := by
        cases cmd <;> cases a <;> try rfl
        change (Ghost.answer _ i _ _).labels = _
        unfold Ghost.answer
        split <;> rfl
      rw [hlabels, ih]
      apply List.ext_getElem?
      intro j
      rw [List.getElem?_map, List.getElem?_map, List.getElem?_set]
      split
      · rename_i hij
        subst hij
        rw [hi, if_pos (List.getElem?_eq_some_iff.mp hi).1]
        rfl
      · rfl
    | env hm =>
      cases hm with
      | tick => exact ih.trans (List.append_nil _ ▸ rfl)
      | evict secret => exact ih.trans (List.append_nil _ ▸ rfl)
      | arrive hcookie =>
        change (Machine.observe watch .start tr).labels ++ [_] = (d.threads ++ [_]).map Thread.label
        rw [ih, List.map_append]
        rfl

/-- What has been stored was stored by a command of that task. -/
theorem stored_event {x : String} {time i : ℕ}
    (h : (x,time,i) ∈ (Machine.observe watch .start tr).stored) :
    ∃ s ex a, (s,Event.own i (.setKey x ex) a) ∈ tr ∧ s.now = time := by
  obtain ⟨pre,s,e,post,rfl,hbefore,hafter⟩ := Machine.observe_cause (p := fun g : Ghost => (x,time,i) ∈ g.stored) h
    List.not_mem_nil
  have hmem : (s,e) ∈ pre ++ (s,e) :: post := List.mem_append_right _ List.mem_cons_self
  cases e with
  | env mv => cases mv <;> exact absurd hafter hbefore
  | own k c a =>
    cases c with
    | setKey y ex =>
      have hafter' : (x,time,i) ∈ (y,s.now,k) :: (Machine.observe watch .start pre).stored := by
        cases a <;> exact hafter
      rcases List.mem_cons.mp hafter' with he | hold
      · cases he
        exact ⟨s,ex,a,hmem,rfl⟩
      · exact absurd hold hbefore
    | existsKey y =>
      cases a with
      | error e => exact absurd hafter hbefore
      | ok found => cases found <;> exact absurd hafter hbefore
    | _ => cases a <;> exact absurd hafter hbefore

theorem granted_event {i : ℕ} {x : String}
    (h : (i,x) ∈ (Machine.observe watch .start tr).granted) :
    ∃ pre s post, tr = pre ++ (s,Event.own i (.existsKey x) (.ok true)) :: post := by
  obtain ⟨pre,s,e,post,rfl,hbefore,hafter⟩ :=
    Machine.observe_cause (p := fun g : Ghost => (i,x) ∈ g.granted) h List.not_mem_nil
  cases e with
  | env mv => cases mv <;> exact absurd hafter hbefore
  | own k c a =>
    cases c with
    | existsKey y =>
      cases a with
      | error e => exact absurd hafter hbefore
      | ok found =>
        cases found with
        | false => exact absurd hafter hbefore
        | true =>
          rcases List.mem_cons.mp hafter with he | hold
          · cases he
            exact ⟨pre,s,post,rfl⟩
          · exact absurd hold hbefore
    | _ => cases a <;> exact absurd hafter hbefore

theorem deleted_of_mem {s : Site} {x : String} {i : ℕ}
    (h : (s,Event.own i (.deleteKey x) (.ok ())) ∈ tr) {g : Ghost} :
    x ∈ (Machine.observe watch g tr).deleted := by
  obtain ⟨pre,post,rfl⟩ := List.append_of_mem h
  rw [Machine.observe, List.foldl_append, List.foldl_cons]
  refine Machine.observe_keeps (p := fun g : Ghost => x ∈ g.deleted) (fun g s e hx => ?_) post List.mem_cons_self
  cases e with
  | env mv => cases mv <;> exact hx
  | own k c a =>
    cases c with
    | deleteKey y =>
      cases a with
      | ok _ => exact List.mem_cons_of_mem _ hx
      | error e => exact hx
    | existsKey y =>
      cases a with
      | error e => exact hx
      | ok found => cases found <;> exact hx
    | _ => cases a <;> exact hx

theorem exec_existsKey {s s' : Site} {l l' : Option String} {x : String} {a : Except PyError Bool}
    (h : Exec s l (.existsKey x) a s' l') : a = .ok (s.exists? x) ∨ ∃ e, a = .error e := by
  cases h with
  | existsKey secret => exact .inl rfl
  | unanswered secret e => exact .inr ⟨e,rfl⟩

/-- A page is served only when Redis has the token of the cookie, and then a login with the
right credentials has stored that token, not longer ago than a token lasts, and no logout has
deleted it since. -/
theorem admin_access {i : ℕ} {th : Thread Command Command.Answer PyError (Option String) Request Bool}
    (h : (panel settings).Run ((panel settings).initial .start []) tr c) (hi : c.threads[i]? = some th)
    (hpage : th.label.route = .page) (hend : th.prog.outcome? = some (.ok true)) :
    ∃ pre s token post, th.label.cookie = some token ∧
      tr = pre ++ (s,Event.own i (.existsKey token) (.ok true)) :: post ∧
      (∃ s₁ j th₁ ex a, (s₁,Event.own j (.setKey token ex) a) ∈ pre ∧ c.threads[j]? = some th₁ ∧
        Rightful settings th₁.label ∧ s₁.now ≤ s.now ∧
        s.now < s₁.now + settings.adminTokenExpirationSeconds) ∧
      ∀ s₂ k, (s₂,Event.own k (.deleteKey token) (.ok ())) ∉ pre := by
  obtain ⟨token,hcookie,hgranted⟩ := (run_sound h).outcome hi hend hpage rfl
  obtain ⟨pre,s,post,rfl⟩ := granted_event hgranted
  obtain ⟨b,b',hpre,rfl,hstep,hrest⟩ := h.at_event
  have hinv := (run_sound hpre).inv
  obtain ⟨deadline,hredis,hlive⟩ : ∃ d, b.state.redis token = some d ∧ b.state.now < d := by
    cases hstep with
    | own hj he =>
      rcases exec_existsKey he with ha | ⟨e,ha⟩
      · obtain ⟨d,hd,hlt⟩ := (Option.any_eq_true _ _).mp (Except.ok.inj ha).symm
        exact ⟨d,hd,of_decide_eq_true hlt⟩
      · cases ha
  obtain ⟨time,j,hstored,rfl⟩ := hinv.redis token deadline hredis
  obtain ⟨_,hle,r,hr,hright⟩ := hinv.stored token time j hstored
  obtain ⟨s₁,ex,a,hset,rfl⟩ := stored_event hstored
  refine ⟨pre,b.state,token,post,hcookie,rfl,?_,fun s₂ k hdelete => ?_⟩
  · rw [labels_threads hpre, List.getElem?_map] at hr
    obtain ⟨th,hth,rfl⟩ := Option.map_eq_some_iff.mp hr
    obtain ⟨th₁,hth₁,hlabel⟩ := ((Machine.Run.step .refl hstep).trans hrest).label hth
    exact ⟨s₁,j,th₁,ex,a,hset,hth₁,hlabel ▸ hright,hle,hlive⟩
  · cases (hinv.deleted token (deleted_of_mem hdelete)).1.symm.trans hredis

end Runs

section Visiting

def defaults : Settings := ⟨"admin","admin",3600⟩

def entrance : Request := ⟨none,.login (some "admin") (some "admin")⟩
def visit : Request := ⟨some "t",.page⟩

/-- The login is answered. -/
theorem entered : ∃ tr, (panel defaults).Run ((panel defaults).initial .start []) tr
    ⟨⟨Function.update (fun _ => none) "t" (some 3600),0,["t"],["t"]⟩,[⟨entrance,some "t",.ret true⟩]⟩ := by
  have h := Machine.Run.step (m := panel defaults) (c := (panel defaults).initial .start []) .refl
    (.env (m := panel defaults) (Moves.arrive (r := entrance) fun _ h => (by cases h)))
  have h := h.step (.own (i := 0) (l := none) rfl (Exec.loadSession none))
  have h := h.step (.own (i := 0) (l := none) rfl (Exec.tokenHex (List.not_mem_nil (a := "t"))))
  have h := h.step (.own (i := 0) (l := none) rfl (Exec.updateToken "t"))
  have h := h.step (.own (i := 0) (l := some "t") rfl (Exec.setKey "t" 3600 (.ok ())))
  have h := h.step (.own (i := 0) (l := some "t") rfl Exec.sendCookie)
  exact ⟨_,h⟩

/-- The cookie of the login opens a page. -/
theorem visited : ∃ tr s, (panel defaults).Run ((panel defaults).initial .start []) tr
    ⟨s,[⟨entrance,some "t",.ret true⟩,⟨visit,some "t",.ret true⟩]⟩ := by
  obtain ⟨tr,h⟩ := entered
  have h := h.step (.env (m := panel defaults) (Moves.arrive (r := visit) fun secret hs => by
    cases hs
    exact List.mem_cons_self))
  have h := h.step (.own (i := 1) (l := none) rfl (Exec.loadSession (some "t")))
  have h := h.step (.own (i := 1) (l := some "t") rfl Exec.getToken)
  have h := h.step (.own (i := 1) (l := some "t") rfl (Exec.existsKey "t"))
  have h := h.step (.own (i := 1) (l := some "t") rfl Exec.sendCookie)
  exact ⟨_,_,h⟩

theorem admin_access_visited : ∃ tr s, (panel defaults).Run ((panel defaults).initial .start []) tr
    ⟨s,[⟨entrance,some "t",.ret true⟩,⟨visit,some "t",.ret true⟩]⟩ ∧
    ∃ s₁ j ex a, (s₁,Event.own j (.setKey "t" ex) a) ∈ tr := by
  obtain ⟨tr,s,h⟩ := visited
  obtain ⟨pre,_,token,post,hcookie,rfl,⟨s₁,j,_,ex,a,hset,_⟩,_⟩ := admin_access (i := 1) h rfl rfl rfl
  cases hcookie
  exact ⟨_,s,h,s₁,j,ex,a,List.mem_append_left _ hset⟩

end Visiting
end SafeDecoder.AdminAuth
