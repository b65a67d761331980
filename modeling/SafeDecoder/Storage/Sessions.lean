import Mathlib.Data.List.Forall2
import Mathlib.Data.List.Nodup
import Mathlib.Logic.Function.Basic
import SafeDecoder.Data.PythonValue
import SafeDecoder.Library.Interleaving

/-! # The sessions of the database

Every request, task, event and command runs in `with_db_session_context`: a context
variable holds an identifier, and `db_session` finds the session in a registry under
that identifier. The scopes nest, and the tasks of the event loop take turns at every
`await`. A task has its own copy of the context variable, taken when the task was
created, so the endpoint that a middleware calls in a task of its own finds the session
of the middleware, for as long as it runs.
-/
namespace SafeDecoder.Sessions

section Model
variable {ρ : Type}

/-- Any code that uses `db_session`, opens scopes, creates tasks and awaits them. -/
inductive Code (ρ : Type)
  | done
  | fail (e : PyError)
  | execute (next : Except PyError ρ → Code ρ)
  | wait (next : Except PyError Unit → Code ρ)
  | scope (body : Code ρ) (next : Except PyError Unit → Code ρ)
  | createTask (task next : Code ρ)

/-- The registry of `async_scoped_session`, what has become of its sessions, and the tasks
that have not begun, with their contexts. -/
structure Pool (ρ : Type) where
  registry : String → Option ℕ
  created : ℕ
  closed : List ℕ
  issued : List String
  scheduled : List (Option String × Code ρ)

def Pool.fresh : Pool ρ := ⟨fun _ => none,0,[],[],[]⟩

inductive Command (ρ : Type)
  | uuid4
  | setVar (sessionId : String)
  | getVar
  | resetVar (token : Option String)
  | inherit (context : Option String)
  | has (sessionId : String)
  | lookup (sessionId : String)
  | close (n : ℕ)
  | clear (sessionId : String)
  | execute (n : ℕ)
  | wait
  | createTask (task : Code ρ)

/-- `set` answers with the token that `reset` takes. -/
def Command.Answer : Command ρ → Type
  | uuid4 | getVar => String
  | setVar _ => Option String
  | has _ => Bool
  | lookup _ => ℕ
  | execute _ => ρ
  | resetVar _ | inherit _ | close _ | clear _ | wait | createTask _ => Unit

abbrev Task (ρ α : Type) := Proc (Command ρ) Command.Answer PyError α

def issue (c : Command ρ) : Task ρ c.Answer := Proc.perform c

/-- `session_id or str(uuid.uuid4())` -/
def identifier : Option String → Task ρ String
  | some sessionId => if sessionId ≠ "" then return sessionId else issue .uuid4
  | none => issue .uuid4

/-- `self.registry()` -/
def session : Task ρ ℕ := do
  let id : String ← issue .getVar
  issue (.lookup id)

/-- `self.registry.clear()` -/
def clear : Task ρ Unit := do
  let id : String ← issue .getVar
  issue (.clear id)

/-- `async_scoped_session.remove` -/
def remove : Task ρ Unit := do
  let id : String ← issue .getVar
  let has : Bool ← issue (.has id)
  if has then do
    let n ← session
    issue (.close n)
    clear
  else clear

/-- Both context managers: the session is removed before the variable is reset. -/
def withDbSessionContext (sessionId : Option String) (body : Task ρ Unit) : Task ρ Unit := do
  let id : String ← identifier sessionId
  let token : Option String ← issue (.setVar id)
  Proc.ensuring
    (Proc.ensuring body (do
      let _ : String ← issue .getVar
      remove))
    (issue (.resetVar token))

/-- A method of `db_session` is called on the session of the context. -/
def execute : Task ρ ρ := do
  let n ← session
  issue (.execute n)

def Code.run : Code ρ → Task ρ Unit
  | done => return ()
  | fail e => throw e
  | execute next => Proc.andThen Sessions.execute fun r => (next r).run
  | wait next => Proc.andThen (issue .wait) fun r => (next r).run
  | scope body next => Proc.andThen (withDbSessionContext none body.run) fun r => (next r).run
  | createTask task next => do
    issue (.createTask task)
    next.run

/-- `call_next` of a middleware runs the application in a task and awaits its response. -/
def callNext (app : Code ρ) : Code ρ :=
  .createTask app (.wait fun r =>
    match r with
    | .ok _ => .done
    | .error e => .fail e)

def startUpId : String := "InitializeDataDecoderServiceOnStartup"

/-- What runs as a task: the start of the service, a request, an event, a message or a command in a
scope of its own, and a task that another one has created. -/
inductive Entry (ρ : Type)
  | startUp (body : Code ρ)
  | work (body : Code ρ)
  | task (context : Option String) (body : Code ρ)

/-- `http_request_middleware` -/
def httpRequestMiddleware (app : Code ρ) : Entry ρ := .work (callNext app)

def Entry.program : Entry ρ → Task ρ Unit
  | startUp body => withDbSessionContext (some startUpId) body.run
  | work body => withDbSessionContext none body.run
  | task context body => do
    issue (.inherit context)
    body.run

/-- The value of the variable that the task starts from. -/
def Entry.context : Entry ρ → Option String
  | startUp _ | work _ => none
  | task context _ => context

def lookupError : PyError := .other "LookupError"

def readVar : Option String → Except PyError String
  | some id => .ok id
  | none => .error lookupError

variable (ρ)

/-- What the commands do. Those that are awaited may fail, and the others never do, except for
reading the variable where it is not set. -/
inductive Exec : Pool ρ → Option String → (c : Command ρ) → Except PyError c.Answer → Pool ρ →
    Option String → Prop
  | uuid4 {s : Pool ρ} {l : Option String} {id : String} (new : id ∉ s.issued) (unnamed : id ≠ startUpId) :
      Exec s l .uuid4 (.ok id) { s with issued := id :: s.issued } l
  | setVar {s : Pool ρ} {l : Option String} (id : String) : Exec s l (.setVar id) (.ok l) s (some id)
  | getVar {s : Pool ρ} {l : Option String} : Exec s l .getVar (readVar l) s l
  | resetVar {s : Pool ρ} {l : Option String} (token : Option String) :
      Exec s l (.resetVar token) (.ok ()) s token
  | inherit {s : Pool ρ} {l : Option String} (context : Option String) :
      Exec s l (.inherit context) (.ok ()) s context
  | has {s : Pool ρ} {l : Option String} (id : String) :
      Exec s l (.has id) (.ok (s.registry id).isSome) s l
  | found {s : Pool ρ} {l : Option String} {id : String} {n : ℕ} (h : s.registry id = some n) :
      Exec s l (.lookup id) (.ok n) s l
  | created {s : Pool ρ} {l : Option String} {id : String} (h : s.registry id = none) :
      Exec s l (.lookup id) (.ok s.created)
        { s with registry := Function.update s.registry id (some s.created), created := s.created + 1 } l
  | close {s : Pool ρ} {l : Option String} (n : ℕ) :
      Exec s l (.close n) (.ok ()) { s with closed := n :: s.closed } l
  | unclosed {s : Pool ρ} {l : Option String} (n : ℕ) (e : PyError) : Exec s l (.close n) (.error e) s l
  | clear {s : Pool ρ} {l : Option String} (id : String) : Exec s l (.clear id) (.ok ())
      { s with registry := Function.update s.registry id none } l
  | execute {s : Pool ρ} {l : Option String} (n : ℕ) (r : Except PyError ρ) :
      Exec s l (.execute n) r s l
  | wait {s : Pool ρ} {l : Option String} (r : Except PyError Unit) : Exec s l .wait r s l
  | createTask {s : Pool ρ} {l : Option String} (task : Code ρ) : Exec s l (.createTask task) (.ok ())
      { s with scheduled := s.scheduled ++ [(l,task)] } l

inductive Move
  | arrive (body : Code ρ)
  | request (app : Code ρ)
  | begin

/-- Requests, events and the like arrive at any time, and tasks begin in the order of their creation. -/
inductive Moves : Move ρ → Pool ρ → Pool ρ → List (Entry ρ) → Prop
  | arrive {s : Pool ρ} (body : Code ρ) : Moves (.arrive body) s s [.work body]
  | request {s : Pool ρ} (app : Code ρ) : Moves (.request app) s s [httpRequestMiddleware app]
  | begin {s : Pool ρ} {context : Option String} {task : Code ρ} {rest : List (Option String × Code ρ)}
      (h : s.scheduled = (context,task) :: rest) :
      Moves .begin s { s with scheduled := rest } [.task context task]

def eventLoop : Machine (Command ρ) Command.Answer PyError (Pool ρ) (Option String) (Move ρ) (Entry ρ) Unit where
  exec := Exec ρ
  move := Moves ρ
  program := Entry.program
  session := none

end Model

section Watching
variable {ρ : Type}

/-- The families of the tasks and of those that have not begun: a task that is created belongs to
the family of the one that creates it. For each scope the task that has opened it, for each session
its scope, the sessions that have failed to close, the scopes that have begun to end, and the sessions
that another task has used after that. -/
structure Ghost where
  families : List ℕ
  scheduled : List ℕ
  ids : String → Option ℕ
  scopes : List String
  leaked : List ℕ
  ending : List String
  late : List ℕ
  mistaken : Prop

/-- The scope with a name belongs to the start of the service. -/
def Ghost.start : Ghost :=
  ⟨[0],[],fun id => if id = startUpId then some 0 else none,[],[],[],[],False⟩

/-- The task is of the family of the one that has opened the scope. -/
def Ghost.Kin (g : Ghost) (i : ℕ) (id : String) : Prop :=
  ∃ k f, g.ids id = some k ∧ g.families[k]? = some f ∧ g.families[i]? = some f

/-- The scope has begun to end, and the task is not the one that has opened it. -/
def Ghost.Outlives (g : Ghost) (i : ℕ) (id : String) : Prop := id ∈ g.ending ∧ g.ids id ≠ some i

instance (g : Ghost) (i : ℕ) (id : String) : Decidable (g.Outlives i id) :=
  inferInstanceAs (Decidable (_ ∧ _))

/-- A session that did not exist belongs to the scope that it is looked up in. -/
def Ghost.note (g : Ghost) (created : ℕ) (id : String) (n : ℕ) : Ghost :=
  if n = created then { g with scopes := g.scopes ++ [id] } else g

/-- A session of the scope is looked up or used. -/
def Ghost.touch (g : Ghost) (i : ℕ) (id : String) (n : ℕ) : Ghost :=
  { g with
    late := if g.Outlives i id then n :: g.late else g.late
    mistaken := g.mistaken ∨ ¬g.Kin i id }

/-- The task of the scope should not use a session after the scope has begun to end. -/
def Ghost.use (g : Ghost) (i n : ℕ) : Ghost :=
  match g.scopes[n]? with
  | some id => { g.touch i id n with mistaken := (g.touch i id n).mistaken ∨ id ∈ g.ending ∧ g.ids id = some i }
  | none => { g with mistaken := True }

def watch (g : Ghost) (s : Pool ρ) : Event (Command ρ) Command.Answer PyError (Move ρ) → Ghost
  | .own i .uuid4 (.ok id) => { g with ids := Function.update g.ids id (some i) }
  | .own _ .getVar (.error _) => { g with mistaken := True }
  | .own _ (.has id) (.ok _) => { g with ending := id :: g.ending }
  | .own i (.lookup id) (.ok n) => (g.note s.created id n).touch i id n
  | .own i (.execute n) _ => g.use i n
  | .own _ (.close n) (.error _) => { g with leaked := n :: g.leaked }
  | .own i (.createTask _) (.ok _) => { g with scheduled := g.scheduled ++ [g.families.getD i 0] }
  | .env (.arrive _) | .env (.request _) => { g with families := g.families ++ [g.families.length] }
  | .env .begin => { g with families := g.families ++ [g.scheduled.headD 0], scheduled := g.scheduled.tail }
  | _ => g

/-- The family of a scope that can be found in a context. -/
def Belongs (g : Ghost) (context : Option String) (f : ℕ) : Prop :=
  ∃ id k, context = some id ∧ g.ids id = some k ∧ g.families[k]? = some f

structure Inv (s : Pool ρ × Ghost) : Prop where
  size : s.1.created = s.2.scopes.length
  scheduled : List.Forall₂ (fun task f => Belongs s.2 task.1 f) s.1.scheduled s.2.scheduled
  known : ∀ id k, s.2.ids id = some k → (id ∈ s.1.issued ∨ id = startUpId) ∧ k < s.2.families.length
  owned : ∀ id n, s.1.registry id = some n → s.2.scopes[n]? = some id
  opened : ∀ id ∈ s.2.scopes ++ s.2.ending, ∃ k, s.2.ids id = some k
  ended : ∀ n ∈ s.1.closed, ∃ id ∈ s.2.ending, s.2.scopes[n]? = some id
  live : ∀ n id, s.2.scopes[n]? = some id →
    n ∈ s.1.closed ∨ n ∈ s.2.leaked ∨ n ∈ s.2.late ∨ s.1.registry id = some n
  mistaken : ¬s.2.mistaken

/-- Nobody else opens, ends or empties a scope of the task with number `i`, and what another task
creates in it after it has begun to end is late. -/
structure Kept (i : ℕ) (s t : Pool ρ × Ghost) : Prop where
  families : ∀ k f : ℕ, s.2.families[k]? = some f → t.2.families[k]? = some f
  ids : ∀ id k, s.2.ids id = some k → t.2.ids id = some k
  mine : ∀ id, t.2.ids id = some i → s.2.ids id = some i
  scopes : ∀ (n : ℕ) id, s.2.scopes[n]? = some id → t.2.scopes[n]? = some id
  registry : ∀ id, s.2.ids id = some i → t.1.registry id = s.1.registry id ∨
    s.1.registry id = none ∧ ∀ n, t.1.registry id = some n → id ∈ t.2.ending → n ∈ t.2.late
  ending : ∀ id, s.2.ids id = some i → (id ∈ t.2.ending ↔ id ∈ s.2.ending)
  closed : ∀ n ∈ s.1.closed, n ∈ t.1.closed
  leaked : ∀ n ∈ s.2.leaked, n ∈ t.2.leaked
  late : ∀ n ∈ s.2.late, n ∈ t.2.late

theorem Kept.refl (i : ℕ) (s : Pool ρ × Ghost) : Kept i s s :=
  ⟨fun _ _ => id,fun _ _ => id,fun _ => id,fun _ _ => id,fun _ _ => .inl rfl,fun _ _ => Iff.rfl,fun _ => id,
    fun _ => id,fun _ => id⟩

theorem Kept.trans {i : ℕ} {s t u : Pool ρ × Ghost} (h : Kept i s t) (h' : Kept i t u) : Kept i s u where
  families := fun k f hk => h'.families k f (h.families k f hk)
  ids := fun id k hk => h'.ids id k (h.ids id k hk)
  mine := fun id hid => h.mine id (h'.mine id hid)
  scopes := fun n id hn => h'.scopes n id (h.scopes n id hn)
  registry := by
    intro id hid
    have hid' := h.ids id i hid
    rcases h'.registry id hid' with hsame' | ⟨hnone',hlate'⟩
    · rcases h.registry id hid with hsame | ⟨hnone,hlate⟩
      · exact .inl (hsame'.trans hsame)
      · refine .inr ⟨hnone,fun n hn hending => h'.late n (hlate n (hsame' ▸ hn) ?_)⟩
        exact (h'.ending id hid').mp hending
    · rcases h.registry id hid with hsame | ⟨hnone,_⟩
      · exact .inr ⟨hsame ▸ hnone',hlate'⟩
      · exact .inr ⟨hnone,hlate'⟩
  ending := fun id hid => (h'.ending id (h.ids id i hid)).trans (h.ending id hid)
  closed := fun n hn => h'.closed n (h.closed n hn)
  leaked := fun n hn => h'.leaked n (h.leaked n hn)
  late := fun n hn => h'.late n (h.late n hn)

def discipline (ρ : Type) : Discipline (Pool ρ × Ghost) where
  inv := Inv
  rely := Kept
  guar := fun i s t => ∀ j, j ≠ i → Kept j s t
  rely_refl := Kept.refl
  rely_trans := fun _ _ _ _ h h' => h.trans h'

theorem discipline_shared : (discipline ρ).Shared := fun hij h => h _ (Ne.symm hij)

abbrev sized (g : Ghost) (n : ℕ) : Prop := g.families.length = n

/-- The task is inside these scopes and leaves at most one. What the registry has for its other
scopes has failed to close or is late. -/
structure Within (i : ℕ) (opens : List String) (leaving : Option String) (s : Pool ρ × Ghost) : Prop where
  started : i < s.2.families.length
  nodup : opens.Nodup
  mine : ∀ id ∈ opens, s.2.ids id = some i ∧ id ∉ s.2.ending
  left : ∀ id ∈ leaving, s.2.ids id = some i ∧ id ∈ s.2.ending
  all : ∀ id, s.2.ids id = some i → id ∈ opens ∨ id ∈ s.2.ending
  rest : ∀ id n, s.2.ids id = some i → s.1.registry id = some n →
    id ∈ opens ∨ id ∈ leaving ∨ n ∈ s.2.leaked ∨ n ∈ s.2.late

/-- The context of the task is a scope of its family: the innermost of its own, or another task's. -/
structure Holds (i : ℕ) (opens : List String) (id : String) (s : Pool ρ × Ghost) : Prop where
  kin : s.2.Kin i id
  place : opens.head? = some id ∨ ∃ k, k ≠ i ∧ s.2.ids id = some k

/-- The scope has no session that is neither closed nor lost. -/
def Emptied (id : String) (s : Pool ρ × Ghost) : Prop :=
  ∀ n, s.1.registry id = some n → n ∈ s.1.closed ∨ n ∈ s.2.leaked ∨ n ∈ s.2.late

variable {i : ℕ} {id : String} {opens : List String} {leaving : Option String} {s t : Pool ρ × Ghost}

theorem Kin.kept (h : s.2.Kin i id) {j : ℕ} (hst : Kept j s t) : t.2.Kin i id := by
  obtain ⟨k,f,hid,hk,hi⟩ := h
  exact ⟨k,f,hst.ids id k hid,hst.families k f hk,hst.families i f hi⟩

theorem length_le {j : ℕ} (hst : Kept j s t) (hi : i < s.2.families.length) : i < t.2.families.length :=
  (List.getElem?_eq_some_iff.mp (hst.families i _ (List.getElem?_eq_getElem hi))).1

theorem Within.rely (h : Within i opens leaving s) (hst : Kept i s t) : Within i opens leaving t where
  started := length_le hst h.started
  nodup := h.nodup
  mine := by
    intro id hid
    obtain ⟨hmine,hending⟩ := h.mine id hid
    exact ⟨hst.ids id i hmine,fun he => hending ((hst.ending id hmine).mp he)⟩
  left := by
    intro id hid
    obtain ⟨hmine,hending⟩ := h.left id hid
    exact ⟨hst.ids id i hmine,(hst.ending id hmine).mpr hending⟩
  all := fun id hid =>
    (h.all id (hst.mine id hid)).imp_right (hst.ending id (hst.mine id hid)).mpr
  rest := by
    intro id n hid hn
    have hmine := hst.mine id hid
    rcases hst.registry id hmine with hsame | ⟨_,hlate⟩
    · exact (h.rest id n hmine (hsame ▸ hn)).imp_right fun hrest =>
        hrest.imp_right fun hlost => hlost.imp (hst.leaked n) (hst.late n)
    · rcases h.all id hmine with hopen | hending
      · exact .inl hopen
      · exact .inr (.inr (.inr (hlate n hn ((hst.ending id hmine).mpr hending))))

theorem Holds.kept (h : Holds i opens id s) {j : ℕ} (hst : Kept j s t) : Holds i opens id t :=
  ⟨Kin.kept h.kin hst,h.place.imp_right fun ⟨k,hne,hk⟩ => ⟨k,hne,hst.ids id k hk⟩⟩

theorem Holds.isOpen (h : Holds i opens id s) (hid : s.2.ids id = some i) : id ∈ opens := by
  rcases h.place with hhead | ⟨k,hne,hk⟩
  · exact List.mem_of_mem_head? hhead
  · exact absurd (Option.some.inj (hk.symm.trans hid)) hne

theorem Emptied.rely (h : Emptied id s) (hs : Within i opens (some id) s) (hst : Kept i s t) :
    Emptied id t := by
  obtain ⟨hmine,hending⟩ := hs.left id rfl
  intro n hn
  rcases hst.registry id hmine with hsame | ⟨_,hlate⟩
  · exact (h n (hsame ▸ hn)).imp (hst.closed n) fun hlost => hlost.imp (hst.leaked n) (hst.late n)
  · exact .inr (.inr (hlate n hn ((hst.ending id hmine).mpr hending)))

/-- What is in the registry of a scope of the task stays there. -/
theorem Kept.found {n : ℕ} (hst : Kept i s t) (hid : s.2.ids id = some i) (hn : s.1.registry id = some n) :
    t.1.registry id = some n := by
  rcases hst.registry id hid with hsame | ⟨hnone,_⟩
  · rw [hsame, hn]
  · rw [hn] at hnone
    cases hnone

theorem Within.holds (h : Within i (id :: opens) leaving s) : Holds i (id :: opens) id s := by
  obtain ⟨f,hf⟩ : ∃ f, s.2.families[i]? = some f := ⟨_,List.getElem?_eq_getElem h.started⟩
  exact ⟨⟨i,f,(h.mine id List.mem_cons_self).1,hf,hf⟩,.inl rfl⟩

end Watching

section Steps
variable {ρ : Type} {i : ℕ} {key : String} {opens : List String} {leaving : Option String} {s : Pool ρ}
  {g : Ghost} {n : ℕ}

abbrev Keeps (i : ℕ) (s t : Pool ρ × Ghost) : Prop :=
  (discipline ρ).inv t ∧ (discipline ρ).guar i s t

theorem keeps_refl {s : Pool ρ × Ghost} (h : Inv s) : Keeps i s s := ⟨h,fun j _ => Kept.refl j s⟩

theorem Belongs.mono {g g' : Ghost} {context : Option String} {f : ℕ} (h : Belongs g context f)
    (hids : ∀ id k, g.ids id = some k → g'.ids id = some k)
    (hfamilies : ∀ k f : ℕ, g.families[k]? = some f → g'.families[k]? = some f) : Belongs g' context f := by
  obtain ⟨id,k,hcontext,hid,hk⟩ := h
  exact ⟨id,k,hcontext,hids id k hid,hfamilies k f hk⟩

/-- A new identifier belongs to nobody yet. -/
theorem Inv.unknown (h : Inv (s,g)) (new : key ∉ s.issued) (unnamed : key ≠ startUpId) :
    g.ids key = none := by
  cases hid : g.ids key with
  | none => rfl
  | some k =>
    rcases (h.known key k hid).1 with hissued | hnamed
    · exact absurd hissued new
    · exact absurd hnamed unnamed

theorem Inv.not_opened (h : Inv (s,g)) (hid : g.ids key = none) :
    s.registry key = none ∧ key ∉ g.ending := by
  refine ⟨?_,fun hending => ?_⟩
  · cases hn : s.registry key with
    | none => rfl
    | some n =>
      obtain ⟨k,hk⟩ := h.opened key (List.mem_append_left _ (List.mem_of_getElem? (h.owned key n hn)))
      cases hid.symm.trans hk
  · obtain ⟨k,hk⟩ := h.opened key (List.mem_append_right _ hending)
    cases hid.symm.trans hk

theorem keeps_uuid4 (h : Inv (s,g)) (hs : Within i opens none (s,g)) (new : key ∉ s.issued)
    (unnamed : key ≠ startUpId) :
    Keeps i (s,g) ({ s with issued := key :: s.issued },{ g with ids := Function.update g.ids key (some i) }) ∧
      Within i (key :: opens) none
        ({ s with issued := key :: s.issued },{ g with ids := Function.update g.ids key (some i) }) := by
  have hunknown := h.unknown new unnamed
  obtain ⟨hregistry,hending⟩ := h.not_opened hunknown
  have hold : ∀ {id k}, g.ids id = some k → Function.update g.ids key (some i) id = some k := by
    intro id k hk
    have hne : id ≠ key := by
      rintro rfl
      cases hunknown.symm.trans hk
    rw [Function.update_of_ne hne, hk]
  have hcase : ∀ {id k}, Function.update g.ids key (some i) id = some k →
      id = key ∧ k = i ∨ g.ids id = some k := by
    intro id k hk
    by_cases hid : id = key
    · subst hid
      rw [Function.update_self] at hk
      exact .inl ⟨rfl,(Option.some.inj hk).symm⟩
    · rw [Function.update_of_ne hid] at hk
      exact .inr hk
  refine ⟨⟨⟨h.size,h.scheduled.imp fun task f hb => hb.mono (fun _ _ => hold) fun _ _ hk => hk,fun id k hk => ?_,
    h.owned,fun id hmem => ?_,h.ended,h.live,h.mistaken⟩,fun j hj => ⟨fun _ _ hk => hk,fun _ _ => hold,
      fun id hid => ?_,fun _ _ hn => hn,fun _ _ => .inl rfl,fun _ _ => Iff.rfl,fun _ hn => hn,fun _ hn => hn,
      fun _ hn => hn⟩⟩,hs.started,?_,?_,fun _ hid => (by cases hid),fun id hid => ?_,fun id n hid hn => ?_⟩
  · rcases hcase hk with ⟨rfl,rfl⟩ | hk
    · exact ⟨.inl List.mem_cons_self,hs.started⟩
    · obtain ⟨hknown,hlt⟩ := h.known id k hk
      exact ⟨hknown.imp_left (List.mem_cons_of_mem _),hlt⟩
  · obtain ⟨k,hk⟩ := h.opened id hmem
    exact ⟨k,hold hk⟩
  · rcases hcase hid with ⟨_,rfl⟩ | hid
    · exact absurd rfl hj
    · exact hid
  · refine List.nodup_cons.mpr ⟨fun hmem => ?_,hs.nodup⟩
    cases hunknown.symm.trans (hs.mine key hmem).1
  · refine List.forall_mem_cons.mpr ⟨⟨Function.update_self ..,hending⟩,fun id hid => ?_⟩
    exact ⟨hold (hs.mine id hid).1,(hs.mine id hid).2⟩
  · rcases hcase hid with ⟨rfl,_⟩ | hid
    · exact .inl List.mem_cons_self
    · exact (hs.all id hid).imp_left (List.mem_cons_of_mem _)
  · rcases hcase hid with ⟨rfl,_⟩ | hid
    · exact .inl List.mem_cons_self
    · exact (hs.rest id n hid hn).imp_left (List.mem_cons_of_mem _)

/-- The scope begins to end. -/
theorem keeps_has (h : Inv (s,g)) (hs : Within i (key :: opens) none (s,g)) :
    Keeps i (s,g) (s,{ g with ending := key :: g.ending }) ∧
      Within i opens (some key) (s,{ g with ending := key :: g.ending }) := by
  have hkey := (hs.mine key List.mem_cons_self).1
  obtain ⟨hfresh,hnodup⟩ := List.nodup_cons.mp hs.nodup
  refine ⟨⟨⟨h.size,h.scheduled,h.known,h.owned,fun id hmem => ?_,fun n hn => ?_,h.live,h.mistaken⟩,fun j hj =>
    ⟨fun _ _ hk => hk,fun _ _ hk => hk,fun _ hid => hid,fun _ _ hn => hn,fun _ _ => .inl rfl,fun id hid => ?_,
      fun _ hn => hn,fun _ hn => hn,fun _ hn => hn⟩⟩,hs.started,hnodup,fun id hid => ?_,fun id hid => ?_,
    fun id hid => ?_,fun id n hid hn => ?_⟩
  · rcases List.mem_append.mp hmem with hscope | hending
    · exact h.opened id (List.mem_append_left _ hscope)
    · rcases List.mem_cons.mp hending with rfl | hending
      · exact ⟨i,hkey⟩
      · exact h.opened id (List.mem_append_right _ hending)
  · obtain ⟨id,hending,hscope⟩ := h.ended n hn
    exact ⟨id,List.mem_cons_of_mem _ hending,hscope⟩
  · have hne : id ≠ key := by
      rintro rfl
      exact hj (Option.some.inj (hid.symm.trans hkey))
    exact List.mem_cons.trans (or_iff_right hne)
  · obtain ⟨hmine,hending⟩ := hs.mine id (List.mem_cons_of_mem _ hid)
    refine ⟨hmine,fun hmem => ?_⟩
    rcases List.mem_cons.mp hmem with rfl | hmem
    · exact hfresh hid
    · exact hending hmem
  · cases hid
    exact ⟨hkey,List.mem_cons_self⟩
  · rcases hs.all id hid with hopen | hending
    · rcases List.mem_cons.mp hopen with rfl | hopen
      · exact .inr List.mem_cons_self
      · exact .inl hopen
    · exact .inr (List.mem_cons_of_mem _ hending)
  · rcases hs.rest id n hid hn with hopen | hleaving | hlost
    · rcases List.mem_cons.mp hopen with rfl | hopen
      · exact .inr (.inl rfl)
      · exact .inl hopen
    · cases hleaving
    · exact .inr (.inr hlost)

/-- More sessions are late, and nothing else is new. -/
theorem Inv.later (h : Inv (s,g)) {late : List ℕ} {mistaken : Prop} (hlate : ∀ n ∈ g.late, n ∈ late)
    (hright : ¬mistaken) :
    Keeps i (s,g) (s,{ g with late := late, mistaken := mistaken }) ∧
      ∀ opens leaving, Within i opens leaving (s,g) →
        Within i opens leaving (s,{ g with late := late, mistaken := mistaken }) := by
  refine ⟨⟨⟨h.size,h.scheduled,h.known,h.owned,h.opened,h.ended,fun n id hn => ?_,hright⟩,fun j hj =>
    ⟨fun _ _ hk => hk,fun _ _ hk => hk,fun _ hid => hid,fun _ _ hn => hn,fun _ _ => .inl rfl,fun _ _ => Iff.rfl,
      fun _ hn => hn,fun _ hn => hn,hlate⟩⟩,fun opens leaving hs =>
    ⟨hs.started,hs.nodup,hs.mine,hs.left,hs.all,fun id n hid hn => ?_⟩⟩
  · exact (h.live n id hn).imp_right fun hlive => hlive.imp_right fun hlive => hlive.imp_left (hlate n)
  · exact (hs.rest id n hid hn).imp_right fun hrest => hrest.imp_right fun hlost => hlost.imp_right (hlate n)

theorem touch_late {m : ℕ} (hm : m ∈ g.late) : m ∈ (g.touch i key n).late := by
  change m ∈ if g.Outlives i key then n :: g.late else g.late
  split
  · exact List.mem_cons_of_mem _ hm
  · exact hm

theorem touch_right (h : Inv (s,g)) (kin : g.Kin i key) : ¬(g.touch i key n).mistaken :=
  fun hm => hm.elim h.mistaken fun hnot => hnot kin

theorem keeps_found (h : Inv (s,g)) (hs : Within i opens leaving (s,g)) (kin : g.Kin i key)
    (hn : s.registry key = some n) :
    Keeps i (s,g) (s,(g.note s.created key n).touch i key n) ∧
      Within i opens leaving (s,(g.note s.created key n).touch i key n) := by
  have hlt : n < s.created := by
    rw [h.size]
    exact (List.getElem?_eq_some_iff.mp (h.owned key n hn)).1
  have hnote : g.note s.created key n = g := if_neg (Nat.ne_of_lt hlt)
  rw [hnote]
  have hlate : ∀ m ∈ g.late, m ∈ (g.touch i key n).late := fun m hm => touch_late hm
  have hright : ¬(g.touch i key n).mistaken := touch_right h kin
  obtain ⟨hkeeps,hwithin⟩ := h.later (i := i) hlate hright
  exact ⟨hkeeps,hwithin opens leaving hs⟩

theorem keeps_created (h : Inv (s,g)) (hs : Within i opens leaving (s,g)) (hkey : Holds i opens key (s,g))
    (hnone : s.registry key = none) :
    Keeps i (s,g)
      ({ s with registry := Function.update s.registry key (some s.created), created := s.created + 1 },
        (g.note s.created key s.created).touch i key s.created) ∧
    Within i opens leaving
      ({ s with registry := Function.update s.registry key (some s.created), created := s.created + 1 },
        (g.note s.created key s.created).touch i key s.created) := by
  have hnote : g.note s.created key s.created = { g with scopes := g.scopes ++ [key] } := if_pos rfl
  have hsize : s.created = g.scopes.length := h.size
  have hlast : (g.scopes ++ [key])[s.created]? = some key := by
    rw [hsize]
    exact List.getElem?_concat_length
  have hbefore : ∀ {n id}, g.scopes[n]? = some id → (g.scopes ++ [key])[n]? = some id := fun hn =>
    (List.getElem?_append_left (List.getElem?_eq_some_iff.mp hn).1).trans hn
  have hread : ∀ {id n}, Function.update s.registry key (some s.created) id = some n →
      id = key ∧ n = s.created ∨ id ≠ key ∧ s.registry id = some n := by
    intro id n hn
    by_cases he : id = key
    · subst he
      rw [Function.update_self] at hn
      exact .inl ⟨rfl,(Option.some.inj hn).symm⟩
    · rw [Function.update_of_ne he] at hn
      exact .inr ⟨he,hn⟩
  have hlate : ∀ m ∈ g.late, m ∈ ({ g with scopes := g.scopes ++ [key] }.touch i key s.created).late :=
    fun m hm => touch_late hm
  rw [hnote]
  refine ⟨⟨⟨?_,h.scheduled,h.known,fun id n hn => ?_,fun id hmem => ?_,fun n hn => ?_,fun n id hn => ?_,?_⟩,
    fun j hj => ⟨fun _ _ hk => hk,fun _ _ hk => hk,fun _ hid => hid,fun _ _ hn => hbefore hn,fun id hid => ?_,
      fun _ _ => Iff.rfl,fun _ hn => hn,fun _ hn => hn,hlate⟩⟩,hs.started,hs.nodup,hs.mine,hs.left,hs.all,
    fun id n hid hn => ?_⟩
  · change s.created + 1 = (g.scopes ++ [key]).length
    rw [List.length_append, hsize]
    rfl
  · rcases hread hn with ⟨rfl,rfl⟩ | ⟨_,hold⟩
    · exact hlast
    · exact hbefore (h.owned id n hold)
  · change id ∈ (g.scopes ++ [key]) ++ g.ending at hmem
    rcases List.mem_append.mp hmem with hscope | hending
    · rcases List.mem_append.mp hscope with hold | hnew
      · exact h.opened id (List.mem_append_left _ hold)
      · obtain ⟨k,_,hk,_⟩ := hkey.kin
        rw [List.mem_singleton.mp hnew]
        exact ⟨k,hk⟩
    · exact h.opened id (List.mem_append_right _ hending)
  · obtain ⟨id,hending,hscope⟩ := h.ended n hn
    exact ⟨id,hending,hbefore hscope⟩
  · change (g.scopes ++ [key])[n]? = some id at hn
    rw [List.getElem?_append] at hn
    split at hn
    · rcases h.live n id hn with hclosed | hleaked | hlate' | hregistry
      · exact .inl hclosed
      · exact .inr (.inl hleaked)
      · exact .inr (.inr (.inl (hlate n hlate')))
      · have hne : id ≠ key := by
          rintro rfl
          cases hnone.symm.trans hregistry
        exact .inr (.inr (.inr ((Function.update_of_ne hne ..).trans hregistry)))
    · rename_i hge
      have hid := List.mem_singleton.mp (List.mem_of_getElem? hn)
      have hlt := (List.getElem?_eq_some_iff.mp hn).1
      have hn' : n = s.created := by
        rw [List.length_singleton] at hlt
        omega
      rw [hid, hn']
      exact .inr (.inr (.inr (Function.update_self ..)))
  · exact fun hm => hm.elim h.mistaken fun hnot => hnot hkey.kin
  · by_cases he : id = key
    · subst he
      refine .inr ⟨hnone,fun n hn hending => ?_⟩
      have hcreated : n = s.created := by
        rcases hread hn with ⟨_,hn⟩ | ⟨hne,_⟩
        · exact hn
        · exact absurd rfl hne
      have houtlives : { g with scopes := g.scopes ++ [id] }.Outlives i id :=
        ⟨hending,fun hi => hj (Option.some.inj (hid.symm.trans hi))⟩
      change n ∈ if _ then _ else _
      rw [if_pos houtlives, hcreated]
      exact List.mem_cons_self
    · exact .inl (Function.update_of_ne he ..)
  · rcases hread hn with ⟨rfl,_⟩ | ⟨_,hold⟩
    · exact .inl (hkey.isOpen hid)
    · exact (hs.rest id n hid hold).imp_right fun hrest => hrest.imp_right fun hlost =>
        hlost.imp_right (hlate n)

/-- The session of the scope that is left is closed. -/
theorem keeps_close (h : Inv (s,g)) (hs : Within i opens (some key) (s,g)) (hn : s.registry key = some n) :
    Keeps i (s,g) ({ s with closed := n :: s.closed },g) ∧
      Within i opens (some key) ({ s with closed := n :: s.closed },g) ∧
      Emptied key ({ s with closed := n :: s.closed },g) := by
  refine ⟨⟨⟨h.size,h.scheduled,h.known,h.owned,h.opened,fun m hm => ?_,fun m id hm => ?_,h.mistaken⟩,fun j hj =>
    ⟨fun _ _ hk => hk,fun _ _ hk => hk,fun _ hid => hid,fun _ _ hn => hn,fun _ _ => .inl rfl,fun _ _ => Iff.rfl,
      fun _ hm => List.mem_cons_of_mem _ hm,fun _ hn => hn,fun _ hn => hn⟩⟩,
    ⟨hs.started,hs.nodup,hs.mine,hs.left,hs.all,hs.rest⟩,fun m hm => ?_⟩
  · rcases List.mem_cons.mp hm with rfl | hold
    · exact ⟨key,(hs.left key rfl).2,h.owned key m hn⟩
    · exact h.ended m hold
  · exact (h.live m id hm).imp_left (List.mem_cons_of_mem _)
  · cases hn.symm.trans hm
    exact .inl List.mem_cons_self

/-- The session of the scope cannot be closed, and stays in the registry. -/
theorem keeps_leak (h : Inv (s,g)) (hs : Within i opens (some key) (s,g)) (hn : s.registry key = some n) :
    Keeps i (s,g) (s,{ g with leaked := n :: g.leaked }) ∧
      Within i opens none (s,{ g with leaked := n :: g.leaked }) := by
  refine ⟨⟨⟨h.size,h.scheduled,h.known,h.owned,h.opened,h.ended,fun m id hm => ?_,h.mistaken⟩,fun j hj =>
    ⟨fun _ _ hk => hk,fun _ _ hk => hk,fun _ hid => hid,fun _ _ hn => hn,fun _ _ => .inl rfl,fun _ _ => Iff.rfl,
      fun _ hn => hn,fun _ hm => List.mem_cons_of_mem _ hm,fun _ hn => hn⟩⟩,
    hs.started,hs.nodup,hs.mine,fun _ hid => (by cases hid),hs.all,fun id m hid hm => ?_⟩
  · exact (h.live m id hm).imp_right fun hl => hl.imp_left (List.mem_cons_of_mem _)
  · rcases hs.rest id m hid hm with hopen | hleaving | hlost
    · exact .inl hopen
    · cases hleaving
      cases hn.symm.trans hm
      exact .inr (.inr (.inl List.mem_cons_self))
    · exact .inr (.inr (hlost.imp_left (List.mem_cons_of_mem _)))

theorem keeps_clear (h : Inv (s,g)) (hs : Within i opens (some key) (s,g)) (hempty : Emptied key (s,g)) :
    Keeps i (s,g) ({ s with registry := Function.update s.registry key none },g) ∧
      Within i opens none ({ s with registry := Function.update s.registry key none },g) := by
  obtain ⟨hkey,_⟩ := hs.left key rfl
  have hread : ∀ {id n}, Function.update s.registry key none id = some n →
      id ≠ key ∧ s.registry id = some n := by
    intro id n hn
    have hne : id ≠ key := by
      rintro rfl
      rw [Function.update_self] at hn
      cases hn
    rw [Function.update_of_ne hne] at hn
    exact ⟨hne,hn⟩
  refine ⟨⟨⟨h.size,h.scheduled,h.known,fun id n hn => h.owned id n (hread hn).2,h.opened,h.ended,
    fun n id hn => ?_,h.mistaken⟩,fun j hj => ⟨fun _ _ hk => hk,fun _ _ hk => hk,fun _ hid => hid,fun _ _ hn => hn,
      fun id hid => ?_,fun _ _ => Iff.rfl,fun _ hn => hn,fun _ hn => hn,fun _ hn => hn⟩⟩,
    hs.started,hs.nodup,hs.mine,fun _ hid => (by cases hid),hs.all,fun id n hid hn => ?_⟩
  · rcases h.live n id hn with hclosed | hleaked | hlate | hregistry
    · exact .inl hclosed
    · exact .inr (.inl hleaked)
    · exact .inr (.inr (.inl hlate))
    · by_cases hne : id = key
      · subst hne
        exact (hempty n hregistry).imp_right fun hlost => hlost.imp_right .inl
      · exact .inr (.inr (.inr ((Function.update_of_ne hne ..).trans hregistry)))
  · have hne : id ≠ key := by
      rintro rfl
      exact hj (Option.some.inj (hid.symm.trans hkey))
    exact .inl (Function.update_of_ne hne ..)
  · obtain ⟨hne,hold⟩ := hread hn
    rcases hs.rest id n hid hold with hopen | hleaving | hlost
    · exact .inl hopen
    · exact absurd (Option.some.inj hleaving).symm hne
    · exact .inr (.inr hlost)

theorem keeps_use (h : Inv (s,g)) (hs : Within i opens none (s,g)) (hkey : Holds i opens key (s,g))
    (hn : g.scopes[n]? = some key) :
    Keeps i (s,g) (s,g.use i n) ∧ Within i opens none (s,g.use i n) := by
  have hright : ¬((g.touch i key n).mistaken ∨ key ∈ g.ending ∧ g.ids key = some i) := by
    rintro (hm | ⟨hending,hi⟩)
    · exact touch_right h hkey.kin hm
    · exact (hs.mine key (hkey.isOpen hi)).2 hending
  have huse : g.use i n = { g with
      late := (g.touch i key n).late
      mistaken := (g.touch i key n).mistaken ∨ key ∈ g.ending ∧ g.ids key = some i } := by
    rw [Ghost.use, hn]
    rfl
  rw [huse]
  obtain ⟨hkeeps,hwithin⟩ := h.later (i := i) (fun m hm => touch_late hm) hright
  exact ⟨hkeeps,hwithin opens none hs⟩

theorem keeps_createTask (h : Inv (s,g)) (hs : Within i opens none (s,g)) (kin : g.Kin i key) (task : Code ρ) :
    Keeps i (s,g) ({ s with scheduled := s.scheduled ++ [(some key,task)] },
      { g with scheduled := g.scheduled ++ [g.families.getD i 0] }) ∧
    Within i opens none ({ s with scheduled := s.scheduled ++ [(some key,task)] },
      { g with scheduled := g.scheduled ++ [g.families.getD i 0] }) := by
  obtain ⟨k,f,hid,hk,hi⟩ := kin
  have hfamily : g.families.getD i 0 = f := by rw [List.getD_eq_getElem?_getD, hi]; rfl
  have hbelongs : Belongs g (some key) (g.families.getD i 0) := ⟨key,k,rfl,hid,hfamily ▸ hk⟩
  refine ⟨⟨⟨h.size,?_,h.known,h.owned,h.opened,h.ended,h.live,h.mistaken⟩,fun j _ =>
    ⟨fun _ _ hk => hk,fun _ _ hk => hk,fun _ hid => hid,fun _ _ hn => hn,fun _ _ => .inl rfl,fun _ _ => Iff.rfl,
      fun _ hn => hn,fun _ hn => hn,fun _ hn => hn⟩⟩,hs.started,hs.nodup,hs.mine,hs.left,hs.all,hs.rest⟩
  exact List.rel_append h.scheduled (.cons hbelongs .nil)

end Steps

section Programs
variable {ρ : Type} {i n : ℕ} {key : String} {opens : List String} {s : Pool ρ × Ghost} {l : Option String}
  {α : Type} {Q : Except PyError α → Pool ρ × Ghost → Option String → Prop}

/-- A command of the task with number `i`. -/
abbrev Does (ρ : Type) (i : ℕ) : Pool ρ × Ghost → Option String → (c : Command ρ) →
    Except PyError c.Answer → Pool ρ × Ghost → Option String → Prop :=
  (eventLoop ρ).recorded watch i

/-- The task is in these scopes, and the variable has this value. -/
def In (i : ℕ) (opens : List String) (value : Option String) {α : Type} (_ : Except PyError α)
    (t : Pool ρ × Ghost) (l : Option String) : Prop := Within i opens none t ∧ l = value

theorem getVar_meets {x : String → Task ρ α} {I : Pool ρ × Ghost → Prop}
    (hI : ∀ {s t}, I s → Kept i s t → I t) (hs : I s)
    (hx : ∀ t, I t → Meets (discipline ρ) i (Does ρ i) Q (x key) t (some key)) :
    Meets (discipline ρ) i (Does ρ i) Q ((issue .getVar).bind x) s (some key) := by
  apply Meets.call
  rintro ⟨t,g⟩ hst hi r ⟨t',g'⟩ l' ⟨he,hg⟩
  cases he
  cases hg
  exact ⟨keeps_refl hi,hx _ (hI hs hst)⟩

theorem session_bind (x : ℕ → Task ρ α) :
    session.bind x = (issue .getVar).bind fun id : String => (issue (.lookup id)).bind x :=
  Proc.bind_assoc _ _ _

/-- A session of the context is looked up. -/
theorem session_meets {x : ℕ → Task ρ α} (hs : Within i opens none s) (hkey : Holds i opens key s)
    (hx : ∀ n t, Within i opens none t → Holds i opens key t → t.2.scopes[n]? = some key →
      Meets (discipline ρ) i (Does ρ i) Q (x n) t (some key)) :
    Meets (discipline ρ) i (Does ρ i) Q (session.bind x) s (some key) := by
  rw [session_bind]
  refine getVar_meets (I := fun s => Within i opens none s ∧ Holds i opens key s)
    (fun h hst => ⟨h.1.rely hst,h.2.kept hst⟩) ⟨hs,hkey⟩ fun t ht => ?_
  apply Meets.call
  rintro ⟨u,g⟩ htu hi r ⟨u',g'⟩ l' ⟨he,hg⟩
  have hu := ht.1.rely htu
  have hkey := ht.2.kept htu
  have hlater : ∀ {t : Pool ρ × Ghost}, (discipline ρ).guar i (u,g) t → Holds i opens key t :=
    fun hguar => hkey.kept (hguar (i + 1) (Nat.succ_ne_self i))
  cases he with
  | @found _ n hn =>
    cases hg
    obtain ⟨hkeeps,hwithin⟩ := keeps_found hi hu hkey.kin hn
    refine ⟨hkeeps,hx n _ hwithin (hlater hkeeps.2) ?_⟩
    exact (hkeeps.2 (i + 1) (Nat.succ_ne_self i)).scopes n key (hi.owned key n hn)
  | created hnone =>
    cases hg
    obtain ⟨hkeeps,hwithin⟩ := keeps_created hi hu hkey hnone
    exact ⟨hkeeps,hx _ _ hwithin (hlater hkeeps.2) (hkeeps.1.owned key _ (Function.update_self ..))⟩

theorem execute_meets (hs : Within i opens none s) (hkey : Holds i opens key s) :
    Meets (discipline ρ) i (Does ρ i) (In i opens (some key)) (execute : Task ρ ρ) s (some key) := by
  refine session_meets hs hkey fun n t ht hkey hn => ?_
  apply Meets.call
  rintro ⟨u,g⟩ htu hi r ⟨u',g'⟩ l' ⟨he,hg⟩
  cases he with
  | execute n r =>
    cases hg
    obtain ⟨hkeeps,hwithin⟩ := keeps_use hi (ht.rely htu) (hkey.kept htu) (htu.scopes n key hn)
    refine ⟨hkeeps,?_⟩
    cases r with
    | ok a => exact Meets.ret fun v hv _ => ⟨hwithin.rely hv,rfl⟩
    | error e => exact Meets.raise fun v hv _ => ⟨hwithin.rely hv,rfl⟩

theorem clear_meets (hs : Within i opens (some key) s) (hempty : Emptied key s) :
    Meets (discipline ρ) i (Does ρ i) (fun _ t _ => Within i opens none t) (clear : Task ρ Unit) s
      (some key) := by
  refine getVar_meets (I := fun s => Within i opens (some key) s ∧ Emptied key s)
    (fun h hst => ⟨h.1.rely hst,h.2.rely h.1 hst⟩) ⟨hs,hempty⟩ fun t ht => ?_
  apply Meets.call
  rintro ⟨u,g⟩ htu hi r ⟨u',g'⟩ l' ⟨he,hg⟩
  cases he
  cases hg
  obtain ⟨hkeeps,hwithin⟩ := keeps_clear hi (ht.1.rely htu) (ht.2.rely ht.1 htu)
  exact ⟨hkeeps,Meets.ret fun v hv _ => hwithin.rely hv⟩

/-- The session of the scope that is left is looked up and closed. -/
theorem close_meets (hs : Within i opens (some key) s) (hn : s.1.registry key = some n) :
    Meets (discipline ρ) i (Does ρ i) (fun _ t _ => Within i opens none t)
      (session.bind fun n => (issue (.close n)).bind fun _ : Unit => (clear : Task ρ Unit)) s (some key) := by
  have hstable : ∀ {s t : Pool ρ × Ghost}, Within i opens (some key) s ∧ s.1.registry key = some n →
      Kept i s t → Within i opens (some key) t ∧ t.1.registry key = some n :=
    fun h hst => ⟨h.1.rely hst,hst.found (h.1.left key rfl).1 h.2⟩
  rw [session_bind]
  refine getVar_meets (I := fun s => Within i opens (some key) s ∧ s.1.registry key = some n) hstable
    ⟨hs,hn⟩ fun t ht => ?_
  apply Meets.call
  rintro ⟨u,g⟩ htu hi r ⟨u',g'⟩ l' ⟨he,hg⟩
  obtain ⟨hu,hun⟩ := hstable ht htu
  have hkin : g.Kin i key := by
    obtain ⟨f,hf⟩ : ∃ f, g.families[i]? = some f := ⟨_,List.getElem?_eq_getElem hu.started⟩
    exact ⟨i,f,(hu.left key rfl).1,hf,hf⟩
  cases he with
  | created hnone => cases hnone.symm.trans hun
  | @found _ m hm =>
    cases hun.symm.trans hm
    cases hg
    obtain ⟨hkeeps,hwithin⟩ := keeps_found hi hu hkin hm
    refine ⟨hkeeps,?_⟩
    apply Meets.call
    rintro ⟨v,g⟩ huv hi r ⟨v',g'⟩ l' ⟨he,hg⟩
    obtain ⟨hv,hvn⟩ := hstable ⟨hwithin,hm⟩ huv
    cases he with
    | close n =>
      cases hg
      obtain ⟨hkeeps,hwithin,hempty⟩ := keeps_close hi hv hvn
      exact ⟨hkeeps,clear_meets hwithin hempty⟩
    | unclosed n e =>
      cases hg
      obtain ⟨hkeeps,hwithin⟩ := keeps_leak hi hv hvn
      exact ⟨hkeeps,Meets.raise fun w hw _ => hwithin.rely hw⟩

/-- The session is removed, or it has failed to close. -/
theorem remove_meets (hs : Within i (key :: opens) none s) :
    Meets (discipline ρ) i (Does ρ i) (fun _ t _ => Within i opens none t) (remove : Task ρ Unit) s
      (some key) := by
  refine getVar_meets (I := Within i (key :: opens) none) (fun h hst => h.rely hst) hs fun t ht => ?_
  apply Meets.call
  rintro ⟨u,g⟩ htu hi r ⟨u',g'⟩ l' ⟨he,hg⟩
  cases he
  cases hg
  obtain ⟨hkeeps,hwithin⟩ := keeps_has hi (ht.rely htu)
  refine ⟨hkeeps,?_⟩
  change Meets (discipline ρ) i (Does ρ i) _ (if (u.registry key).isSome then _ else _) _ _
  cases hn : u.registry key with
  | none =>
    refine clear_meets hwithin fun n hn' => ?_
    cases hn.symm.trans hn'
  | some n => exact close_meets hwithin hn

theorem resetVar_meets (token : Option String) (hs : Within i opens none s) :
    Meets (discipline ρ) i (Does ρ i) (In i opens token) (issue (.resetVar token) : Task ρ Unit) s l := by
  apply Meets.call
  rintro ⟨t,g⟩ hst hi r ⟨t',g'⟩ l' ⟨he,hg⟩
  cases he
  cases hg
  exact ⟨keeps_refl hi,Meets.ret fun u hu _ => ⟨(hs.rely hst).rely hu,rfl⟩⟩

/-- A scope, once its identifier is the task's own. -/
theorem scope_meets {body : Task ρ Unit} (hs : Within i (key :: opens) none s)
    (hbody : ∀ t, Within i (key :: opens) none t →
      Meets (discipline ρ) i (Does ρ i) (In i (key :: opens) (some key)) body t (some key)) :
    Meets (discipline ρ) i (Does ρ i) (In i opens l)
      ((issue (.setVar key)).bind fun token : Option String =>
        Proc.ensuring
          (Proc.ensuring body ((issue .getVar).bind fun _ : String => remove))
          (issue (.resetVar token))) s l := by
  apply Meets.call
  rintro ⟨t,g⟩ hst hi r ⟨t',g'⟩ l' ⟨he,hg⟩
  cases he
  cases hg
  have hcleanup : ∀ {u : Pool ρ × Ghost}, Within i (key :: opens) none u →
      Meets (discipline ρ) i (Does ρ i) (fun _ t _ => Within i opens none t)
        ((issue .getVar).bind fun _ : String => (remove : Task ρ Unit)) u (some key) := fun hu =>
    getVar_meets (I := Within i (key :: opens) none) (fun h hst => h.rely hst) hu fun v hv => remove_meets hv
  have hremoved : Meets (discipline ρ) i (Does ρ i) (fun _ t _ => Within i opens none t)
      (Proc.ensuring body ((issue .getVar).bind fun _ : String => remove)) (t,g) (some key) := by
    refine (hbody _ (hs.rely hst)).ensuring (fun _ u l _ hu => ?_) fun e u l _ hu => ?_
    · obtain ⟨hu,rfl⟩ := hu
      exact (hcleanup hu).bind (fun _ v l _ hv => Meets.ret fun w hw _ => hv.rely hw) fun _ _ _ _ hv => hv
    · obtain ⟨hu,rfl⟩ := hu
      exact (hcleanup hu).bind (fun _ v l _ hv => Meets.raise fun w hw _ => hv.rely hw) fun _ _ _ _ hv => hv
  refine ⟨keeps_refl hi,hremoved.ensuring (fun _ u l' _ hu => ?_) fun e u l' _ hu => ?_⟩
  · exact (resetVar_meets l hu).bind (fun _ v l' _ hv => Meets.ret fun w hw _ => ⟨hv.1.rely hw,hv.2⟩)
      fun _ _ _ _ hv => hv
  · exact (resetVar_meets l hu).bind (fun _ v l' _ hv => Meets.raise fun w hw _ => ⟨hv.1.rely hw,hv.2⟩)
      fun _ _ _ _ hv => hv

/-- A scope with a new identifier. -/
theorem withDbSessionContext_meets {body : Task ρ Unit} (hs : Within i opens none s)
    (hbody : ∀ key t, Within i (key :: opens) none t →
      Meets (discipline ρ) i (Does ρ i) (In i (key :: opens) (some key)) body t (some key)) :
    Meets (discipline ρ) i (Does ρ i) (In i opens l) (withDbSessionContext none body) s l := by
  apply Meets.call
  rintro ⟨t,g⟩ hst hi r ⟨t',g'⟩ l' ⟨he,hg⟩
  cases he with
  | uuid4 new unnamed =>
    cases hg
    obtain ⟨hkeeps,hwithin⟩ := keeps_uuid4 hi (hs.rely hst) new unnamed
    exact ⟨hkeeps,scope_meets hwithin (hbody _)⟩

/-- Whatever the code does, it stays in its scopes. -/
theorem code_meets (code : Code ρ) (hs : Within i opens none s) (hkey : Holds i opens key s) :
    Meets (discipline ρ) i (Does ρ i) (In i opens (some key)) code.run s (some key) := by
  have hguar : ∀ {key : String} {opens : List String} {s t : Pool ρ × Ghost}, Holds i opens key s →
      (discipline ρ).guar i s t → Holds i opens key t :=
    fun h hst => h.kept (hst (i + 1) (Nat.succ_ne_self i))
  induction code generalizing key opens s with
  | done => exact Meets.ret fun t ht _ => ⟨hs.rely ht,rfl⟩
  | fail e => exact Meets.raise fun t ht _ => ⟨hs.rely ht,rfl⟩
  | execute next ih =>
    refine ((execute_meets hs hkey).keeping (fun h hst => h.kept hst) hguar hkey).andThen fun r t l _ ht => ?_
    obtain ⟨⟨ht,rfl⟩,hkey⟩ := ht
    exact ih r ht hkey
  | wait next ih =>
    apply Meets.call
    rintro ⟨t,g⟩ hst hi r ⟨t',g'⟩ l' ⟨he,hg⟩
    cases he
    cases hg
    refine ⟨keeps_refl hi,?_⟩
    cases r with
    | ok a => exact ih _ (hs.rely hst) (hkey.kept hst)
    | error e => exact ih _ (hs.rely hst) (hkey.kept hst)
  | scope body next ihbody ih =>
    have hscope := withDbSessionContext_meets (l := some key) hs fun key' t ht => ihbody ht ht.holds
    refine (hscope.keeping (fun h hst => h.kept hst) hguar hkey).andThen fun r t l _ ht => ?_
    obtain ⟨⟨ht,rfl⟩,hkey⟩ := ht
    exact ih r ht hkey
  | createTask task next _ ih =>
    apply Meets.call
    rintro ⟨t,g⟩ hst hi r ⟨t',g'⟩ l' ⟨he,hg⟩
    cases he
    cases hg
    obtain ⟨hkeeps,hwithin⟩ := keeps_createTask hi (hs.rely hst) (hkey.kept hst).kin task
    exact ⟨hkeeps,ih hwithin (hguar (hkey.kept hst) hkeeps.2)⟩

end Programs

section Runs
variable {ρ : Type} {body : Code ρ} {s s' : Pool ρ} {g : Ghost} {i n : ℕ}
  {c : Config (Command ρ) Command.Answer PyError (Pool ρ) (Option String) (Entry ρ) Unit}
  {tr : List (Pool ρ × Event (Command ρ) Command.Answer PyError (Move ρ))}

/-- A task more, and some of those that have not begun fewer. -/
theorem Inv.begins (h : Inv (s,g)) {scheduled : List (Option String × Code ρ)} {families : List ℕ} (f : ℕ)
    (hscheduled : List.Forall₂ (fun task f => Belongs g task.1 f) scheduled families) :
    Inv ({ s with scheduled := scheduled },{ g with families := g.families ++ [f], scheduled := families }) ∧
      ∀ i, Kept i (s,g)
        ({ s with scheduled := scheduled },{ g with families := g.families ++ [f], scheduled := families }) := by
  have hbefore : ∀ k f' : ℕ, g.families[k]? = some f' → (g.families ++ [f])[k]? = some f' := fun k f' hk =>
    (List.getElem?_append_left (List.getElem?_eq_some_iff.mp hk).1).trans hk
  refine ⟨⟨h.size,hscheduled.imp fun task f' hb => hb.mono (fun _ _ hid => hid) hbefore,fun id k hid => ?_,h.owned,
    h.opened,h.ended,h.live,h.mistaken⟩,fun i => ⟨hbefore,fun _ _ hk => hk,fun _ hid => hid,fun _ _ hn => hn,
      fun _ _ => .inl rfl,fun _ _ => Iff.rfl,fun _ hn => hn,fun _ hn => hn,fun _ hn => hn⟩⟩
  obtain ⟨hknown,hlt⟩ := h.known id k hid
  refine ⟨hknown,?_⟩
  change k < (g.families ++ [f]).length
  rw [List.length_append]
  exact Nat.lt_add_right _ hlt

/-- The task that is new has no scope yet. -/
theorem Inv.within (h : Inv (s,g)) {scheduled : List (Option String × Code ρ)} {families : List ℕ} (f : ℕ) :
    Within g.families.length [] none ({ s with scheduled := scheduled },
      { g with families := g.families ++ [f], scheduled := families }) := by
  have hnone : ∀ id, g.ids id ≠ some g.families.length := fun id hid =>
    absurd (h.known id _ hid).2 (Nat.lt_irrefl _)
  refine ⟨?_,List.nodup_nil,fun _ hid => (by cases hid),fun _ hid => (by cases hid),fun id hid =>
    absurd hid (hnone id),fun id n hid _ => absurd hid (hnone id)⟩
  change g.families.length < (g.families ++ [f]).length
  rw [List.length_append]
  exact Nat.lt_succ_self _

theorem holds_begun {key : String} {f : ℕ} (hb : Belongs g (some key) f)
    {scheduled : List (Option String × Code ρ)} {families : List ℕ} :
    Holds g.families.length [] key ({ s with scheduled := scheduled },
      { g with families := g.families ++ [f], scheduled := families }) := by
  obtain ⟨id,k,hcontext,hid,hk⟩ := hb
  cases hcontext
  have hlt := (List.getElem?_eq_some_iff.mp hk).1
  refine ⟨⟨k,f,hid,(List.getElem?_append_left hlt).trans hk,List.getElem?_concat_length⟩,
    .inr ⟨k,Nat.ne_of_lt hlt,hid⟩⟩

theorem families_own {i : ℕ} {cmd : Command ρ} {r : Except PyError cmd.Answer} :
    (watch g s (.own i cmd r)).families = g.families := by
  have hnote : ∀ created id n, (g.note created id n).families = g.families := by
    intro created id n
    unfold Ghost.note
    split <;> rfl
  cases cmd with
  | lookup id =>
    cases r with
    | ok n => exact hnote _ _ _
    | error e => rfl
  | execute n =>
    change (g.use i n).families = g.families
    unfold Ghost.use
    split <;> rfl
  | _ => cases r <;> rfl

/-- The first of the tasks that have not begun, and the others. -/
theorem Inv.next {context : Option String} {task : Code ρ} {rest : List (Option String × Code ρ)}
    (h : Inv (s,g)) (hs : s.scheduled = (context,task) :: rest) : Belongs g context (g.scheduled.headD 0) ∧
      List.Forall₂ (fun task f => Belongs g task.1 f) rest g.scheduled.tail := by
  have hscheduled := h.scheduled
  rw [hs] at hscheduled
  obtain ⟨f,fs,hf,hrest,hcons⟩ := List.forall₂_cons_left_iff.mp hscheduled
  change g.scheduled = f :: fs at hcons
  rw [hcons]
  exact ⟨hf,hrest⟩

theorem task_meets {key : String} {task : Code ρ} {t : Pool ρ × Ghost} {l : Option String}
    (hs : Within i [] none t) (hkey : Holds i [] key t) :
    Meets (discipline ρ) i (Does ρ i) (In i [] (some key)) (Entry.task (some key) task).program t l := by
  apply Meets.call
  rintro ⟨u,g⟩ htu hi r ⟨u',g'⟩ l' ⟨he,hg⟩
  cases he
  cases hg
  exact ⟨keeps_refl hi,code_meets task (hs.rely htu) (hkey.kept htu)⟩

theorem moves_inv {mv : Move ρ} {labels : List (Entry ρ)} (hm : Moves ρ mv s s' labels) (hi : Inv (s,g)) :
    Inv (s',watch g s (.env mv)) ∧ ∀ i, Kept i (s,g) (s',watch g s (.env mv)) := by
  cases hm with
  | arrive | request => exact hi.begins _ hi.scheduled
  | @begin _ context task rest h =>
    exact hi.begins _ (hi.next h).2

/-- A task ends without a scope, and its variable is what it was. -/
def Ended (i : ℕ) (e : Entry ρ) (r : Except PyError Unit) (t : Pool ρ × Ghost) (l : Option String) : Prop :=
  In i [] e.context r t l

theorem of_getElem?_singleton {e e' : Entry ρ} {j : ℕ} (h : [e'][j]? = some e) : j = 0 ∧ e = e' := by
  cases j with
  | zero => exact ⟨rfl,(Option.some.inj h).symm⟩
  | succ j => cases h

theorem admits : (eventLoop ρ).Admits watch (discipline ρ) sized Ended where
  shared := discipline_shared
  own := by
    intro g n s i c r h
    rw [sized] at h ⊢
    rw [families_own, h]
  move := moves_inv
  grows := by
    intro mv s s' labels g n hm h
    rw [sized] at h ⊢
    cases hm with
    | _ => exact List.length_append.trans (congrArg (· + 1) h)
  starts := by
    intro mv s s' labels e g n j hm hsize hi hi' hj
    cases hsize
    cases hm with
    | arrive | request =>
      obtain ⟨rfl,rfl⟩ := of_getElem?_singleton hj
      exact withDbSessionContext_meets (hi.within _) fun key t ht => code_meets _ ht ht.holds
    | @begin _ context task rest h =>
      obtain ⟨rfl,rfl⟩ := of_getElem?_singleton hj
      obtain ⟨hbelongs,_⟩ := hi.next h
      have hcontext := hbelongs
      obtain ⟨key,_,rfl,_⟩ := hcontext
      exact task_meets (hi.within _) (holds_begun hbelongs)

theorem start_inv : Inv ((Pool.fresh : Pool ρ),Ghost.start) := by
  refine ⟨rfl,.nil,fun id k hid => ?_,fun _ _ h => (by cases h),fun _ h => (by cases h),fun _ h => (by cases h),
    fun _ _ h => (by cases h),fun h => h⟩
  have hid' : (if id = startUpId then some 0 else none) = some k := hid
  by_cases hname : id = startUpId
  · rw [if_pos hname] at hid'
    cases hid'
    exact ⟨.inr hname,Nat.one_pos⟩
  · rw [if_neg hname] at hid'
    cases hid'

/-- The start of the service is in the scope with its name. -/
theorem startUp_within : Within 0 [startUpId] none ((Pool.fresh : Pool ρ),Ghost.start) := by
  refine ⟨Nat.one_pos,List.nodup_singleton _,fun id hid => ?_,fun _ hid => (by cases hid),fun id hid => ?_,
    fun _ _ _ hn => (by cases hn)⟩
  · exact ⟨if_pos (List.mem_singleton.mp hid),fun h => (by cases h)⟩
  · have hid' : (if id = startUpId then some 0 else none) = some 0 := hid
    by_cases hname : id = startUpId
    · exact .inl (List.mem_singleton.mpr hname)
    · rw [if_neg hname] at hid'
      cases hid'

/-- What has happened in a run. -/
abbrev history (tr : List (Pool ρ × Event (Command ρ) Command.Answer PyError (Move ρ))) : Ghost :=
  Machine.observe watch Ghost.start tr

theorem run_sound (h : (eventLoop ρ).Run ((eventLoop ρ).initial .fresh [.startUp body]) tr c) :
    (eventLoop ρ).Sound watch (discipline ρ) sized Ended c (history tr) := by
  refine h.sound admits (Machine.sound_initial start_inv rfl fun i e hi => ?_)
  obtain ⟨rfl,rfl⟩ : i = 0 ∧ Entry.startUp body = e := by
    cases i with
    | zero => exact ⟨rfl,Option.some.inj hi⟩
    | succ i => cases hi
  exact scope_meets startUp_within fun t ht => code_meets body ht ht.holds

theorem watch_leaked {e : Event (Command ρ) Command.Answer PyError (Move ρ)} (h : n ∈ (watch g s e).leaked)
    (hn : n ∉ g.leaked) : ∃ i error, e = .own i (.close n) (.error error) := by
  have hnote : ∀ created id n, (g.note created id n).leaked = g.leaked := by
    intro created id n
    unfold Ghost.note
    split <;> rfl
  cases e with
  | env mv => cases mv <;> exact absurd h hn
  | own i cmd r =>
    cases cmd with
    | lookup id =>
      cases r with
      | ok m =>
        exact absurd ((congrArg (n ∈ ·) (hnote s.created id m)).mp h) hn
      | error error => exact absurd h hn
    | execute m =>
      change n ∈ (g.use i m).leaked at h
      unfold Ghost.use at h
      split at h <;> exact absurd h hn
    | close m =>
      cases r with
      | ok a => exact absurd h hn
      | error error =>
        rcases List.mem_cons.mp h with rfl | hold
        · exact ⟨i,error,rfl⟩
        · exact absurd hold hn
    | _ => cases r <;> exact absurd h hn

/-- A task that is not the one of the scope looks the session up or uses it after the scope has
begun to end. -/
def UsedLate (tr : List (Pool ρ × Event (Command ρ) Command.Answer PyError (Move ρ))) (n : ℕ) : Prop :=
  ∃ pre s e post i id, tr = pre ++ (s,e) :: post ∧ (history pre).Outlives i id ∧
    (e = .own i (.lookup id) (.ok n) ∨ (history pre).scopes[n]? = some id ∧ ∃ r, e = .own i (.execute n) r)

theorem watch_late {e : Event (Command ρ) Command.Answer PyError (Move ρ)} (h : n ∈ (watch g s e).late)
    (hn : n ∉ g.late) : ∃ i id, g.Outlives i id ∧
      (e = .own i (.lookup id) (.ok n) ∨ g.scopes[n]? = some id ∧ ∃ r, e = .own i (.execute n) r) := by
  have htouch : ∀ {g : Ghost} {i : ℕ} {id : String} {m : ℕ}, n ∈ (g.touch i id m).late → n ∉ g.late →
      m = n ∧ g.Outlives i id := by
    intro g i id m hmem hnot
    change n ∈ if g.Outlives i id then m :: g.late else g.late at hmem
    split at hmem
    · rename_i houtlives
      exact ⟨((List.mem_cons.mp hmem).resolve_right hnot).symm,houtlives⟩
    · exact absurd hmem hnot
  cases e with
  | env mv => cases mv <;> exact absurd h hn
  | own i cmd r =>
    cases cmd with
    | lookup id =>
      cases r with
      | ok m =>
        have hnote : (g.note s.created id m).late = g.late ∧
            ((g.note s.created id m).Outlives i id ↔ g.Outlives i id) := by
          unfold Ghost.note
          split <;> exact ⟨rfl,Iff.rfl⟩
        obtain ⟨rfl,houtlives⟩ := htouch (g := g.note s.created id m) h (hnote.1 ▸ hn)
        exact ⟨i,id,hnote.2.mp houtlives,.inl rfl⟩
      | error error => exact absurd h hn
    | execute m =>
      change n ∈ (g.use i m).late at h
      unfold Ghost.use at h
      split at h
      · rename_i id hid
        obtain ⟨rfl,houtlives⟩ := htouch (g := g) h hn
        exact ⟨i,id,houtlives,.inr ⟨hid,r,rfl⟩⟩
      · exact absurd h hn
    | _ => cases r <;> exact absurd h hn

/-- When all tasks are through, every session is closed, but for those that have failed to close
and those that a task has used that outlives their scope. -/
theorem sessions_released (h : (eventLoop ρ).Run ((eventLoop ρ).initial .fresh [.startUp body]) tr c)
    (hdone : c.finished) :
    (∀ id n, c.state.registry id = some n →
      (∃ s i e, (s,.own i (.close n) (.error e)) ∈ tr) ∨ UsedLate tr n) ∧
    ∀ n < c.state.created,
      n ∈ c.state.closed ∨ (∃ s i e, (s,.own i (.close n) (.error e)) ∈ tr) ∨ UsedLate tr n := by
  have hsound := run_sound h
  have hleaked : ∀ n ∈ (history tr).leaked, ∃ s i e, (s,Event.own i (.close n) (.error e)) ∈ tr := by
    intro n hn
    obtain ⟨pre,s,e,post,rfl,hbefore,hafter⟩ :=
      Machine.observe_cause (p := fun g : Ghost => n ∈ g.leaked) hn List.not_mem_nil
    obtain ⟨i,error,rfl⟩ := watch_leaked hafter hbefore
    exact ⟨s,i,error,List.mem_append_right _ List.mem_cons_self⟩
  have hlate : ∀ n ∈ (history tr).late, UsedLate tr n := by
    intro n hn
    obtain ⟨pre,s,e,post,htr,hbefore,hafter⟩ :=
      Machine.observe_cause (p := fun g : Ghost => n ∈ g.late) hn List.not_mem_nil
    obtain ⟨i,id,houtlives,huse⟩ := watch_late hafter hbefore
    exact ⟨pre,s,e,post,i,id,htr,houtlives,huse⟩
  have hregistry : ∀ id n, c.state.registry id = some n →
      (∃ s i e, (s,Event.own i (.close n) (.error e)) ∈ tr) ∨ UsedLate tr n := by
    intro id n hn
    obtain ⟨k,hk⟩ := hsound.inv.opened id
      (List.mem_append_left _ (List.mem_of_getElem? (hsound.inv.owned id n hn)))
    have hlt := (hsound.inv.known id k hk).2
    rw [hsound.size] at hlt
    obtain ⟨r,hr⟩ := Option.isSome_iff_exists.mp (hdone _ (List.getElem_mem hlt))
    obtain ⟨hwithin,_⟩ := hsound.outcome (List.getElem?_eq_getElem hlt) hr
    rcases hwithin.rest id n hk hn with hopen | hleaving | hlost
    · cases hopen
    · cases hleaving
    · exact hlost.imp (hleaked n) (hlate n)
  refine ⟨hregistry,fun n hn => ?_⟩
  have hlt : n < (history tr).scopes.length := by
    rw [← hsound.inv.size]
    exact hn
  rcases hsound.inv.live n _ (List.getElem?_eq_getElem hlt) with hclosed | hl | hl | hr
  · exact .inl hclosed
  · exact .inr (.inl (hleaked n hl))
  · exact .inr (.inr (hlate n hl))
  · exact .inr (hregistry _ n hr)

end Runs

section Serving

/-- A text that is longer than all of these. -/
def unused (ids : List String) : String :=
  String.ofList (List.replicate ((ids.map String.length).foldr max 0 + 1) 'u')

theorem unused_not_mem (ids : List String) : unused ids ∉ ids := by
  intro h
  have hle : ∀ {ids : List String} {id : String}, id ∈ ids →
      id.length ≤ (ids.map String.length).foldr max 0 := by
    intro ids id hid
    induction ids with
    | nil => cases hid
    | cons x rest ih =>
      rcases List.mem_cons.mp hid with rfl | hid
      · exact Nat.le_max_left _ _
      · exact Nat.le_trans (ih hid) (Nat.le_max_right _ _)
  have hlength := hle h
  rw [unused, String.length_ofList, List.length_replicate] at hlength
  exact absurd hlength (Nat.not_succ_le_self _)

/-- Every command is answered, but who waits is cancelled. -/
def answer (s : Pool Unit) (l : Option String) : (c : Command Unit) →
    Except PyError c.Answer × Pool Unit × Option String
  | .uuid4 =>
    let id := unused (startUpId :: s.issued)
    (.ok id,{ s with issued := id :: s.issued },l)
  | .setVar id => (.ok l,s,some id)
  | .getVar => (readVar l,s,l)
  | .resetVar token => (.ok (),s,token)
  | .inherit context => (.ok (),s,context)
  | .has id => (.ok (s.registry id).isSome,s,l)
  | .lookup id =>
    match s.registry id with
    | some n => (.ok n,s,l)
    | none => (.ok s.created,{ s with
        registry := Function.update s.registry id (some s.created)
        created := s.created + 1 },l)
  | .close n => (.ok (),{ s with closed := n :: s.closed },l)
  | .clear id => (.ok (),{ s with registry := Function.update s.registry id none },l)
  | .execute _ => (.ok (),s,l)
  | .wait => (.error .cancelledError,s,l)
  | .createTask task => (.ok (),{ s with scheduled := s.scheduled ++ [(l,task)] },l)

theorem uuid4_exec {s : Pool Unit} {l : Option String} {id : String} (h : id ∉ startUpId :: s.issued) :
    Exec Unit s l .uuid4 (.ok id) { s with issued := id :: s.issued } l := by
  obtain ⟨hstart,hissued⟩ := List.ne_and_not_mem_of_not_mem_cons h
  exact .uuid4 hissued hstart

theorem answer_exec (s : Pool Unit) (l : Option String) (c : Command Unit) :
    Exec Unit s l c (answer s l c).1 (answer s l c).2.1 (answer s l c).2.2 := by
  cases c with
  | uuid4 => exact uuid4_exec (unused_not_mem _)
  | setVar id => exact .setVar id
  | getVar => exact .getVar
  | resetVar token => exact .resetVar token
  | inherit context => exact .inherit context
  | has id => exact .has id
  | lookup id =>
    cases hn : s.registry id with
    | some n =>
      simp only [answer, hn]
      exact .found hn
    | none =>
      simp only [answer, hn]
      exact .created hn
  | close n => exact .close n
  | clear id => exact .clear id
  | execute n => exact .execute n _
  | wait => exact .wait _
  | createTask task => exact .createTask task

def move (mv : Move Unit) (s : Pool Unit) : Option (Pool Unit × List (Entry Unit)) :=
  match mv, s.scheduled with
  | .arrive body, _ => some (s,[.work body])
  | .request app, _ => some (s,[httpRequestMiddleware app])
  | .begin, (context,task) :: rest => some ({ s with scheduled := rest },[.task context task])
  | .begin, [] => none

theorem move_moves {mv : Move Unit} {s s' : Pool Unit} {labels : List (Entry Unit)}
    (h : move mv s = some (s',labels)) : Moves Unit mv s s' labels := by
  unfold move at h
  split at h
  · cases h
    exact .arrive _
  · cases h
    exact .request _
  · rename_i hscheduled
    cases h
    exact .begin hscheduled
  · cases h

def player : (eventLoop Unit).Player where
  respond := answer
  move := move
  respond_exec := answer_exec
  move_move := move_moves

def starting : Code Unit := .execute fun _ => .done

/-- An event with a scope inside its own. -/
def event : Code Unit :=
  .execute fun _ => .scope (.execute fun _ => .done) fun _ => .execute fun _ => .done

/-- The request is cancelled while its endpoint is between two queries. -/
def endpoint : Code Unit := .execute fun _ => .execute fun _ => .done

/-- The start of the service and an event take turns, and then the endpoint outlives its request. -/
def served := Machine.play player ((eventLoop Unit).initial .fresh [.startUp starting])
  (.inr (.arrive event) :: (List.replicate 13 [.inl 0,.inl 1]).flatten ++ List.replicate 18 (.inl 1) ++
    .inr (.request endpoint) :: List.replicate 3 (.inl 2) ++ .inr .begin :: List.replicate 4 (.inl 3) ++
    List.replicate 10 (.inl 2) ++ List.replicate 3 (.inl 3))

theorem served_run : (eventLoop Unit).Run ((eventLoop Unit).initial .fresh [.startUp starting]) served.1
    served.2 := by
  unfold served
  exact Machine.play_run player _ _

theorem served_finished : served.2.finished := by
  have hends : served.2.threads.map (fun th => th.prog.outcome?.isSome) = [true,true,true,true] := by
    decide +kernel
  intro th hth
  have hmem : th.prog.outcome?.isSome ∈ served.2.threads.map fun th => th.prog.outcome?.isSome :=
    List.mem_map_of_mem hth
  rw [hends] at hmem
  simpa using hmem

def closes : Event (Command Unit) Command.Answer PyError (Move Unit) → Bool
  | .own _ (.close _) (.error _) => false
  | _ => true

theorem served_closes : ∀ s i n e, (s,Event.own i (.close n) (.error e)) ∉ served.1 := by
  intro s i n e h
  have hall : (served.1.all fun x => closes x.2) = true := by decide +kernel
  cases List.all_eq_true.mp hall _ h

/-- The sessions are closed, but for the one that the endpoint has created too late. -/
theorem sessions_released_served : (∀ n < 4, n ∈ served.2.state.closed) ∧ 4 ∉ served.2.state.closed ∧
    UsedLate served.1 4 := by
  obtain ⟨_,hclosed⟩ := sessions_released served_run served_finished
  have hlast : 4 ∉ served.2.state.closed := by decide +kernel
  have hcreated : served.2.state.created = 5 := by decide +kernel
  refine ⟨by decide +kernel,hlast,?_⟩
  rcases hclosed 4 (hcreated ▸ by decide) with h | ⟨s,i,e,h⟩ | h
  · exact absurd h hlast
  · exact absurd h (served_closes s i 4 e)
  · exact h

end Serving
end SafeDecoder.Sessions
