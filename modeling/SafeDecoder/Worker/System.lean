import SafeDecoder.Data.ReferencePackages
import SafeDecoder.Storage.JsonbReading
import SafeDecoder.Worker.Rules

/-! # The workers

Tasks run side by side. Messages that wait are delivered in any order, keys of
Redis expire at any time, and further tasks arrive from outside.
-/
namespace SafeDecoder.Worker

inductive Job
  | getContractMetadata (m : Message)
  | getMissingContractMetadata
  | updateProxies
  | updateSafeContractsInfo
  | createSafeContractsForNewChains (chainId : Int)
  | createSafeContracts (chainId : Int)
  | processContractMetadata (m : EnhancedContractMetadata)

def Job.program (inst : Installation) : Job → Task Unit
  | getContractMetadata m => getContractMetadataTask inst m
  | getMissingContractMetadata => getMissingContractMetadataTask inst
  | updateProxies => updateProxiesTask
  | updateSafeContractsInfo => Worker.updateSafeContractsInfo inst inst.deployments
  | createSafeContractsForNewChains chainId => createSafeContractsTaskForNewChains inst chainId
  | createSafeContracts chainId => do
    let _ ← Worker.createSafeContracts inst chainId 0 inst.deployments
  | processContractMetadata m => do
    let _ ← Worker.processContractMetadata m

inductive Move
  | expire (key : RedisKey)
  | deliver (m : Message)
  | start (job : Job)

variable {pg : Postgres}

/-- The queue without one message that is taken by a worker. -/
def World.take (w : World pg) (m : Message) : World pg := { w with queue := w.queue.erase m }

inductive Moves (arrivals : Job → Prop) : Move → World pg → World pg → List Job → Prop
  | expire (key : RedisKey) (w : World pg) : Moves arrivals (.expire key) w (w.setRedis key none) []
  | deliver {m : Message} {w : World pg} (h : m ∈ w.queue) :
      Moves arrivals (.deliver m) w (w.take m) [.getContractMetadata m]
  | start {job : Job} (w : World pg) (h : arrivals job) : Moves arrivals (.start job) w w [job]

def workers (pg : Postgres) (inst : Installation) (explorers : Explorers) (arrivals : Job → Prop) :
    Machine Command Command.Answer PyError (World pg) DbSession Move Job Unit where
  exec := Exec explorers
  move := Moves arrivals
  program := Job.program inst
  session := active

abbrev WorkersConfig (pg : Postgres) :=
  Config Command Command.Answer PyError (World pg) DbSession Job Unit

abbrev WorkersTrace (pg : Postgres) := List (World pg × WorkerEvent Move)

/-- In a schedule of the workers the explorers answer the same all the time, and
the tasks that arrive are those of messages. -/
def workersPlayer {inst : Installation} {explorers : Explorers} {arrivals : Job → Prop}
    (answers : ContractSource → Bytes → Int → Except PyError (Option ContractMetadata))
    (h : ∀ client address chainId, explorers client address chainId (answers client address chainId)) :
    (workers pg inst explorers arrivals).Player where
  respond := respond answers
  move := fun mv w =>
    match mv with
    | .expire key => some (w.setRedis key none,[])
    | .deliver m => if m ∈ w.queue then some (w.take m,[.getContractMetadata m]) else none
    | .start _ => none
  respond_exec := exec_respond h
  move_move := by
    intro mv w w' labels h
    cases mv with
    | expire key =>
      cases h
      exact .expire key w
    | deliver m =>
      simp only [Option.ite_none_right_eq_some] at h
      obtain ⟨hm,h⟩ := h
      cases h
      exact .deliver hm
    | start job => cases h

section Messages
variable {inst : Installation} {explorers : Explorers} {arrivals : Job → Prop}

/-- No command takes a message from the queue. -/
theorem queue_grows {c : Command} {w w' : World pg} {l l' : DbSession}
    {answers : ContractSource → Bytes → Int → Except PyError (Option ContractMetadata)}
    {r : Except PyError c.Answer} (h : respond answers w l c = (r,w',l')) : w.queue <+: w'.queue := by
  cases respond_effect h with
  | send => exact List.prefix_append _ _
  | _ => exact List.prefix_rfl

/-- The message waits in the queue, or a task has been started for it. -/
def Pending (m : Message) (c : WorkersConfig pg) : Prop :=
  m ∈ c.state.queue ∨
    ∃ (i : ℕ) (th : Thread Command Command.Answer PyError DbSession Job Unit),
      c.threads[i]? = some th ∧ th.label = .getContractMetadata m

theorem pending_step {m : Message} {c d : WorkersConfig pg}
    {e : WorkerEvent Move} (h : (workers pg inst explorers arrivals).Step c e d)
    (hm : Pending m c) : Pending m d := by
  rcases hm with hm | ⟨i,th,hi,hl⟩
  · cases h with
    | own hi he =>
      obtain ⟨answers,hr,_⟩ := he
      exact .inl ((queue_grows hr).subset hm)
    | env hmove =>
      cases hmove with
      | expire => exact .inl hm
      | start => exact .inl hm
      | @deliver m' _ hm' =>
        by_cases heq : m = m'
        · subst heq
          exact .inr ⟨c.threads.length,_,(List.getElem?_append_right le_rfl).trans (by simp; rfl),rfl⟩
        · exact .inl ((List.mem_erase_of_ne heq).mpr hm)
  · obtain ⟨th',hth,hl'⟩ := (Machine.Run.step .refl h).label hi
    exact .inr ⟨i,th',hth,hl'.trans hl⟩

/-- What has been sent in a run is still waiting or has its task. -/
theorem run_pending {m : Message} {c d : WorkersConfig pg} {tr : WorkersTrace pg}
    (h : (workers pg inst explorers arrivals).Run c tr d)
    {w : World pg} {i : ℕ} (hm : (w,Event.own i (.send m) (.ok ())) ∈ tr) : Pending m d := by
  induction h with
  | refl => cases hm
  | @step d d' tr e _ hstep ih =>
    rcases List.mem_append.mp hm with hm | hm
    · exact pending_step hstep (ih hm)
    · cases List.mem_singleton.mp hm
      cases hstep with
      | own hi he =>
        obtain ⟨answers,hr,_⟩ := he
        cases hr
        exact .inl (List.mem_append_right _ (List.mem_singleton_self m))

end Messages

namespace Reference

/-- A database whose digest leaves the hashed text as it is, so that by `Jsonb.hashInput_inj`
the documents that have one hash are one jsonb value. -/
def database : Postgres :=
  ⟨fun j => (Jsonb.hashInput j).getD [],fun j => (Jsonb.hashInput j).isSome⟩

/-- Addresses as they are written with decimal digits. -/
def addresses : Addresses where
  toBytes := fun s => (SafeDecoder.Reference.hexstrToBytes s).toOption.getD []
  toChecksum := to0xHexStr
  toBytes_toChecksum := fun b => by simp [SafeDecoder.Reference.hexstrToBytes_to0xHexStr, Except.toOption]
  toBytes_to0xHexStr := fun b => by simp [SafeDecoder.Reference.hexstrToBytes_to0xHexStr, Except.toOption]

/-- One client, one deployment and no bundled documents. -/
def installation : Installation where
  addresses := addresses
  enabledClients := fun _ => [.etherscan]
  deployments := [⟨"1.4.1","SafeMigration",to0xHexStr [7]⟩]
  safeContractsAbis := []
  ercAbis := []
  safeAbis := []
  thirdPartiesAbis := []

/-- A database with one contract. -/
def worldWith (row : ContractRow) (h : fitsBigInt row.chainId) : World database :=
  (World.empty database).addContract row ⟨List.not_mem_nil,h⟩

end Reference
end SafeDecoder.Worker
