import SafeDecoder.Library.Evaluation
import SafeDecoder.Library.Settlement
import SafeDecoder.Worker.EventTasks

/-! # The consumers of the events queue

RabbitMQ delivers a message to one of the processes that consume, `wrapped_callback`
processes it and answers, and the callbacks of several messages take turns. A connection
that is lost gives its messages back, whatever their callbacks go on to do. The tasks
that have been sent are those of the callbacks, and a message is acknowledged only after
all of its tasks. A callback that is alone does what the service of the events does.
-/
namespace SafeDecoder.Consumer
open Effects Worker Events EventTasks

section Model

/-- A message of the queue. -/
structure Incoming where
  id : ℕ
  body : Bytes
  deriving DecidableEq

/-- The database, the broker of the tasks, RabbitMQ, and what the service of each of the
consumers remembers. -/
structure Broker where
  db : Db
  safeContractsCache : List (ℕ × Int)
  sent : List Job
  queue : Ledger Incoming

inductive Command
  | isCached (consumer : ℕ) (chainId : Int)
  | existsSafeContracts (chainId : Int)
  | remember (consumer : ℕ) (chainId : Int)
  | removeSession
  | send (job : Job)
  | ack (d : Delivery Incoming)
  | nack (d : Delivery Incoming)

def Command.Answer : Command → Type
  | isCached _ _ | existsSafeContracts _ => Bool
  | remember _ _ | removeSession | send _ | ack _ | nack _ => Unit

abbrev Callback := Proc Command Command.Answer PyError

def issue (c : Command) : Callback c.Answer := Proc.perform c

variable (consumer : ℕ)

def safeContractsExist (chainId : Int) : Callback Bool := do
  let cached : Bool ← issue (.isCached consumer chainId)
  if cached then return true
  else do
    let found : Bool ← issue (.existsSafeContracts chainId)
    if found then do
      issue (.remember consumer chainId)
      return true
    else return false

/-- The loop over the addresses of a transaction. -/
def sendContracts (chainId : Int) : List String → Callback Unit
  | [] => return ()
  | address :: rest => do
    if address ≠ nullAddressText then
      issue (.send (.getContractMetadata { address := address, chainId := chainId }))
    sendContracts chainId rest

def sendTransaction (t : Transaction) : Callback Unit := do
  let exist ← safeContractsExist consumer t.chainId
  if !exist then issue (.send (.createSafeContractsForNewChains t.chainId))
  sendContracts t.chainId t.contracts

variable (P : Packages)

/-- The session of the database is removed however the processing ends. -/
def processEvent (message : String) : Callback Unit :=
  Proc.ensuring
    (do
      match ← fromExcept (readEvent P message) with
      | none => return ()
      | some t => sendTransaction consumer t)
    (issue .removeSession)

/-- `if body: await callback(body.decode("utf-8"))` -/
def handleBody (d : Delivery Incoming) : Callback Unit :=
  if !d.message.body.isEmpty then do
    let text ← fromExcept (decodeUtf8 d.message.body)
    processEvent d.consumer P text
  else return ()

def wrappedCallback (d : Delivery Incoming) : Callback Unit :=
  catchOnly isException
    (do
      handleBody P d
      issue (.ack d))
    fun _ => issue (.nack d)

variable (inst : Installation)

/-- What the commands do. Each of those that are awaited may fail, a task may have been
enqueued and an answer written although the command fails, and an answer that was written
is on its way only. -/
inductive Exec : Broker → Unit → (c : Command) → Except PyError c.Answer → Broker → Unit → Prop
  | isCached {s : Broker} (consumer : ℕ) (chainId : Int) : Exec s () (.isCached consumer chainId)
      (.ok (decide ((consumer,chainId) ∈ s.safeContractsCache))) s ()
  | existsSafeContracts {s : Broker} {chainId : Int} {r : Except PyError Bool}
      (h : Events.existsSafeContracts s.db chainId (safeAddresses inst) = r) :
      Exec s () (.existsSafeContracts chainId) r s ()
  | unanswered {s : Broker} (chainId : Int) (e : PyError) :
      Exec s () (.existsSafeContracts chainId) (.error e) s ()
  | remember {s : Broker} (consumer : ℕ) (chainId : Int) : Exec s () (.remember consumer chainId) (.ok ())
      { s with safeContractsCache := (consumer,chainId) :: s.safeContractsCache } ()
  | removeSession {s : Broker} (r : Except PyError Unit) : Exec s () .removeSession r s ()
  | send {s : Broker} (job : Job) (r : Except PyError Unit) :
      Exec s () (.send job) r { s with sent := s.sent ++ [job] } ()
  | unsent {s : Broker} (job : Job) (e : PyError) : Exec s () (.send job) (.error e) s ()
  | ack {s : Broker} (d : Delivery Incoming) (r : Except PyError Unit) :
      Exec s () (.ack d) r { s with queue := s.queue.answer (.ack d) } ()
  | unacked {s : Broker} (d : Delivery Incoming) (e : PyError) : Exec s () (.ack d) (.error e) s ()
  | nack {s : Broker} (d : Delivery Incoming) (r : Except PyError Unit) :
      Exec s () (.nack d) r { s with queue := s.queue.answer (.nack d) } ()
  | unnacked {s : Broker} (d : Delivery Incoming) (e : PyError) : Exec s () (.nack d) (.error e) s ()

inductive Move
  | publish (m : Incoming)
  | deliver (consumer : ℕ) (m : Incoming)
  | disconnect (consumer : ℕ)
  | settle (f : Frame Incoming)
  | database (db : Db)

/-- A message may go to any consumer, and a connection that was lost is made again. -/
inductive Moves : Move → Broker → Broker → List (Delivery Incoming) → Prop
  | publish {s : Broker} {m : Incoming} (new : m ∉ s.queue.published) :
      Moves (.publish m) s { s with queue := s.queue.publish m } []
  | deliver {s : Broker} (consumer : ℕ) {m : Incoming} (waits : m ∈ s.queue.ready) :
      Moves (.deliver consumer m) s { s with queue := s.queue.deliver consumer m }
        [⟨s.queue.nextTag,consumer,m⟩]
  | disconnect {s : Broker} (consumer : ℕ) :
      Moves (.disconnect consumer) s { s with queue := s.queue.requeue consumer } []
  | settle {s : Broker} {f : Frame Incoming} (sent : f ∈ s.queue.frames)
      (unsettled : f.delivery ∈ s.queue.unacked) :
      Moves (.settle f) s { s with queue := s.queue.settle f } []
  | database {s : Broker} (db : Db) : Moves (.database db) s { s with db := db } []

def service : Machine Command Command.Answer PyError Broker Unit Move (Delivery Incoming) Unit where
  exec := Exec inst
  move := Moves
  program := wrappedCallback P
  session := ()

end Model

section Undisturbed
variable {P : Packages} {inst : Installation} {db : Db} {q : Ledger Incoming} {consumer : ℕ}
  {s s' : Broker} {t : EventsState}

/-- The answers when everything works. -/
def respond (inst : Installation) (s : Broker) (_ : Unit) :
    (c : Command) → Except PyError c.Answer × Broker × Unit
  | .isCached consumer chainId => (.ok (decide ((consumer,chainId) ∈ s.safeContractsCache)),s,())
  | .existsSafeContracts chainId =>
    (Events.existsSafeContracts s.db chainId (safeAddresses inst),s,())
  | .remember consumer chainId =>
    (.ok (),{ s with safeContractsCache := (consumer,chainId) :: s.safeContractsCache },())
  | .removeSession => (.ok (),s,())
  | .send job => (.ok (),{ s with sent := s.sent ++ [job] },())
  | .ack d => (.ok (),{ s with queue := s.queue.answer (.ack d) },())
  | .nack d => (.ok (),{ s with queue := s.queue.answer (.nack d) },())

theorem respond_allowed : (service P inst).Allows (fun _ => True) (respond inst) := by
  rintro s ⟨⟩ c -
  cases c with
  | isCached consumer chainId => exact .isCached consumer chainId
  | existsSafeContracts chainId => exact .existsSafeContracts rfl
  | remember consumer chainId => exact .remember consumer chainId
  | removeSession => exact .removeSession (.ok ())
  | send job => exact .send job (.ok ())
  | ack d => exact .ack d (.ok ())
  | nack d => exact .nack d (.ok ())

/-- The consumer remembers what the service of the events does, and the same tasks have been sent. -/
structure Mirrors (db : Db) (q : Ledger Incoming) (consumer : ℕ) (s : Broker) (t : EventsState) :
    Prop where
  database : s.db = db
  queue : s.queue = q
  cache : ∀ n, (consumer,n) ∈ s.safeContractsCache ↔ n ∈ t.safeContractsCache
  sent : s.sent = t.sent

theorem Mirrors.remember (h : Mirrors db q consumer s t) {chainId : Int} (hfits : fitsBigInt chainId) :
    Mirrors db q consumer { s with safeContractsCache := (consumer,chainId) :: s.safeContractsCache }
      (t.remember chainId hfits) :=
  ⟨h.database,h.queue,fun n => by simp [EventsState.remember, h.cache n],h.sent⟩

theorem Mirrors.send (h : Mirrors db q consumer s t) (job : Job) :
    Mirrors db q consumer { s with sent := s.sent ++ [job] } (t.send job) :=
  ⟨h.database,h.queue,h.cache,by rw [EventsState.send, h.sent]⟩

theorem Mirrors.answer (h : Mirrors db q consumer s t) (f : Frame Incoming) :
    Mirrors db (q.answer f) consumer { s with queue := s.queue.answer f } t :=
  ⟨h.database,by rw [h.queue],h.cache,h.sent⟩

variable (inst db q consumer) in
/-- A callback that does what the service of the events does. -/
abbrev likeEvents : MonadRel PyError Callback Events.Service :=
  evaluatesRel (respond inst) fun s _ t => Mirrors db q consumer s t

theorem safeContractsExist_likeEvents (chainId : Int) : (likeEvents inst db q consumer).Rel
    (safeContractsExist consumer chainId) (Events.safeContractsExist inst db chainId) := by
  rintro s ⟨⟩ t h
  rw [Events.safeContractsExist_eq]
  apply EndsLike.call rfl
  by_cases hcached : chainId ∈ t.safeContractsCache
  · rw [if_pos hcached, decide_eq_true ((h.cache chainId).mpr hcached)]
    exact .ok h
  · rw [if_neg hcached, decide_eq_false fun hmem => hcached ((h.cache chainId).mp hmem)]
    have hasked : respond inst s () (.existsSafeContracts chainId) =
        (Events.existsSafeContracts db chainId (safeAddresses inst),s,()) := by
      rw [respond, h.database]
      rfl
    apply EndsLike.call hasked
    generalize Events.fits_of_existsSafeContracts = hfits
    revert hfits
    cases Events.existsSafeContracts db chainId (safeAddresses inst) with
    | error e => exact fun _ => .error h
    | ok found =>
      intro hfits
      cases found with
      | false => exact .ok h
      | true =>
        apply EndsLike.call rfl
        exact .ok (h.remember (hfits rfl))

theorem send_likeEvents (job : Job) : (likeEvents inst db q consumer).Rel
    (issue (.send job)) (modify (EventsState.send job)) :=
  fun _ _ _ h => .ok (h.send job)

theorem sendContracts_likeEvents (chainId : Int) (contracts : List String) :
    (likeEvents inst db q consumer).Rel (sendContracts chainId contracts)
      (Events.sendContracts chainId contracts) := by
  induction contracts with
  | nil => exact (likeEvents inst db q consumer).pure ()
  | cons address rest ih =>
    rw [sendContracts, Events.sendContracts]
    split
    · exact (likeEvents inst db q consumer).bind (send_likeEvents _) fun _ => ih
    · exact ih

theorem sendTransaction_likeEvents (t : Transaction) : (likeEvents inst db q consumer).Rel
    (sendTransaction consumer t) (carryOut inst db (some t)) := by
  refine (likeEvents inst db q consumer).bind (safeContractsExist_likeEvents t.chainId) fun exist => ?_
  cases exist with
  | true => exact sendContracts_likeEvents _ _
  | false =>
    exact (likeEvents inst db q consumer).bind (send_likeEvents _) fun _ => sendContracts_likeEvents _ _

theorem processEvent_likeEvents (message : String) : (likeEvents inst db q consumer).Rel
    (processEvent consumer P message) (Events.processEvent P inst db message) := by
  rw [processEvent_eq]
  intro s l t h
  have hbody : (likeEvents inst db q consumer).Rel
      (do
        match ← fromExcept (readEvent P message) with
        | none => return ()
        | some t => sendTransaction consumer t) (fromExcept (readEvent P message) >>= carryOut inst db) := by
    refine (likeEvents inst db q consumer).bind ((likeEvents inst db q consumer).lift _) fun found => ?_
    cases found with
    | none => exact (likeEvents inst db q consumer).pure ()
    | some t => exact sendTransaction_likeEvents t
  have hremoved : ∀ s l, (issue .removeSession).eval (respond inst) s l = (.ok (),s,l) := fun _ _ => rfl
  have heval : (processEvent consumer P message).eval (respond inst) s l = _ :=
    Proc.eval_ensuring _ hremoved
  rw [heval]
  exact hbody s l t h

variable (P inst) in
theorem handleBody_likeEvents (d : Delivery Incoming) : (likeEvents inst db q d.consumer).Rel (handleBody P d)
    (if !d.message.body.isEmpty then
      fromExcept (decodeUtf8 d.message.body) >>= Events.processEvent P inst db
    else return ()) := by
  rw [handleBody]
  split
  · exact (likeEvents inst db q d.consumer).bind ((likeEvents inst db q d.consumer).lift _)
      processEvent_likeEvents
  · exact (likeEvents inst db q d.consumer).pure ()

/-- The callback ends as the service of the events does, and has answered as that says. -/
inductive AnswersLike (d : Delivery Incoming) (s s' : Broker) :
    Except PyError Unit → EStateM.Result PyError EventsState Acknowledgement → Prop
  | ack {t : EventsState} (h : Mirrors s.db (s.queue.answer (.ack d)) d.consumer s' t) :
      AnswersLike d s s' (.ok ()) (.ok .ack t)
  | nack {t : EventsState} (h : Mirrors s.db (s.queue.answer (.nack d)) d.consumer s' t) :
      AnswersLike d s s' (.ok ()) (.ok .nack t)
  | error {e : PyError} {t : EventsState} (h : Mirrors s.db s.queue d.consumer s' t) :
      AnswersLike d s s' (.error e) (.error e t)

/-- The answer of the service depends on how the processing ends. -/
theorem wrappedCallback_eq (callback : String → Events.Service Unit) (body : Bytes) (t : EventsState) :
    Events.wrappedCallback callback body t =
      match (if !body.isEmpty then fromExcept (decodeUtf8 body) >>= callback
        else return () : Events.Service Unit) t with
      | .ok _ u => .ok .ack u
      | .error e u => if isException e then .ok .nack u else .error e u := by
  have hbody : Events.wrappedCallback callback body =
      catchOnly isException
        ((if !body.isEmpty then fromExcept (decodeUtf8 body) >>= callback else return ()) >>= fun _ =>
          return .ack) fun _ => return .nack := by
    rw [Events.wrappedCallback]
    cases body.isEmpty with
    | true => rfl
    | false => simp only [Bool.not_false, if_true, bind_assoc]
  rw [hbody]
  generalize (if !body.isEmpty then fromExcept (decodeUtf8 body) >>= callback
    else return () : Events.Service Unit) = x
  cases hx : x t with
  | ok a u => exact run_catchOnly_ok (run_bind_ok hx)
  | error e u => exact run_catchOnly_error (run_bind_error hx)

variable (P inst) in
theorem wrappedCallback_answersLike {d : Delivery Incoming} (h : Mirrors s.db s.queue d.consumer s t) :
    ∃ r s', (wrappedCallback P d).eval (respond inst) s () = (r,s',()) ∧
      AnswersLike d s s' r
        (Events.wrappedCallback (Events.processEvent P inst s.db) d.message.body t) := by
  have hends : EndsLike _ _ _ := handleBody_likeEvents P inst d s () t h
  have heval : (wrappedCallback P d).eval (respond inst) s () = _ :=
    Proc.eval_handle ((handleBody P d).bind fun _ => (issue (.ack d) : Callback Unit)) _
  rw [Proc.eval_bind] at heval
  rw [wrappedCallback_eq]
  generalize (handleBody P d).eval (respond inst) s () = r at hends heval
  generalize (if !d.message.body.isEmpty then
      fromExcept (decodeUtf8 d.message.body) >>= Events.processEvent P inst s.db
    else return () : Events.Service Unit) t = z at hends
  cases hends with
  | ok h => exact ⟨_,_,heval,.ack (h.answer _)⟩
  | @error e s' l t h =>
    cases hexception : isException e with
    | true =>
      simp only [hexception] at heval ⊢
      exact ⟨_,_,heval,.nack (h.answer _)⟩
    | false =>
      simp only [hexception] at heval ⊢
      exact ⟨_,_,heval,.error h⟩

/-- A callback that nobody disturbs and none of whose commands fails does with its message what the
service of the events does. -/
theorem wrappedCallback_alone {d : Delivery Incoming} (h : Mirrors s.db s.queue d.consumer s t) :
    ∃ tr y r s', (service P inst).Alone (wrappedCallback P d) s () tr y s' () ∧ y.outcome? = some r ∧
      AnswersLike d s s' r
        (Events.wrappedCallback (Events.processEvent P inst s.db) d.message.body t) := by
  obtain ⟨r,s',heval,hlike⟩ := wrappedCallback_answersLike P inst h
  obtain ⟨tr,y,halone,hend⟩ := Machine.exists_alone respond_allowed (Issues.of_all (fun _ => trivial) _) heval
  exact ⟨tr,y,r,s',halone,hend,hlike⟩

end Undisturbed

section Jobs
variable (P : Packages)

/-- How a callback has found out about the contracts of its chain. -/
inductive Check
  | cached (chainId : Int)
  | asked (chainId : Int) (found : Bool)

def Check.chainId : Check → Int
  | cached chainId | asked chainId _ => chainId

def Check.exist : Check → Bool
  | cached _ => true
  | asked _ found => found

/-- The tasks for the contracts of a transaction. -/
def contractJobs (chainId : Int) (contracts : List String) : List Job :=
  (contracts.filter fun a => a ≠ nullAddressText).map fun a =>
    .getContractMetadata { address := a, chainId := chainId }

/-- The task for the chain of a transaction, if its contracts were not found. -/
def chainJobs (k : Check) : List Job :=
  if k.exist then [] else [.createSafeContractsForNewChains k.chainId]

/-- The tasks that a message asks for, by what its callback has found out. -/
inductive AsksFor (body : Bytes) : Option Check → List Job → Prop
  | empty (h : body = []) : AsksFor body none []
  | nothing {text : String} (htext : decodeUtf8 body = .ok text) (h : readEvent P text = .ok none) :
      AsksFor body none []
  | transaction {text : String} {t : Transaction} {k : Check} (htext : decodeUtf8 body = .ok text)
      (h : readEvent P text = .ok (some t)) (hchain : k.chainId = t.chainId) :
      AsksFor body (some k) (chainJobs k ++ contractJobs t.chainId t.contracts)

/-- What the reader of the message raises for. -/
def Unreadable (body : Bytes) : Prop :=
  (∃ e, decodeUtf8 body = .error e) ∨ ∃ text e, decodeUtf8 body = .ok text ∧ readEvent P text = .error e

end Jobs

section Watching

/-- What a callback has found out and sent, and which of its commands have failed. -/
structure Share where
  delivery : Delivery Incoming
  check : Option Check
  jobs : List Job
  failures : List (Command × PyError)

def Share.fresh (d : Delivery Incoming) : Share := ⟨d,none,[],[]⟩

def Share.look (k : Check) (share : Share) : Share := { share with check := some k }

def Share.remembers (chainId : Int) (cached : Bool) (share : Share) : Share :=
  if cached then share.look (.cached chainId) else share

def Share.add (job : Job) (share : Share) : Share := { share with jobs := share.jobs ++ [job] }

def Share.fail (c : Command) (e : PyError) (share : Share) : Share :=
  { share with failures := share.failures ++ [(c,e)] }

def unsureJob : Command × PyError → Option Job
  | (.send job,_) => some job
  | _ => none

/-- The tasks that may have been enqueued although the sending failed. -/
def Share.unsure (share : Share) : List Job := share.failures.filterMap unsureJob

def watch (g : List Share) (s : Broker) : Event Command Command.Answer PyError Move → List Share
  | .own i c (.error e) => g.modify i (Share.fail c e)
  | .own i (.isCached _ chainId) (.ok cached) => g.modify i (Share.remembers chainId cached)
  | .own i (.existsSafeContracts chainId) (.ok found) => g.modify i (Share.look (.asked chainId found))
  | .own i (.send job) (.ok _) => g.modify i (Share.add job)
  | .env (.deliver consumer m) => g ++ [.fresh ⟨s.queue.nextTag,consumer,m⟩]
  | _ => g

variable (P : Packages)

/-- The jobs are a part of those that the message asks for. -/
def Part (body : Bytes) (check : Option Check) (js : List Job) : Prop :=
  js = [] ∨ ∃ jobs, AsksFor P body check jobs ∧ js <+: jobs

/-- What has been sent are the tasks of the callbacks, and of those whose sending failed
some. -/
def Covers (sent : List Job) (g : List Share) : Prop :=
  ∃ unsure, unsure.Subperm (g.flatMap Share.unsure) ∧ sent.Perm (g.flatMap Share.jobs ++ unsure)

/-- A callback of the consumer has found the contracts of the chain in the database. -/
def Found (g : List Share) (consumer : ℕ) (chainId : Int) : Prop :=
  ∃ share ∈ g, share.delivery.consumer = consumer ∧ share.check = some (.asked chainId true)

/-- What a share says of its message, given how it has been answered. -/
structure Accounted (q : Ledger Incoming) (share : Share) : Prop where
  part : Part P share.delivery.message.body share.check (share.jobs ++ share.unsure)
  acked : q.AckSent share.delivery → AsksFor P share.delivery.message.body share.check share.jobs
  nacked : q.NackSent share.delivery →
    share.failures ≠ [] ∨ Unreadable P share.delivery.message.body

structure Inv (s : Broker × List Share) : Prop where
  conserved : s.1.queue.Conserved
  published : s.1.queue.published.Nodup
  nodup : (s.2.map Share.delivery).Nodup
  tags : ∀ share ∈ s.2, share.delivery.tag < s.1.queue.nextTag
  known : ∀ d ∈ s.1.queue.deliveries, d ∈ s.2.map Share.delivery
  sent : Covers s.1.sent s.2
  accounted : ∀ share ∈ s.2, Accounted P s.1.queue share
  cache : ∀ x ∈ s.1.safeContractsCache, Found s.2 x.1 x.2
  cached : ∀ share ∈ s.2, ∀ chainId, share.check = some (.cached chainId) →
    Found s.2 share.delivery.consumer chainId

/-- The share of the callback with number `i` stays as it is, and nobody answers for it. -/
def Kept (i : ℕ) (s t : Broker × List Share) : Prop :=
  ∀ share, s.2[i]? = some share →
    t.2[i]? = some share ∧ Ledger.NoNews share.delivery s.1.queue t.1.queue

theorem Kept.refl (i : ℕ) (s : Broker × List Share) : Kept i s s :=
  fun _ h => ⟨h,.refl _ _⟩

def discipline : Discipline (Broker × List Share) where
  inv := Inv P
  rely := Kept
  guar := fun i s t => ∀ j, j ≠ i → Kept j s t
  rely_refl := Kept.refl
  rely_trans := by
    intro i s t u h h' share hshare
    obtain ⟨ht,hnews⟩ := h share hshare
    obtain ⟨hu,hnews'⟩ := h' share ht
    exact ⟨hu,hnews.trans hnews'⟩

theorem discipline_shared : (discipline P).Shared := fun hij h => h _ (Ne.symm hij)

abbrev sized (g : List Share) (n : ℕ) : Prop := g.length = n

/-- No command has failed, the message is not acknowledged, and this has been found out and sent. -/
structure At (i : ℕ) (d : Delivery Incoming) (check : Option Check) (jobs : List Job)
    (s : Broker × List Share) : Prop where
  share : s.2[i]? = some ⟨d,check,jobs,[]⟩
  acked : ¬s.1.queue.AckSent d

/-- The processing of the message is over, and not for the good. -/
def Broken (i : ℕ) (d : Delivery Incoming) (s : Broker × List Share) : Prop :=
  ∃ share, s.2[i]? = some share ∧ share.delivery = d ∧
    (share.failures ≠ [] ∨ Unreadable P d.message.body)

variable {P} {i : ℕ} {d : Delivery Incoming} {check : Option Check} {jobs : List Job}
  {s t : Broker × List Share}

theorem At.rely (h : At i d check jobs s) (hst : Kept i s t) : At i d check jobs t := by
  obtain ⟨ht,hnews⟩ := hst _ h.share
  exact ⟨ht,fun ha => h.acked (hnews.acked ha)⟩

theorem Broken.rely (h : Broken P i d s) (hst : Kept i s t) : Broken P i d t := by
  obtain ⟨share,hshare,hd,hcause⟩ := h
  exact ⟨share,(hst _ hshare).1,hd,hcause⟩

theorem At.unreadable (h : At i d check jobs s) (hbody : Unreadable P d.message.body) : Broken P i d s :=
  ⟨_,h.share,rfl,.inr hbody⟩

end Watching

section Shares
variable {P : Packages} {i j : ℕ} {g : List Share} {s t : Broker} {share : Share} {f : Share → Share}

theorem getElem?_modify_self (h : g[i]? = some share) : (g.modify i f)[i]? = some (f share) := by
  rw [List.getElem?_modify_eq, h]
  rfl

theorem getElem?_modify_other (hij : j ≠ i) : (g.modify i f)[j]? = g[j]? := by
  rw [List.getElem?_modify]
  cases g[j]? with
  | none => rfl
  | some share => simp [Ne.symm hij]

theorem map_delivery_modify (hf : ∀ share, (f share).delivery = share.delivery) :
    (g.modify i f).map Share.delivery = g.map Share.delivery := by
  apply List.ext_getElem?
  intro j
  rw [List.getElem?_map, List.getElem?_map, List.getElem?_modify]
  cases g[j]? with
  | none => rfl
  | some share =>
    by_cases hij : i = j
    · simp [hij, hf]
    · simp [hij]

/-- A change that adds to a list of one share. -/
theorem flatMap_modify {p : Share → List Job} {js : List Job} (h : g[i]? = some share)
    (hp : p (f share) = p share ++ js) : ((g.modify i f).flatMap p).Perm (g.flatMap p ++ js) := by
  induction g generalizing i with
  | nil => cases h
  | cons x rest ih =>
    cases i with
    | zero =>
      cases h
      change (p (f share) ++ rest.flatMap p).Perm ((p share ++ rest.flatMap p) ++ js)
      rw [hp, List.append_assoc, List.append_assoc]
      exact List.perm_append_comm.append_left _
    | succ i =>
      change (p x ++ (rest.modify i f).flatMap p).Perm ((p x ++ rest.flatMap p) ++ js)
      rw [List.append_assoc]
      exact (ih h).append_left _

/-- One share has sent `js`, and of `us`, whose sending failed, some have been enqueued. -/
theorem Covers.modify {sent : List Job} (h : Covers sent g) (js us arrived : List Job) (hshare : g[i]? = some share)
    (hjobs : (f share).jobs = share.jobs ++ js) (hunsure : (f share).unsure = share.unsure ++ us)
    (harrived : arrived.Subperm us) : Covers (sent ++ (js ++ arrived)) (g.modify i f) := by
  obtain ⟨unsure,hsub,hperm⟩ := h
  refine ⟨unsure ++ arrived,?_,?_⟩
  · exact (hsub.append harrived).trans (flatMap_modify hshare hunsure).symm.subperm
  · have hjs := flatMap_modify (p := Share.jobs) hshare hjobs
    calc sent ++ (js ++ arrived)
      List.Perm _ ((g.flatMap Share.jobs ++ unsure) ++ (js ++ arrived)) := hperm.append_right _
      List.Perm _ (g.flatMap Share.jobs ++ (js ++ (unsure ++ arrived))) := by
        rw [List.append_assoc]
        refine List.Perm.append_left _ ?_
        rw [← List.append_assoc, ← List.append_assoc]
        exact List.perm_append_comm.append_right _
      List.Perm _ ((g.modify i f).flatMap Share.jobs ++ (unsure ++ arrived)) := by
        rw [← List.append_assoc]
        exact hjs.symm.append_right _

theorem Covers.same {sent : List Job} (h : Covers sent g) (hshare : g[i]? = some share)
    (hjobs : (f share).jobs = share.jobs) (hunsure : (f share).unsure = share.unsure) :
    Covers sent (g.modify i f) := by
  have hmodify := h.modify (f := f) [] [] [] hshare (by rw [hjobs, List.append_nil])
    (by rw [hunsure, List.append_nil]) (.refl _)
  rwa [List.append_nil, List.append_nil] at hmodify

/-- A share that has not found out anything yet may change. -/
theorem Found.modify {consumer : ℕ} {chainId : Int} (h : Found g consumer chainId)
    (hf : ∀ share, (f share).delivery = share.delivery) (hshare : g[i]? = some share)
    (hlook : share.check = none ∨ (f share).check = share.check) :
    Found (g.modify i f) consumer chainId := by
  obtain ⟨other,hmem,hconsumer,hcheck⟩ := h
  obtain ⟨j,hj⟩ := List.getElem?_of_mem hmem
  by_cases hji : j = i
  · subst hji
    cases hshare.symm.trans hj
    rcases hlook with hnone | hsame
    · cases hnone.symm.trans hcheck
    · exact ⟨f share,List.mem_of_getElem? (getElem?_modify_self hshare),by rw [hf, hconsumer],
        hsame.trans hcheck⟩
  · exact ⟨other,List.mem_of_getElem? ((getElem?_modify_other hji).trans hj),hconsumer,hcheck⟩

/-- Two callbacks have different deliveries. -/
theorem Inv.delivery_ne (h : Inv P (s,g)) {share' : Share} (hij : j ≠ i) (hi : g[i]? = some share)
    (hj : g[j]? = some share') : share'.delivery ≠ share.delivery := by
  intro heq
  have hi' : (g.map Share.delivery)[i]? = some share.delivery := by rw [List.getElem?_map, hi]; rfl
  have hj' : (g.map Share.delivery)[j]? = some share.delivery := by
    rw [List.getElem?_map, hj, ← heq]
    rfl
  obtain ⟨hlti,hei⟩ := List.getElem?_eq_some_iff.mp hi'
  obtain ⟨hltj,hej⟩ := List.getElem?_eq_some_iff.mp hj'
  exact hij ((List.Nodup.getElem_inj_iff h.nodup).mp (hej.trans hei.symm))

theorem Accounted.later {q p : Ledger Incoming} (h : Accounted P q share)
    (hnews : Ledger.NoNews share.delivery q p) : Accounted P p share :=
  ⟨h.part,fun ha => h.acked (hnews.acked ha),fun hn => h.nacked (hnews.nacked hn)⟩

/-- At most an answer for the delivery is sent. -/
def Speaks (d : Delivery Incoming) (q p : Ledger Incoming) : Prop :=
  p = q ∨ ∃ f : Frame Incoming, f.delivery = d ∧ p = q.answer f

theorem Speaks.noNews {d x : Delivery Incoming} {q p : Ledger Incoming} (h : Speaks d q p) (hx : x ≠ d) :
    Ledger.NoNews x q p := by
  obtain rfl | ⟨f,rfl,rfl⟩ := h
  · exact .refl _ _
  · exact .answer hx.symm

theorem Speaks.conserved {d : Delivery Incoming} {q p : Ledger Incoming} (h : Speaks d q p)
    (hq : q.Conserved) (hd : d.tag < q.nextTag) : p.Conserved := by
  obtain rfl | ⟨f,rfl,rfl⟩ := h
  · exact hq
  · exact hq.answer hd

/-- A step of a callback changes its own share and answers for its own message at most. -/
theorem Inv.modify (h : Inv P (s,g)) (hshare : g[i]? = some share)
    (hf : ∀ share, (f share).delivery = share.delivery) (hqueue : Speaks share.delivery s.queue t.queue)
    (hsent : Covers t.sent (g.modify i f)) (hself : Accounted P t.queue (f share))
    (hlook : share.check = none ∨ (f share).check = share.check)
    (hcache : ∀ x ∈ t.safeContractsCache, x ∈ s.safeContractsCache ∨ Found g x.1 x.2)
    (hcached : ∀ chainId, (f share).check = some (.cached chainId) →
      share.check = some (.cached chainId) ∨ (share.delivery.consumer,chainId) ∈ s.safeContractsCache) :
    Inv P (t,g.modify i f) ∧ ∀ j, j ≠ i → Kept j (s,g) (t,g.modify i f) := by
  have hdelivery : (g.modify i f).map Share.delivery = g.map Share.delivery := map_delivery_modify hf
  have hmem : share ∈ g := List.mem_of_getElem? hshare
  have hsame : t.queue.published = s.queue.published ∧ t.queue.nextTag = s.queue.nextTag ∧
      t.queue.deliveries = s.queue.deliveries := by
    obtain hq | ⟨_,_,hq⟩ := hqueue <;> rw [hq] <;> exact ⟨rfl,rfl,rfl⟩
  obtain ⟨hpublished,htag,hdeliveries⟩ := hsame
  have hnews : ∀ {j share'}, j ≠ i → g[j]? = some share' →
      Ledger.NoNews share'.delivery s.queue t.queue :=
    fun hj hshare' => hqueue.noNews (h.delivery_ne hj hshare hshare')
  have hfound : ∀ {consumer chainId}, Found g consumer chainId → Found (g.modify i f) consumer chainId :=
    fun hfound => hfound.modify hf hshare hlook
  have hold : ∀ {share'}, share' ∈ g.modify i f → share' = f share ∨
      ∃ j, j ≠ i ∧ g[j]? = some share' := by
    intro share' hshare'
    obtain ⟨j,hj⟩ := List.getElem?_of_mem hshare'
    by_cases hji : j = i
    · subst hji
      exact .inl (Option.some.inj (hj.symm.trans (getElem?_modify_self hshare)))
    · exact .inr ⟨j,hji,(getElem?_modify_other hji).symm.trans hj⟩
  refine ⟨⟨hqueue.conserved h.conserved (h.tags share hmem),hpublished ▸ h.published,?_,fun share' hs' => ?_,
    fun d hd => ?_,hsent,fun share' hs' => ?_,fun x hx => ?_,fun share' hs' chainId hc => ?_⟩,
    fun j hj share' hshare' => ⟨(getElem?_modify_other hj).trans hshare',hnews hj hshare'⟩⟩
  · change ((g.modify i f).map Share.delivery).Nodup
    rw [hdelivery]
    exact h.nodup
  · change share'.delivery.tag < t.queue.nextTag
    rw [htag]
    obtain rfl | ⟨j,_,hj⟩ := hold hs'
    · rw [hf]
      exact h.tags share hmem
    · exact h.tags share' (List.mem_of_getElem? hj)
  · change d ∈ t.queue.deliveries at hd
    change d ∈ (g.modify i f).map Share.delivery
    rw [hdelivery]
    rw [hdeliveries] at hd
    exact h.known d hd
  · obtain rfl | ⟨j,hji,hj⟩ := hold hs'
    · exact hself
    · exact (h.accounted share' (List.mem_of_getElem? hj)).later (hnews hji hj)
  · rcases hcache x hx with hbefore | hfound'
    · exact hfound (h.cache x hbefore)
    · exact hfound hfound'
  · obtain rfl | ⟨j,_,hj⟩ := hold hs'
    · rw [hf]
      rcases hcached chainId hc with hbefore | hcache'
      · exact hfound (h.cached share hmem chainId hbefore)
      · exact hfound (h.cache _ hcache')
    · exact hfound (h.cached share' (List.mem_of_getElem? hj) chainId hc)

end Shares

section Commands
variable {P : Packages} {inst : Installation} {i : ℕ} {l l' : Unit} {c : Command}
  {s t : Broker} {g : List Share} {share : Share}

/-- A command of the callback with number `i`. -/
abbrev Does (P : Packages) (inst : Installation) (i : ℕ) : Broker × List Share → Unit →
    (c : Command) → Except PyError c.Answer → Broker × List Share → Unit → Prop :=
  (service P inst).recorded watch i

abbrev Keeps (P : Packages) (i : ℕ) (s t : Broker × List Share) : Prop :=
  (discipline P).inv t ∧ (discipline P).guar i s t

/-- What a callback may do by what it has sent: a task that the message asks for comes
next, and an acknowledgement comes last. -/
def Fits (P : Packages) (share : Share) : Command → Prop
  | .send job => Part P share.delivery.message.body share.check (share.jobs ++ (share.unsure ++ [job]))
  | .ack d => d = share.delivery ∧ AsksFor P share.delivery.message.body share.check share.jobs
  | .nack d => d = share.delivery
  | _ => True

theorem unsure_fail (c : Command) (e : PyError) :
    (share.fail c e).unsure = share.unsure ++ (unsureJob (c,e)).toList := by
  rw [Share.unsure, Share.fail, List.filterMap_append, Share.unsure]
  congr 1

/-- A step after which the shares are as before. -/
theorem Inv.unchanged (h : Inv P (s,g)) (hshare : g[i]? = some share)
    (hqueue : Speaks share.delivery s.queue t.queue) (hsent : t.sent = s.sent)
    (hself : Accounted P t.queue share)
    (hcache : ∀ x ∈ t.safeContractsCache, x ∈ s.safeContractsCache ∨ Found g x.1 x.2) :
    Keeps P i (s,g) (t,g) := by
  have hid : g.modify i id = g := List.modify_id i g
  have hkeeps := h.modify (f := id) hshare (fun _ => rfl) hqueue (by rw [hid, hsent]; exact h.sent) hself
    (.inr rfl) hcache fun _ hc => .inl hc
  rwa [hid] at hkeeps

/-- A callback finds something out before it sends. -/
theorem Inv.looks (h : Inv P (s,g)) {d : Delivery Incoming} {k : Check}
    (hshare : g[i]? = some (.fresh d)) (hacked : ¬s.queue.AckSent d)
    (hk : ∀ chainId, k = .cached chainId → (d.consumer,chainId) ∈ s.safeContractsCache) :
    Keeps P i (s,g) (s,g.modify i (Share.look k)) := by
  have hold := h.accounted _ (List.mem_of_getElem? hshare)
  refine h.modify hshare (fun _ => rfl) (.inl rfl) (h.sent.same hshare rfl rfl)
    ⟨.inl rfl,fun ha => absurd ha hacked,hold.nacked⟩ (.inl rfl) (fun x hx => .inl hx)
    fun chainId hc => .inr (hk chainId (Option.some.inj hc))

/-- A command that fails, whatever it has brought about. -/
theorem Inv.fails (h : Inv P (s,g)) (hshare : g[i]? = some share) (hfits : Fits P share c) {e : PyError}
    (he : Exec inst s l c (.error e) t l') :
    Keeps P i (s,g) (t,g.modify i (Share.fail c e)) := by
  have hold := h.accounted _ (List.mem_of_getElem? hshare)
  have hnone : unsureJob (c,e) = none → (share.fail c e).unsure = share.unsure := by
    intro hjob
    rw [unsure_fail, hjob]
    exact List.append_nil _
  have hfail : ∀ {q : Ledger Incoming}, unsureJob (c,e) = none →
      (q.AckSent share.delivery → AsksFor P share.delivery.message.body share.check share.jobs) →
        Accounted P q (share.fail c e) := by
    intro q hjob hacked
    refine ⟨?_,hacked,fun _ => .inl (by simp [Share.fail])⟩
    change Part P _ _ (share.jobs ++ (share.fail c e).unsure)
    rw [hnone hjob]
    exact hold.part
  have hquiet : unsureJob (c,e) = none → t = s → Keeps P i (s,g) (t,g.modify i (Share.fail c e)) := by
    intro hjob ht
    subst ht
    exact h.modify hshare (fun _ => rfl) (.inl rfl) (h.sent.same hshare rfl (hnone hjob))
      (hfail hjob hold.acked) (.inr rfl) (fun x hx => .inl hx) fun _ hc => .inl hc
  have hanswer : ∀ {f : Frame Incoming}, unsureJob (c,e) = none → f.delivery = share.delivery →
      ((s.queue.answer f).AckSent share.delivery →
        AsksFor P share.delivery.message.body share.check share.jobs) →
        Keeps P i (s,g) ({ s with queue := s.queue.answer f },g.modify i (Share.fail c e)) := by
    intro f hjob hf hacked
    exact h.modify hshare (fun _ => rfl) (.inr ⟨f,hf,rfl⟩) (h.sent.same hshare rfl (hnone hjob))
      (hfail hjob hacked) (.inr rfl) (fun x hx => .inl hx) fun _ hc => .inl hc
  have hsend : ∀ (arrived : List Job) {job : Job} {e : PyError}, arrived.Subperm [job] →
      Fits P share (.send job) → Keeps P i (s,g)
        ({ s with sent := s.sent ++ arrived },g.modify i (Share.fail (.send job) e)) := by
    intro arrived job e harrived hpart
    have hunsure : (share.fail (.send job) e).unsure = share.unsure ++ [job] := unsure_fail _ _
    refine h.modify hshare (fun _ => rfl) (.inl rfl)
      (h.sent.modify [] [job] arrived hshare (List.append_nil _).symm hunsure harrived)
      ⟨?_,hold.acked,fun _ => .inl (by simp [Share.fail])⟩ (.inr rfl) (fun x hx => .inl hx)
      fun _ hc => .inl hc
    change Part P _ _ (share.jobs ++ (share.fail (.send job) e).unsure)
    rw [hunsure]
    exact hpart
  cases he with
  | existsSafeContracts hr => exact hquiet rfl rfl
  | unanswered chainId e => exact hquiet rfl rfl
  | removeSession r => exact hquiet rfl rfl
  | send job r => exact hsend [job] (.refl _) hfits
  | unsent job e =>
    have hnothing := hsend [] (e := e) List.nil_subperm hfits
    rwa [List.append_nil] at hnothing
  | ack d r =>
    obtain ⟨rfl,hasks⟩ := hfits
    exact hanswer rfl rfl fun _ => hasks
  | unacked d e => exact hquiet rfl rfl
  | nack d r =>
    cases hfits
    exact hanswer rfl rfl fun ha => hold.acked (ha.imp_right fun hmem => by simpa [Ledger.answer] using hmem)
  | unnacked d e => exact hquiet rfl rfl

end Commands

section Rules
variable {P : Packages} {inst : Installation} {i : ℕ} {d : Delivery Incoming} {check : Option Check}
  {jobs : List Job} {s : Broker × List Share} {l : Unit} {β : Type}
  {Q : Except PyError β → Broker × List Share → Unit → Prop}

/-- The command has failed. -/
def Failed (i : ℕ) (d : Delivery Incoming) (c : Command) (e : PyError) (s : Broker × List Share) : Prop :=
  ∃ share, s.2[i]? = some share ∧ share.delivery = d ∧ (c,e) ∈ share.failures

theorem Failed.broken {c : Command} {e : PyError} (h : Failed i d c e s) : Broken P i d s := by
  obtain ⟨share,hshare,hd,hmem⟩ := h
  exact ⟨share,hshare,hd,.inl (List.ne_nil_of_mem hmem)⟩

theorem Failed.rely {c : Command} {e : PyError} {t : Broker × List Share} (h : Failed i d c e s)
    (hst : Kept i s t) : Failed i d c e t := by
  obtain ⟨share,hshare,hd,hmem⟩ := h
  exact ⟨share,(hst _ hshare).1,hd,hmem⟩

/-- How far a callback is before one of its commands. -/
structure Stage (P : Packages) (i : ℕ) (d : Delivery Incoming) (c : Command)
    (I : Broker × List Share → Prop) : Prop where
  rely : ∀ {s t}, I s → Kept i s t → I t
  share : ∀ {s}, I s → ∃ share, s.2[i]? = some share ∧ share.delivery = d ∧ Fits P share c

theorem at_stage {c : Command} (h : Fits P ⟨d,check,jobs,[]⟩ c) : Stage P i d c (At i d check jobs) where
  rely := At.rely
  share := fun hat => ⟨_,hat.share,rfl,h⟩

theorem broken_stage {c : Command} (h : ∀ share, share.delivery = d → Fits P share c) :
    Stage P i d c (Broken P i d) where
  rely := Broken.rely
  share := fun ⟨share,hshare,hd,_⟩ => ⟨share,hshare,hd,h share hd⟩

/-- A command that succeeds goes on as `hok` says, and one that fails has been noted. -/
theorem call_meets {c : Command} {x : c.Answer → Callback β} {I : Broker × List Share → Prop}
    (hI : Stage P i d c I) (hs : I s)
    (hok : ∀ {t t' : Broker} {g : List Share} {a : c.Answer} {l : Unit}, I (t,g) → Inv P (t,g) →
      Exec inst t () c (.ok a) t' () → Keeps P i (t,g) (t',watch g t (.own i c (.ok a))) ∧
        Meets (discipline P) i (Does P inst i) Q (x a) (t',watch g t (.own i c (.ok a))) l)
    (herror : ∀ e t l, Failed i d c e t → Q (.error e) t l) :
    Meets (discipline P) i (Does P inst i) Q ((issue c).bind x) s l := by
  apply Meets.call
  rintro ⟨t,g⟩ hst hi r ⟨t',g'⟩ l' ⟨he,hg⟩
  cases (show g' = watch g t (.own i c r) from hg)
  have ht := hI.rely hs hst
  cases r with
  | ok a => exact hok ht hi he
  | error e =>
    obtain ⟨share,hshare,hd,hfits⟩ := hI.share ht
    have hwatch : watch g t (.own i c (.error e)) = g.modify i (Share.fail c e) := by cases c <;> rfl
    rw [hwatch]
    refine ⟨hi.fails hshare hfits he,Meets.raise fun u hu _ => herror e u _ ?_⟩
    have hfailed : Failed i d c e (t',g.modify i (Share.fail c e)) :=
      ⟨share.fail c e,getElem?_modify_self hshare,hd,by simp [Share.fail]⟩
    exact hfailed.rely hu

theorem isCached_meets {chainId : Int} {x : Bool → Callback β} (hs : At i d none [] s)
    (hhit : ∀ t l, At i d (some (.cached chainId)) [] t →
      Meets (discipline P) i (Does P inst i) Q (x true) t l)
    (hmiss : ∀ t l, At i d none [] t → Meets (discipline P) i (Does P inst i) Q (x false) t l)
    (herror : ∀ e t l, Broken P i d t → Q (.error e) t l) :
    Meets (discipline P) i (Does P inst i) Q ((issue (.isCached d.consumer chainId)).bind x) s l := by
  refine call_meets (at_stage trivial) hs (fun {t t' g a l} ht hi he => ?_)
    fun e t l h => herror e t l h.broken
  cases he with
  | isCached consumer chainId =>
    change Keeps P i (t,g) (t,g.modify i (Share.remembers chainId _)) ∧
      Meets _ _ _ _ _ (t,g.modify i (Share.remembers chainId _)) _
    by_cases hmem : (d.consumer,chainId) ∈ t.safeContractsCache
    · rw [decide_eq_true hmem]
      have hlook : Share.remembers chainId true = Share.look (.cached chainId) := rfl
      rw [hlook]
      refine ⟨hi.looks ht.share ht.acked fun other hk => ?_,
        hhit _ _ ⟨getElem?_modify_self ht.share,ht.acked⟩⟩
      cases hk
      exact hmem
    · rw [decide_eq_false hmem]
      have hsame : g.modify i (Share.remembers chainId false) = g := List.modify_id i g
      rw [hsame]
      exact ⟨hi.unchanged ht.share (.inl rfl) rfl (hi.accounted _ (List.mem_of_getElem? ht.share))
        fun y hy => .inl hy,hmiss _ _ ht⟩

theorem existsSafeContracts_meets {chainId : Int} {x : Bool → Callback β} (hs : At i d none [] s)
    (hx : ∀ found t l, At i d (some (.asked chainId found)) [] t →
      Meets (discipline P) i (Does P inst i) Q (x found) t l)
    (herror : ∀ e t l, Broken P i d t → Q (.error e) t l) :
    Meets (discipline P) i (Does P inst i) Q ((issue (.existsSafeContracts chainId)).bind x) s l := by
  refine call_meets (at_stage trivial) hs (fun {t t' g a l} ht hi he => ?_)
    fun e t l h => herror e t l h.broken
  cases he with
  | existsSafeContracts hr =>
    refine ⟨hi.looks ht.share ht.acked fun other hk => (by cases hk),
      hx a _ _ ⟨getElem?_modify_self ht.share,ht.acked⟩⟩

theorem remember_meets {chainId : Int} {x : Unit → Callback β}
    (hs : At i d (some (.asked chainId true)) [] s)
    (hx : ∀ t l, At i d (some (.asked chainId true)) [] t →
      Meets (discipline P) i (Does P inst i) Q (x ()) t l)
    (herror : ∀ e t l, Broken P i d t → Q (.error e) t l) :
    Meets (discipline P) i (Does P inst i) Q ((issue (.remember d.consumer chainId)).bind x) s l := by
  refine call_meets (at_stage trivial) hs (fun {t t' g a l} ht hi he => ?_)
    fun e t l h => herror e t l h.broken
  cases he with
  | remember consumer chainId =>
    refine ⟨hi.unchanged ht.share (.inl rfl) rfl (hi.accounted _ (List.mem_of_getElem? ht.share))
      fun y hy => ?_,hx _ _ ⟨ht.share,ht.acked⟩⟩
    rcases List.mem_cons.mp hy with rfl | hold
    · exact .inr ⟨_,List.mem_of_getElem? ht.share,rfl,rfl⟩
    · exact .inl hold

/-- Removing the session changes nothing, at whatever stage. -/
theorem removeSession_meets {x : Unit → Callback β} {I : Broker × List Share → Prop}
    (hI : Stage P i d .removeSession I) (hs : I s)
    (hx : ∀ t l, I t → Meets (discipline P) i (Does P inst i) Q (x ()) t l)
    (herror : ∀ e t l, Broken P i d t → Q (.error e) t l) :
    Meets (discipline P) i (Does P inst i) Q ((issue .removeSession).bind x) s l := by
  refine call_meets hI hs (fun {t t' g a l} ht hi he => ?_) fun e t l h => herror e t l h.broken
  obtain ⟨share,hshare,_⟩ := hI.share ht
  cases he with
  | removeSession r =>
    exact ⟨hi.unchanged hshare (.inl rfl) rfl (hi.accounted _ (List.mem_of_getElem? hshare))
      fun y hy => .inl hy,hx _ _ ht⟩

theorem send_meets {job : Job} {x : Unit → Callback β} (hs : At i d check jobs s)
    (hpart : Part P d.message.body check (jobs ++ [job]))
    (hx : ∀ t l, At i d check (jobs ++ [job]) t → Meets (discipline P) i (Does P inst i) Q (x ()) t l)
    (herror : ∀ e t l, Broken P i d t → Q (.error e) t l) :
    Meets (discipline P) i (Does P inst i) Q ((issue (.send job)).bind x) s l := by
  refine call_meets (at_stage hpart) hs (fun {t t' g a l} ht hi he => ?_)
    fun e t l h => herror e t l h.broken
  have hold := hi.accounted _ (List.mem_of_getElem? ht.share)
  cases he with
  | send job r =>
    refine ⟨hi.modify ht.share (fun _ => rfl) (.inl rfl) ?_ ?_ (.inr rfl) (fun y hy => .inl hy)
      fun _ hc => .inl hc,hx _ _ ⟨getElem?_modify_self ht.share,ht.acked⟩⟩
    · exact hi.sent.modify (f := Share.add job) [job] [] [] ht.share rfl rfl
        (.refl _)
    · refine ⟨?_,fun ha => absurd ha ht.acked,hold.nacked⟩
      change Part P d.message.body check ((jobs ++ [job]) ++ [])
      rwa [List.append_nil]

end Rules

section Processing
variable {P : Packages} {inst : Installation} {i : ℕ} {d : Delivery Incoming} {check : Option Check}
  {pre jobs : List Job} {s : Broker × List Share} {l : Unit}

/-- The jobs have been sent, or something has gone wrong on the way. -/
def Sent (P : Packages) (i : ℕ) (d : Delivery Incoming) (check : Option Check) (jobs : List Job) {α : Type} :
    Except PyError α → Broker × List Share → Unit → Prop
  | .ok _, t, _ => At i d check jobs t
  | .error _, t, _ => Broken P i d t

theorem sendContracts_meets (chainId : Int) (contracts : List String) (hs : At i d check pre s)
    (hasks : AsksFor P d.message.body check (pre ++ contractJobs chainId contracts)) :
    Meets (discipline P) i (Does P inst i) (Sent P i d check (pre ++ contractJobs chainId contracts))
      (sendContracts chainId contracts) s l := by
  induction contracts generalizing pre s l with
  | nil =>
    refine Meets.ret fun t ht _ => ?_
    change At i d check (pre ++ []) t
    rw [List.append_nil]
    exact hs.rely ht
  | cons a rest ih =>
    rw [sendContracts]
    by_cases ha : a ≠ nullAddressText
    · rw [if_pos ha]
      have hjobs : pre ++ contractJobs chainId (a :: rest) =
          (pre ++ [.getContractMetadata { address := a, chainId := chainId }]) ++
            contractJobs chainId rest := by
        simp [contractJobs, ha]
      rw [hjobs] at hasks ⊢
      exact send_meets hs (.inr ⟨_,hasks,List.prefix_append _ _⟩) (fun t l ht => ih ht hasks)
        fun e t l ht => ht
    · rw [if_neg ha]
      have hjobs : contractJobs chainId (a :: rest) = contractJobs chainId rest := by
        simp [contractJobs, not_not.mp ha]
      rw [hjobs] at hasks ⊢
      exact ih hs hasks

/-- The answer is what the callback has found out. -/
def Checked (P : Packages) (i : ℕ) (d : Delivery Incoming) (chainId : Int) :
    Except PyError Bool → Broker × List Share → Unit → Prop
  | .ok exist, t, _ => ∃ k : Check, k.chainId = chainId ∧ k.exist = exist ∧ At i d (some k) [] t
  | .error _, t, _ => Broken P i d t

theorem safeContractsExist_meets (chainId : Int) (hs : At i d none [] s) :
    Meets (discipline P) i (Does P inst i) (Checked P i d chainId)
      (safeContractsExist d.consumer chainId) s l := by
  have hret : ∀ (k : Check) (t : Broker × List Share) (l : Unit), k.chainId = chainId →
      At i d (some k) [] t →
        Meets (discipline P) i (Does P inst i) (Checked P i d chainId) (.ret k.exist) t l :=
    fun k t l hk ht => Meets.ret fun u hu _ => ⟨k,hk,rfl,ht.rely hu⟩
  refine isCached_meets hs (fun t l ht => hret _ t l rfl ht) (fun t l ht => ?_) fun e t l ht => ht
  refine existsSafeContracts_meets ht (fun found t l ht => ?_) fun e t l ht => ht
  cases found with
  | true => exact remember_meets ht (fun t l ht => hret _ t l rfl ht) fun e t l ht => ht
  | false => exact hret _ t l rfl ht

/-- The message has been processed, or something has gone wrong. -/
def Processed (P : Packages) (i : ℕ) (d : Delivery Incoming) {α : Type} :
    Except PyError α → Broker × List Share → Unit → Prop
  | .ok _, t, _ => ∃ check js, At i d check js t ∧ AsksFor P d.message.body check js
  | .error _, t, _ => Broken P i d t

theorem sendTransaction_meets {text : String} {t : Transaction} (hs : At i d none [] s)
    (htext : decodeUtf8 d.message.body = .ok text) (hread : readEvent P text = .ok (some t)) :
    Meets (discipline P) i (Does P inst i) (Processed P i d) (sendTransaction d.consumer t) s l := by
  refine (safeContractsExist_meets t.chainId hs).bind (fun exist u l _ hu => ?_) fun e u l _ hu => hu
  obtain ⟨k,hchain,rfl,hat⟩ := hu
  have hasks := AsksFor.transaction (P := P) htext hread hchain
  have hcontracts : ∀ {v : Broker × List Share} {l : Unit}, At i d (some k) (chainJobs k) v →
      Meets (discipline P) i (Does P inst i) (Processed P i d)
        (sendContracts t.chainId t.contracts) v l := by
    intro v l hv
    refine (sendContracts_meets t.chainId t.contracts hv hasks).mono fun r w _ _ hw => ?_
    cases r with
    | ok _ => exact ⟨_,_,hw,hasks⟩
    | error e => exact hw
  cases hexist : k.exist with
  | true =>
    have hjobs : chainJobs k = [] := by rw [chainJobs, hexist]; rfl
    exact hcontracts (hjobs.symm ▸ hat)
  | false =>
    have hjobs : chainJobs k = [] ++ [.createSafeContractsForNewChains t.chainId] := by
      rw [chainJobs, hexist, hchain]
      rfl
    refine send_meets hat (.inr ⟨_,hasks,?_⟩) (fun v l hv => hcontracts (hjobs.symm ▸ hv))
      fun e v l hv => hv
    rw [hjobs]
    exact List.prefix_append _ _

theorem processEvent_meets {text : String} (hs : At i d none [] s)
    (htext : decodeUtf8 d.message.body = .ok text) :
    Meets (discipline P) i (Does P inst i) (Processed P i d) (processEvent d.consumer P text) s l := by
  have hbody : Meets (discipline P) i (Does P inst i) (Processed P i d)
      ((fromExcept (readEvent P text) : Callback _).bind fun found =>
        match found with
        | none => .ret ()
        | some t => sendTransaction d.consumer t) s l := by
    cases hread : readEvent P text with
    | error e =>
      exact Meets.raise fun t ht _ => (hs.rely ht).unreadable (.inr ⟨text,e,htext,hread⟩)
    | ok found =>
      cases found with
      | none => exact Meets.ret fun t ht _ => ⟨none,[],hs.rely ht,.nothing htext hread⟩
      | some t => exact sendTransaction_meets hs htext hread
  refine Meets.ensuring hbody (fun _ t l _ ht => ?_) fun e t l _ ht => ?_
  · obtain ⟨check,js,hat,hasks⟩ := ht
    exact removeSession_meets (at_stage trivial) hat
      (fun u l hu => Meets.ret fun v hv _ => ⟨check,js,hu.rely hv,hasks⟩) fun _ _ _ hu => hu
  · exact removeSession_meets (broken_stage fun _ _ => trivial) ht
      (fun u l hu => Meets.raise fun v hv _ => hu.rely hv) fun _ _ _ hu => hu

theorem handleBody_meets (hs : At i d none [] s) :
    Meets (discipline P) i (Does P inst i) (Processed P i d) (handleBody P d) s l := by
  rw [handleBody]
  split
  · cases htext : decodeUtf8 d.message.body with
    | error e => exact Meets.raise fun t ht _ => (hs.rely ht).unreadable (.inl ⟨e,htext⟩)
    | ok text => exact processEvent_meets hs htext
  · rename_i hempty
    refine Meets.ret fun t ht _ => ⟨none,[],hs.rely ht,.empty ?_⟩
    exact List.isEmpty_iff.mp (by simpa using hempty)

end Processing

section Answering
variable {P : Packages} {inst : Installation} {i : ℕ} {d : Delivery Incoming} {check : Option Check}
  {jobs : List Job} {s t : Broker × List Share} {l : Unit}

/-- A callback that ends has answered for its message, unless it was ended by what is no
`Exception`, or its `nack` failed. -/
def Ended (i : ℕ) (d : Delivery Incoming) (r : Except PyError Unit) (t : Broker × List Share) : Prop :=
  ¬t.1.queue.Awaits d ∨ ∃ e, r = .error e ∧ (isException e = false ∨ Failed i d (.nack d) e t)

theorem not_awaits_answer {q : Ledger Incoming} {f : Frame Incoming} (hf : f.delivery = d) :
    ¬(q.answer f).Awaits d := fun h =>
  h.2 f (List.mem_append_right _ (List.mem_singleton_self f)) hf

/-- An acknowledgement that returns is on its way. -/
def Acked (P : Packages) (i : ℕ) (d : Delivery Incoming) :
    Except PyError Unit → Broker × List Share → Unit → Prop
  | .ok _, t, _ => ¬t.1.queue.Awaits d
  | .error _, t, _ => Broken P i d t

theorem ack_meets (hs : At i d check jobs s) (hasks : AsksFor P d.message.body check jobs) :
    Meets (discipline P) i (Does P inst i) (Acked P i d) (issue (.ack d)) s l := by
  rw [← Proc.bind_ret (issue (.ack d))]
  refine call_meets (at_stage ⟨rfl,hasks⟩) hs (fun {t t' g a l} ht hi he => ?_)
    fun e t l h => h.broken
  have hold := hi.accounted _ (List.mem_of_getElem? ht.share)
  cases he with
  | ack d r =>
    refine ⟨hi.unchanged ht.share (.inr ⟨_,rfl,rfl⟩) rfl ⟨hold.part,fun _ => hasks,fun hn => ?_⟩
      fun y hy => .inl hy,Meets.ret fun u hu _ hawaits => ?_⟩
    · exact hold.nacked (hn.imp_right fun hmem => by simpa [Ledger.answer] using hmem)
    · exact not_awaits_answer rfl ((hu _ ht.share).2.awaits hawaits)

theorem nack_meets (hs : Broken P i d s) :
    Meets (discipline P) i (Does P inst i) (fun r t _ => Ended i d r t) (issue (.nack d)) s l := by
  rw [← Proc.bind_ret (issue (.nack d))]
  refine call_meets (broken_stage fun _ h => h.symm) hs (fun {t t' g a l} ht hi he => ?_)
    fun e t l h => .inr ⟨e,rfl,.inr h⟩
  obtain ⟨share,hshare,hd,hcause⟩ := ht
  have hold := hi.accounted _ (List.mem_of_getElem? hshare)
  cases he with
  | nack d r =>
    subst hd
    refine ⟨hi.unchanged hshare (.inr ⟨_,rfl,rfl⟩) rfl ⟨hold.part,fun ha => ?_,fun _ => hcause⟩
      fun y hy => .inl hy,Meets.ret fun u hu _ => .inl fun hawaits => ?_⟩
    · exact hold.acked (ha.imp_right fun hmem => by simpa [Ledger.answer] using hmem)
    · exact not_awaits_answer rfl ((hu share hshare).2.awaits hawaits)

theorem wrappedCallback_meets (hs : At i d none [] s) :
    Meets (discipline P) i (Does P inst i) (fun r t _ => Ended i d r t) (wrappedCallback P d) s l := by
  have hbody : Meets (discipline P) i (Does P inst i) (Acked P i d)
      ((handleBody P d).bind fun _ => issue (.ack d)) s l := by
    refine (handleBody_meets hs).bind (fun _ t l _ ht => ?_) fun e t l _ ht => ht
    obtain ⟨check,js,hat,hasks⟩ := ht
    exact ack_meets hat hasks
  refine Meets.handle hbody (fun _ t _ _ ht => .inl ht) fun e t l _ ht => ?_
  change Meets _ _ _ _ (if isException e then issue (.nack d) else throw e) t l
  split
  · exact nack_meets ht
  · rename_i hcaught
    exact Meets.raise fun _ _ _ => .inr ⟨e,rfl,.inl (by simpa using hcaught)⟩

end Answering

section Runs
variable {P : Packages} {inst : Installation} {s s' : Broker} {g : List Share} {m : Incoming}
  {mv : Move} {labels : List (Delivery Incoming)}

/-- A move that starts no callback. -/
theorem Inv.moves {t : Broker} (h : Inv P (s,g)) (hconserved : t.queue.Conserved)
    (hpublished : t.queue.published.Nodup) (htag : t.queue.nextTag = s.queue.nextTag)
    (hknown : ∀ d ∈ t.queue.deliveries, d ∈ s.queue.deliveries) (hsent : t.sent = s.sent)
    (hcache : t.safeContractsCache = s.safeContractsCache)
    (hnews : ∀ share ∈ g, Ledger.NoNews share.delivery s.queue t.queue) :
    Inv P (t,g) ∧ ∀ i, Kept i (s,g) (t,g) := by
  refine ⟨⟨hconserved,hpublished,h.nodup,fun share hshare => ?_,fun d hd => h.known d (hknown d hd),?_,
    fun share hshare => (h.accounted share hshare).later (hnews share hshare),fun x hx => ?_,h.cached⟩,
    fun i share hi => ⟨hi,hnews share (List.mem_of_getElem? hi)⟩⟩
  · change share.delivery.tag < t.queue.nextTag
    rw [htag]
    exact h.tags share hshare
  · change Covers t.sent g
    rw [hsent]
    exact h.sent
  · change x ∈ t.safeContractsCache at hx
    rw [hcache] at hx
    exact h.cache x hx

theorem Inv.deliver (h : Inv P (s,g)) (consumer : ℕ) (hm : m ∈ s.queue.ready) :
    Inv P ({ s with queue := s.queue.deliver consumer m },g ++ [.fresh ⟨s.queue.nextTag,consumer,m⟩]) := by
  have hnew : (⟨s.queue.nextTag,consumer,m⟩ : Delivery Incoming) ∉ s.queue.deliveries := fun hd =>
    absurd (h.conserved.tags _ hd) (Nat.lt_irrefl _)
  have hsilent : ∀ f ∈ s.queue.frames, f.delivery ≠ ⟨s.queue.nextTag,consumer,m⟩ := fun f hf heq => by
    have hlt := h.conserved.frames f hf
    rw [heq] at hlt
    exact absurd hlt (Nat.lt_irrefl _)
  have hfound : ∀ {k chainId}, Found g k chainId →
      Found (g ++ [.fresh ⟨s.queue.nextTag,consumer,m⟩]) k chainId :=
    fun ⟨share,hmem,hshare⟩ => ⟨share,List.mem_append_left _ hmem,hshare⟩
  refine ⟨h.conserved.deliver consumer hm,h.published,?_,fun share hshare => ?_,fun d hd => ?_,?_,
    fun share hshare => ?_,fun x hx => hfound (h.cache x hx),fun share hshare chainId hc => ?_⟩
  · rw [List.map_append, List.nodup_append]
    refine ⟨h.nodup,List.nodup_singleton _,fun a ha b hb hab => ?_⟩
    obtain ⟨share,hshare,rfl⟩ := List.mem_map.mp ha
    have hlt := h.tags share hshare
    rw [hab, List.mem_singleton.mp hb] at hlt
    exact absurd hlt (Nat.lt_irrefl _)
  · rcases List.mem_append.mp hshare with hold | hlast
    · exact Nat.lt_succ_of_lt (h.tags share hold)
    · rw [List.mem_singleton.mp hlast]
      exact Nat.lt_succ_self _
  · rw [List.map_append, List.mem_append]
    rcases List.mem_cons.mp ((Ledger.deliveries_deliver consumer m).mem_iff.mp hd) with rfl | hold
    · exact .inr (List.mem_singleton_self _)
    · exact .inl (h.known d hold)
  · obtain ⟨unsure,hsub,hperm⟩ := h.sent
    refine ⟨unsure,?_,?_⟩
    · rw [List.flatMap_append]
      exact (List.append_nil _).symm ▸ hsub
    · rw [List.flatMap_append]
      exact (List.append_nil (g.flatMap Share.jobs)).symm ▸ hperm
  · rcases List.mem_append.mp hshare with hold | hlast
    · exact (h.accounted share hold).later (.deliver (h.tags share hold) consumer m)
    · rw [List.mem_singleton.mp hlast]
      refine ⟨.inl rfl,?_,?_⟩
      · rintro (ha | hf)
        · exact absurd (List.mem_append_right _ (List.mem_append_left _ ha)) hnew
        · exact absurd rfl (hsilent _ hf)
      · rintro (hd | hf)
        · exact absurd (List.mem_append_right _ (List.mem_append_right _ hd)) hnew
        · exact absurd rfl (hsilent _ hf)
  · rcases List.mem_append.mp hshare with hold | hlast
    · exact hfound (h.cached share hold chainId hc)
    · rw [List.mem_singleton.mp hlast] at hc
      cases hc

theorem Moves.keeps (hm : Moves mv s s' labels) (h : Inv P (s,g)) :
    Inv P (s',watch g s (.env mv)) ∧ ∀ i, Kept i (s,g) (s',watch g s (.env mv)) := by
  cases hm with
  | @publish _ m new =>
    have hpublished : (s.queue.published ++ [m]).Nodup := List.nodup_append.mpr
      ⟨h.published,List.nodup_singleton _,fun a ha b hb hab => new (by rwa [hab, List.mem_singleton.mp hb] at ha)⟩
    exact h.moves (h.conserved.publish m) hpublished rfl (fun _ hd => hd) rfl rfl
      fun share _ => .publish _ m
  | @deliver _ consumer m waits =>
    refine ⟨h.deliver consumer waits,fun i share hi => ⟨?_,?_⟩⟩
    · exact (List.getElem?_append_left (List.getElem?_eq_some_iff.mp hi).1).trans hi
    · exact .deliver (h.tags share (List.mem_of_getElem? hi)) consumer m
  | disconnect consumer =>
    exact h.moves (h.conserved.requeue consumer) h.published rfl
      (fun d hd => (Ledger.deliveries_requeue consumer).mem_iff.mpr (List.mem_append_right _ hd)) rfl rfl
      fun share _ => .requeue _ consumer
  | @settle _ f sent unsettled =>
    have hsame : (s.queue.settle f).published = s.queue.published ∧
        (s.queue.settle f).nextTag = s.queue.nextTag := by cases f <;> exact ⟨rfl,rfl⟩
    exact h.moves (h.conserved.settle unsettled) (hsame.1.symm ▸ h.published) hsame.2
      (fun d hd => (Ledger.deliveries_settle unsettled).mem_iff.mp hd) rfl rfl
      fun share _ => .settle h.conserved sent unsettled _
  | database db =>
    exact h.moves h.conserved h.published rfl (fun _ hd => hd) rfl rfl fun share _ => .refl _ _

theorem Moves.labels_watch (hm : Moves mv s s' labels) :
    (watch g s (.env mv)).map Share.delivery = g.map Share.delivery ++ labels := by
  cases hm with
  | deliver consumer waits => exact List.map_append
  | publish new => exact (List.append_nil _).symm
  | disconnect consumer => exact (List.append_nil _).symm
  | settle sent unsettled => exact (List.append_nil _).symm
  | database db => exact (List.append_nil _).symm

theorem watch_deliveries {i : ℕ} {c : Command} {r : Except PyError c.Answer} :
    (watch g s (.own i c r)).map Share.delivery = g.map Share.delivery := by
  cases r with
  | error e =>
    have hwatch : watch g s (.own i c (.error e)) = g.modify i (Share.fail c e) := by cases c <;> rfl
    rw [hwatch]
    exact map_delivery_modify fun _ => rfl
  | ok a =>
    cases c with
    | isCached consumer chainId =>
      refine map_delivery_modify (f := Share.remembers chainId a) fun share => ?_
      cases (show Bool from a) <;> rfl
    | existsSafeContracts chainId => exact map_delivery_modify fun _ => rfl
    | send job => exact map_delivery_modify fun _ => rfl
    | _ => rfl

theorem admits : (service P inst).Admits watch (discipline P) sized
    (fun i d r t _ => Ended i d r t) where
  shared := discipline_shared P
  own := by
    intro g n s i c r h
    rw [sized] at h ⊢
    have hlength := congrArg List.length (watch_deliveries (g := g) (s := s) (i := i) (r := r))
    rwa [List.length_map, List.length_map, h] at hlength
  move := Moves.keeps
  grows := by
    intro mv s s' labels g n hm h
    rw [sized] at h ⊢
    have hlength := congrArg List.length (hm.labels_watch (g := g))
    rwa [List.length_map, List.length_append, List.length_map, h] at hlength
  starts := by
    intro mv s s' labels d g n j hm hsize hi hi' hj
    cases hm with
    | deliver consumer waits =>
      obtain ⟨rfl,rfl⟩ : j = 0 ∧ d = ⟨s.queue.nextTag,consumer,_⟩ := by
        cases j with
        | zero => exact ⟨rfl,(Option.some.inj hj).symm⟩
        | succ j => cases hj
      apply wrappedCallback_meets
      refine ⟨?_,?_⟩
      · rw [← hsize]
        exact List.getElem?_concat_length
      · rintro (ha | hf)
        · have hlt := hi.conserved.tags _ (List.mem_append_right _ (List.mem_append_left _ ha))
          exact absurd hlt (Nat.lt_irrefl _)
        · exact absurd (hi.conserved.frames _ hf) (Nat.lt_irrefl _)
    | publish new => cases hj
    | disconnect consumer => cases hj
    | settle sent unsettled => cases hj
    | database db => cases hj

end Runs

section Results
variable {P : Packages} {inst : Installation} {s : Broker}
  {c : Config Command Command.Answer PyError Broker Unit (Delivery Incoming) Unit}
  {tr : List (Broker × Event Command Command.Answer PyError Move)}

/-- The queue is new, and no service remembers anything. -/
structure Starts (s : Broker) : Prop where
  sent : s.sent = []
  queue : s.queue = Ledger.empty Incoming
  cache : s.safeContractsCache = []

theorem Starts.inv (hs : Starts s) : Inv P (s,[]) := by
  obtain ⟨hsent,hqueue,hcache⟩ := hs
  obtain ⟨db,cache,sent,queue⟩ := s
  cases hsent
  cases hqueue
  cases hcache
  exact ⟨Ledger.empty_conserved,List.nodup_nil,List.nodup_nil,fun _ h => (by cases h),fun _ h => (by cases h),
    ⟨[],.refl _,.refl _⟩,fun _ h => (by cases h),fun _ h => (by cases h),fun _ h => (by cases h)⟩

/-- What the callbacks of a run have found out and sent. -/
abbrev shares (tr : List (Broker × Event Command Command.Answer PyError Move)) : List Share :=
  Machine.observe watch [] tr

theorem run_sound (hs : Starts s) (h : (service P inst).Run ((service P inst).initial s []) tr c) :
    (service P inst).Sound watch (discipline P) sized (fun i d r t _ => Ended i d r t) c (shares tr) :=
  h.sound admits (Machine.sound_initial hs.inv rfl fun i label hlabel => (by cases hlabel))

/-- The callbacks and their shares are numbered alike. -/
theorem labels_shares (h : (service P inst).Run ((service P inst).initial s []) tr c) :
    c.threads.map Thread.label = (shares tr).map Share.delivery := by
  induction h with
  | refl => rfl
  | @step d d' tr e _ hstep ih =>
    rw [shares, Machine.observe_append]
    cases hstep with
    | @own i label l l' cmd next r s' hi he =>
      rw [watch_deliveries, ← ih]
      apply List.ext_getElem?
      intro j
      rw [List.getElem?_map, List.getElem?_map]
      by_cases hij : i = j
      · subst hij
        rw [List.getElem?_set_self (List.getElem?_eq_some_iff.mp hi).1, hi]
        rfl
      · rw [List.getElem?_set_ne hij]
    | @env mv s' labels hm =>
      have hspawn : (labels.map (service P inst).spawn).map Thread.label = labels := by
        rw [List.map_map]
        exact List.map_id labels
      rw [List.map_append, hspawn, ih]
      exact hm.labels_watch.symm

/-- What an event adds to a share. -/
structure Grows (i : ℕ) (e : Event Command Command.Answer PyError Move) (old share : Share) : Prop where
  failures : ∀ c error, (c,error) ∈ share.failures →
    (c,error) ∈ old.failures ∨ e = .own i c (.error error)
  check : ∀ chainId found, share.check = some (.asked chainId found) →
    old.check = some (.asked chainId found) ∨ e = .own i (.existsSafeContracts chainId) (.ok found)

theorem Grows.refl (i : ℕ) (e : Event Command Command.Answer PyError Move) (share : Share) :
    Grows i e share share := ⟨fun _ _ h => .inl h,fun _ _ h => .inl h⟩

theorem grows_modify {g : List Share} {e : Event Command Command.Answer PyError Move} {i j : ℕ}
    {f : Share → Share} {share : Share} (hf : ∀ old, Grows j e old (f old))
    (h : (g.modify j f)[i]? = some share) : ∃ old, g[i]? = some old ∧ Grows i e old share := by
  by_cases hij : i = j
  · subst hij
    rw [List.getElem?_modify_eq] at h
    obtain ⟨old,hold,rfl⟩ := Option.map_eq_some_iff.mp h
    exact ⟨old,hold,hf old⟩
  · rw [getElem?_modify_other hij] at h
    exact ⟨share,h,.refl i e share⟩

/-- A share has grown, or it is new. -/
theorem watch_at {g : List Share} {e : Event Command Command.Answer PyError Move} {i : ℕ} {share : Share}
    (h : (watch g s e)[i]? = some share) :
    (∃ old, g[i]? = some old ∧ Grows i e old share) ∨ ∃ d, share = .fresh d := by
  cases e with
  | own j c r =>
    cases r with
    | error error =>
      have hwatch : watch g s (.own j c (.error error)) = g.modify j (Share.fail c error) := by
        cases c <;> rfl
      rw [hwatch] at h
      refine .inl (grows_modify (f := Share.fail c error)
        (fun old => ⟨fun c' error' hmem => ?_,fun _ _ hc => .inl hc⟩) h)
      rcases List.mem_append.mp hmem with hold | hnew
      · exact .inl hold
      · cases List.mem_singleton.mp hnew
        exact .inr rfl
    | ok a =>
      cases c with
      | isCached consumer chainId =>
        refine .inl (grows_modify (f := Share.remembers chainId a) (fun old => ?_) h)
        cases a with
        | true => exact ⟨fun _ _ hmem => .inl hmem,fun _ _ hc => (by cases hc)⟩
        | false => exact .refl _ _ _
      | existsSafeContracts chainId =>
        refine .inl (grows_modify (f := Share.look (.asked chainId a))
          (fun old => ⟨fun _ _ hmem => .inl hmem,fun _ _ hc => ?_⟩) h)
        cases hc
        exact .inr rfl
      | send job =>
        exact .inl (grows_modify (f := Share.add job)
          (fun old => ⟨fun _ _ hmem => .inl hmem,fun _ _ hc => .inl hc⟩) h)
      | _ => exact .inl ⟨share,h,.refl _ _ _⟩
  | env mv =>
    cases mv with
    | deliver consumer m =>
      change (g ++ [_])[i]? = some share at h
      rw [List.getElem?_append] at h
      split at h
      · exact .inl ⟨share,h,.refl _ _ _⟩
      · exact .inr ⟨_,List.mem_singleton.mp (List.mem_of_getElem? h)⟩
    | _ => exact .inl ⟨share,h,.refl _ _ _⟩

/-- What has failed are commands of the callback itself. -/
theorem failed_command (h : (service P inst).Run ((service P inst).initial s []) tr c) {i : ℕ}
    {share : Share} (hi : (shares tr)[i]? = some share) {cmd : Command} {e : PyError}
    (hmem : (cmd,e) ∈ share.failures) : ∃ s, (s,Event.own i cmd (.error e)) ∈ tr := by
  induction h generalizing share with
  | refl => cases hi
  | @step d d' tr ev _ _ ih =>
    rw [shares, Machine.observe_append] at hi
    rcases watch_at hi with ⟨old,hold,hgrows⟩ | ⟨x,rfl⟩
    · rcases hgrows.failures cmd e hmem with hbefore | rfl
      · obtain ⟨s,hs⟩ := ih hold hbefore
        exact ⟨s,List.mem_append_left _ hs⟩
      · exact ⟨d.state,List.mem_append_right _ (List.mem_singleton_self _)⟩
    · cases hmem

/-- What a callback has been told by the database was so when it asked. -/
theorem asked_database (h : (service P inst).Run ((service P inst).initial s []) tr c) {i : ℕ}
    {share : Share} (hi : (shares tr)[i]? = some share) {chainId : Int} {found : Bool}
    (hcheck : share.check = some (.asked chainId found)) :
    ∃ s, (s,Event.own i (.existsSafeContracts chainId) (.ok found)) ∈ tr ∧
      Events.existsSafeContracts s.db chainId (safeAddresses inst) = .ok found := by
  induction h generalizing share with
  | refl => cases hi
  | @step d d' tr ev _ hstep ih =>
    rw [shares, Machine.observe_append] at hi
    rcases watch_at hi with ⟨old,hold,hgrows⟩ | ⟨x,rfl⟩
    · rcases hgrows.check chainId found hcheck with hbefore | rfl
      · obtain ⟨s,hs,hanswer⟩ := ih hold hbefore
        exact ⟨s,List.mem_append_left _ hs,hanswer⟩
      · refine ⟨d.state,List.mem_append_right _ (List.mem_singleton_self _),?_⟩
        cases hstep with
        | own _ he =>
          cases he with
          | existsSafeContracts hr => exact hr
    · cases hcheck

/-- What the callbacks have found out about the contracts of a chain: the database said so, or
it had said so to a callback of the same consumer. -/
structure Truthful (inst : Installation) (tr : List (Broker × Event Command Command.Answer PyError Move)) :
    Prop where
  asked : ∀ i share chainId found, (shares tr)[i]? = some share →
    share.check = some (.asked chainId found) →
      ∃ s, (s,Event.own i (.existsSafeContracts chainId) (.ok found)) ∈ tr ∧
        Events.existsSafeContracts s.db chainId (safeAddresses inst) = .ok found
  cached : ∀ share ∈ shares tr, ∀ chainId, share.check = some (.cached chainId) →
    Found (shares tr) share.delivery.consumer chainId

theorem run_truthful (hs : Starts s) (h : (service P inst).Run ((service P inst).initial s []) tr c) :
    Truthful inst tr where
  asked := fun _ _ _ _ hi hcheck => asked_database h hi hcheck
  cached := (run_sound hs h).inv.cached

/-- The callback has not ended, its answer is on its way, or it was ended by what is no
`Exception` or by its `nack`. -/
def Unsettled (tr : List (Broker × Event Command Command.Answer PyError Move)) (q : Ledger Incoming) (i : ℕ)
    (th : Thread Command Command.Answer PyError Unit (Delivery Incoming) Unit) : Prop :=
  th.prog.outcome? = none ∨ (∃ f ∈ q.frames, f.delivery = th.label) ∨
    ∃ e, th.prog.outcome? = some (.error e) ∧
      (isException e = false ∨ ∃ s, (s,Event.own i (.nack th.label) (.error e)) ∈ tr)

theorem unacked_callback (hs : Starts s) (h : (service P inst).Run ((service P inst).initial s []) tr c)
    {d : Delivery Incoming} (hd : d ∈ c.state.queue.unacked) :
    ∃ i th, c.threads[i]? = some th ∧ th.label = d ∧ Unsettled tr c.state.queue i th := by
  have hsound := run_sound hs h
  have hknown : d ∈ c.threads.map Thread.label :=
    labels_shares h ▸ hsound.inv.known d (List.mem_append_left _ hd)
  obtain ⟨th,hth,rfl⟩ := List.mem_map.mp hknown
  obtain ⟨i,hi⟩ := List.getElem?_of_mem hth
  refine ⟨i,th,hi,rfl,?_⟩
  cases hend : th.prog.outcome? with
  | none => exact .inl hend
  | some r =>
    rcases hsound.outcome hi hend with hnot | ⟨e,rfl,hcause⟩
    · refine .inr (.inl ?_)
      by_contra hsilent
      exact hnot ⟨hd,fun f hf hfd => hsilent ⟨f,hf,hfd⟩⟩
    · refine .inr (.inr ⟨e,hend,hcause.imp_right ?_⟩)
      rintro ⟨share,hshare,_,hmem⟩
      exact failed_command h hshare hmem

/-- A message that was published waits, is with a callback that has not answered, has sent all
of its tasks, or was dropped for a cause; and nothing is sent but for a message. -/
theorem never_lost (hs : Starts s) (h : (service P inst).Run ((service P inst).initial s []) tr c) :
    (c.state.queue.ready ++ c.state.queue.deliveries.map Delivery.message).Nodup ∧
    (∀ m ∈ c.state.queue.published, m ∈ c.state.queue.ready ∨
      (∃ i th, c.threads[i]? = some th ∧ th.label ∈ c.state.queue.unacked ∧ th.label.message = m ∧
        Unsettled tr c.state.queue i th) ∨
      ∃ i share, (shares tr)[i]? = some share ∧ share.delivery.message = m ∧
        (share.delivery ∈ c.state.queue.acked ∧ AsksFor P m.body share.check share.jobs ∨
          share.delivery ∈ c.state.queue.dropped ∧
            (Unreadable P m.body ∨ ∃ s c e, (s,Event.own i c (.error e)) ∈ tr))) ∧
    Covers c.state.sent (shares tr) ∧
    (∀ share ∈ shares tr,
      Part P share.delivery.message.body share.check (share.jobs ++ share.unsure)) ∧
    Truthful inst tr := by
  have hinv := (run_sound hs h).inv
  refine ⟨hinv.conserved.perm.nodup_iff.mp hinv.published,fun m hm => ?_,hinv.sent,
    fun share hshare => (hinv.accounted share hshare).part,run_truthful hs h⟩
  rcases hinv.conserved.place hm with hready | ⟨d,rfl,hunacked | hsettled⟩
  · exact .inl hready
  · obtain ⟨i,th,hi,rfl,hunsettled⟩ := unacked_callback hs h hunacked
    exact .inr (.inl ⟨i,th,hi,hunacked,rfl,hunsettled⟩)
  · obtain ⟨share,hshare,rfl⟩ := List.mem_map.mp
      (hinv.known d (List.mem_append_right _ (List.mem_append.mpr hsettled)))
    obtain ⟨i,hi⟩ := List.getElem?_of_mem hshare
    have hown := hinv.accounted share hshare
    refine .inr (.inr ⟨i,share,hi,rfl,?_⟩)
    rcases hsettled with hacked | hdropped
    · exact .inl ⟨hacked,hown.acked (.inl hacked)⟩
    · refine .inr ⟨hdropped,?_⟩
      rcases hown.nacked (.inl hdropped) with hfailures | hbody
      · obtain ⟨⟨cmd,e⟩,hmem⟩ := List.exists_mem_of_ne_nil _ hfailures
        obtain ⟨s,hs⟩ := failed_command h hi hmem
        exact .inr ⟨s,cmd,e,hs⟩
      · exact .inl hbody

theorem exec_deliveries {s t : Broker} {l l' : Unit} {c : Command} {r : Except PyError c.Answer}
    (h : Exec inst s l c r t l') : t.queue.deliveries = s.queue.deliveries := by
  cases h <;> rfl

/-- As long as no connection is lost, every delivery is with its callback or has been settled. -/
theorem deliveries_kept (h : (service P inst).Run ((service P inst).initial s []) tr c)
    (hs : Starts s) (hkept : ∀ s consumer, (s,Event.env (.disconnect consumer)) ∉ tr) :
    ((shares tr).map Share.delivery).Perm c.state.queue.deliveries := by
  induction h with
  | refl =>
    change List.Perm [] s.queue.deliveries
    rw [hs.queue]
    exact List.Perm.refl _
  | @step d d' tr e _ hstep ih =>
    have hbefore := ih fun s consumer hmem => hkept s consumer (List.mem_append_left _ hmem)
    rw [shares, Machine.observe_append]
    cases hstep with
    | own hi he =>
      rw [watch_deliveries]
      exact hbefore.trans (exec_deliveries he ▸ .refl _)
    | env hm =>
      cases hm with
      | deliver consumer waits =>
        change ((_ ++ [_]).map Share.delivery).Perm _
        rw [List.map_append]
        refine List.Perm.trans ?_ (Ledger.deliveries_deliver consumer _).symm
        exact List.perm_append_comm.trans (hbefore.cons _)
      | publish new => exact hbefore
      | disconnect consumer =>
        exact absurd (List.mem_append_right _ (List.mem_singleton_self _)) (hkept d.state consumer)
      | settle sent unsettled => exact hbefore.trans (Ledger.deliveries_settle unsettled).symm
      | database db => exact hbefore

/-- When no connection is lost, no command fails and every message can be read, then once all
messages are settled there has been one callback for each, and the tasks are those that the
messages ask for. -/
theorem sent_once (hs : Starts s) (h : (service P inst).Run ((service P inst).initial s []) tr c)
    (hkept : ∀ s consumer, (s,Event.env (.disconnect consumer)) ∉ tr)
    (hworks : ∀ s i cmd e, (s,Event.own i cmd (.error e)) ∉ tr)
    (hreadable : ∀ m ∈ c.state.queue.published, ¬Unreadable P m.body)
    (hready : c.state.queue.ready = []) (hunacked : c.state.queue.unacked = []) :
    ((shares tr).map fun share => share.delivery.message).Perm c.state.queue.published ∧
    (∀ share ∈ shares tr, AsksFor P share.delivery.message.body share.check share.jobs) ∧
    c.state.sent.Perm ((shares tr).flatMap Share.jobs) ∧ Truthful inst tr := by
  have hinv := (run_sound hs h).inv
  have hdeliveries := deliveries_kept h hs hkept
  have hmessages : ((shares tr).map fun share => share.delivery.message).Perm c.state.queue.published := by
    have hperm := hinv.conserved.perm
    rw [hready, List.nil_append] at hperm
    have hmap := hdeliveries.map Delivery.message
    rw [List.map_map] at hmap
    exact hmap.trans hperm.symm
  have hfailures : ∀ share ∈ shares tr, share.failures = [] := by
    intro share hshare
    obtain ⟨i,hi⟩ := List.getElem?_of_mem hshare
    refine List.eq_nil_iff_forall_not_mem.mpr fun ⟨cmd,e⟩ hmem => ?_
    obtain ⟨s,hs⟩ := failed_command h hi hmem
    exact hworks s i cmd e hs
  refine ⟨hmessages,fun share hshare => ?_,?_,run_truthful hs h⟩
  · have hmem := hdeliveries.mem_iff.mp (List.mem_map_of_mem hshare)
    rw [Ledger.deliveries, hunacked, List.nil_append, List.mem_append] at hmem
    have hown := hinv.accounted share hshare
    rcases hmem with hacked | hdropped
    · exact hown.acked (.inl hacked)
    · rcases hown.nacked (.inl hdropped) with hfailed | hbody
      · exact absurd (hfailures share hshare) hfailed
      · exact absurd hbody (hreadable _ (hmessages.mem_iff.mp (List.mem_map_of_mem hshare)))
  · obtain ⟨unsure,hsub,hperm⟩ := hinv.sent
    have hnone : (shares tr).flatMap Share.unsure = [] := List.flatMap_eq_nil_iff.mpr fun share hshare => by
      rw [Share.unsure, hfailures share hshare]
      rfl
    rw [hnone] at hsub
    rw [List.subperm_nil.mp hsub, List.append_nil] at hperm
    exact hperm

end Results

section Delivering
open Worker.Reference

/-- The message of an event with data. -/
def calldata : Incoming := ⟨0,(eventText "1" "0x12").toUTF8.data.toList⟩

/-- A message that is no text. -/
def noise : Incoming := ⟨1,[255]⟩

def contract : String := "0x1111111111111111111111111111111111111111"

theorem readEvent_calldata :
    readEvent packages (eventText "1" "0x12") = .ok (some ⟨1,[contract]⟩) := by
  have hbytes : packages.externals.hexstrToBytes "0x12" = .ok [0x12] := by decide +kernel
  have htxs : packages.externals.fromTransactionData [0x12] = .ok [] := rfl
  exact readEvent_eq (loads_samples ("1","0x12") (by decide)) (accepts_samples ("1","0x12") (by decide))
    rfl rfl rfl (by decide) (by decide +kernel) hbytes htxs

/-- What is left of the callback when its message has been read. -/
def processing (d : Delivery Incoming) : Callback Unit :=
  catchOnly isException
    (do
      Proc.ensuring (sendTransaction d.consumer ⟨1,[contract]⟩) (issue .removeSession)
      issue (.ack d))
    fun _ => issue (.nack d)

theorem handleBody_event {P : Packages} {d : Delivery Incoming} {text : String} {t : Transaction}
    (hbody : d.message.body.isEmpty = false) (htext : decodeUtf8 d.message.body = .ok text)
    (hread : readEvent P text = .ok (some t)) :
    handleBody P d = Proc.ensuring (sendTransaction d.consumer t) (issue .removeSession) := by
  rw [handleBody, hbody, htext]
  change processEvent d.consumer P text = _
  rw [processEvent, hread]
  rfl

theorem wrappedCallback_calldata {d : Delivery Incoming} (hd : d.message = calldata) :
    wrappedCallback packages d = processing d := by
  have hbody : d.message.body.isEmpty = false := by
    rw [hd]
    decide +kernel
  have htext : decodeUtf8 d.message.body = .ok (eventText "1" "0x12") := by
    rw [hd]
    exact decodeUtf8_toUTF8 _
  rw [wrappedCallback, handleBody_event hbody htext readEvent_calldata]
  rfl

theorem wrappedCallback_noise {d : Delivery Incoming} (hd : d.message = noise) :
    wrappedCallback packages d = issue (.nack d) := by
  have htext : decodeUtf8 d.message.body = .error .valueError := by
    rw [hd]
    decide +kernel
  have hbody : d.message.body.isEmpty = false := by
    rw [hd]
    rfl
  rw [wrappedCallback, handleBody, hbody, htext]
  rfl

/-- No Safe contracts are in the database, and nobody remembers any. -/
def broker (queue : Ledger Incoming) (sent : List Job) : Broker :=
  ⟨⟨[],[],[],List.nodup_nil,List.nodup_nil⟩,[],sent,queue⟩

def creation : Job := .createSafeContractsForNewChains 1
def metadata : Job := .getContractMetadata { address := contract, chainId := 1 }

/-- The connection of the first consumer is lost when the task for the chain has been sent, the
message goes to the second one, and another one cannot be read. -/
def lost : Delivery Incoming := ⟨0,0,calldata⟩
def again : Delivery Incoming := ⟨1,1,calldata⟩
def unread : Delivery Incoming := ⟨2,0,noise⟩

def published : Ledger Incoming := (Ledger.empty Incoming).publish calldata
def delivered : Ledger Incoming := published.deliver 0 calldata
def requeued : Ledger Incoming := delivered.requeue 0
def redelivered : Ledger Incoming := requeued.deliver 1 calldata
def answered : Ledger Incoming := redelivered.answer (.ack again)
def acknowledged : Ledger Incoming := answered.settle (.ack again)
def disturbed : Ledger Incoming := acknowledged.publish noise
def misdelivered : Ledger Incoming := disturbed.deliver 0 noise
def refused : Ledger Incoming := misdelivered.answer (.nack unread)
def dropped : Ledger Incoming := refused.settle (.nack unread)

/-- The commands of a callback that processes the message in one go. -/
def serving (i : ℕ) (d : Delivery Incoming) (queue : Ledger Incoming) (sent : List Job) :
    List (Broker × Event Command Command.Answer PyError Move) :=
  [(broker queue sent,.own i (.isCached d.consumer 1) (.ok false)),
    (broker queue sent,.own i (.existsSafeContracts 1) (.ok false)),
    (broker queue sent,.own i (.send creation) (.ok ())),
    (broker queue (sent ++ [creation]),.own i (.send metadata) (.ok ())),
    (broker queue ((sent ++ [creation]) ++ [metadata]),.own i .removeSession (.ok ())),
    (broker queue ((sent ++ [creation]) ++ [metadata]),.own i (.ack d) (.ok ()))]

abbrev Callbacks : Type := List (Thread Command Command.Answer PyError Unit (Delivery Incoming) Unit)

theorem nothing_found (queue : Ledger Incoming) (sent : List Job) :
    Events.existsSafeContracts (broker queue sent).db 1 (safeAddresses installation) = .ok false := by
  change Events.existsSafeContracts ⟨[],[],[],List.nodup_nil,List.nodup_nil⟩ 1 _ = _
  decide +kernel

theorem serving_run {callbacks : Callbacks} {i : ℕ} {d : Delivery Incoming} {queue : Ledger Incoming}
    (sent : List Job) (hi : callbacks[i]? = some ⟨d,(),processing d⟩) :
    (service packages installation).Run ⟨broker queue sent,callbacks⟩ (serving i d queue sent)
      ⟨broker (queue.answer (.ack d)) ((sent ++ [creation]) ++ [metadata]),
        callbacks.set i ⟨d,(),.ret ()⟩⟩ := by
  have hnext : ∀ {threads : Callbacks} {x : Thread Command Command.Answer PyError Unit (Delivery Incoming) Unit},
      threads.length = callbacks.length → (threads.set i x)[i]? = some x := by
    intro threads x hlength
    exact List.getElem?_set_self (hlength ▸ (List.getElem?_eq_some_iff.mp hi).1)
  have hcached := Machine.Run.step (m := service packages installation)
    (c := ⟨broker queue sent,callbacks⟩) .refl (.own (l := ()) hi (Exec.isCached d.consumer 1))
  have hasked := hcached.step (.own (i := i) (l := ()) (hnext rfl)
    (Exec.existsSafeContracts (nothing_found queue sent)))
  have hcreation := hasked.step (.own (i := i) (l := ()) (hnext (by simp)) (Exec.send creation (.ok ())))
  have hmetadata := hcreation.step (.own (i := i) (l := ()) (hnext (by simp)) (Exec.send metadata (.ok ())))
  have hremoved := hmetadata.step (.own (i := i) (l := ()) (hnext (by simp)) (Exec.removeSession (.ok ())))
  have hacked := hremoved.step (.own (i := i) (l := ()) (hnext (by simp)) (Exec.ack d (.ok ())))
  simp only [List.set_set] at hacked
  exact hacked

def begun : List (Broker × Event Command Command.Answer PyError Move) :=
  [(broker (.empty Incoming) [],.env (.publish calldata)), (broker published [],.env (.deliver 0 calldata)),
    (broker delivered [],.own 0 (.isCached 0 1) (.ok false)),
    (broker delivered [],.own 0 (.existsSafeContracts 1) (.ok false)),
    (broker delivered [],.own 0 (.send creation) (.ok ())),
    (broker delivered [creation],.env (.disconnect 0)),
    (broker requeued [creation],.env (.deliver 1 calldata))]

/-- The creation twice, as the message has been delivered twice. -/
def tasks : List Job := [creation,creation,metadata]

def redelivery : List (Broker × Event Command Command.Answer PyError Move) :=
  ((((((begun ++ serving 1 again redelivered [creation]) ++
    [(broker answered tasks,.env (.settle (.ack again)))]) ++
    [(broker acknowledged tasks,.env (.publish noise))]) ++
    [(broker disturbed tasks,.env (.deliver 0 noise))]) ++
    [(broker misdelivered tasks,.own 2 (.nack unread) (.ok ()))]) ++
    [(broker refused tasks,.env (.settle (.nack unread)))])

theorem deliver_run {start : Config Command Command.Answer PyError Broker Unit (Delivery Incoming) Unit}
    {tr : List (Broker × Event Command Command.Answer PyError Move)} {callbacks : Callbacks} {m : Incoming}
    {prog : Callback Unit} (queue : Ledger Incoming) (sent : List Job) (consumer : ℕ)
    (h : (service packages installation).Run start tr ⟨broker queue sent,callbacks⟩)
    (hm : m ∈ queue.ready) (hprog : wrappedCallback packages ⟨queue.nextTag,consumer,m⟩ = prog) :
    (service packages installation).Run start (tr ++ [(broker queue sent,.env (.deliver consumer m))])
      ⟨broker (queue.deliver consumer m) sent,callbacks ++ [⟨⟨queue.nextTag,consumer,m⟩,(),prog⟩]⟩ := by
  subst hprog
  have hdelivered := h.step (.env (Moves.deliver consumer hm))
  exact hdelivered

theorem delivered_run : (service packages installation).Run
    ((service packages installation).initial (broker (.empty Incoming) []) [])
    [(broker (.empty Incoming) [],.env (.publish calldata)), (broker published [],.env (.deliver 0 calldata))]
    ⟨broker delivered [],[⟨lost,(),processing lost⟩]⟩ := by
  have hpublished := Machine.Run.step (m := service packages installation)
    (c := (service packages installation).initial (broker (.empty Incoming) []) []) .refl
    (.env (Moves.publish (m := calldata) List.not_mem_nil))
  exact deliver_run published [] 0 hpublished (List.mem_singleton_self _) (wrappedCallback_calldata rfl)

theorem begun_run : ∃ stuck, (service packages installation).Run
    ((service packages installation).initial (broker (.empty Incoming) []) []) begun
    ⟨broker redelivered [creation],[⟨lost,(),stuck⟩,⟨again,(),processing again⟩]⟩ := by
  have hcached := delivered_run.step (.own (i := 0) (l := ()) rfl (Exec.isCached 0 1))
  have hasked := hcached.step (.own (i := 0) (l := ()) rfl (Exec.existsSafeContracts (nothing_found _ [])))
  have hcreation := hasked.step (.own (i := 0) (l := ()) rfl (Exec.send creation (.ok ())))
  have hlost := hcreation.step (.env (Moves.disconnect 0))
  exact ⟨_,deliver_run requeued [creation] 1 hlost (List.mem_singleton_self _)
    (wrappedCallback_calldata rfl)⟩

theorem redelivery_run : ∃ c, (service packages installation).Run
    ((service packages installation).initial (broker (.empty Incoming) []) []) redelivery c ∧
    c.state = broker dropped tasks := by
  obtain ⟨stuck,hbegun⟩ := begun_run
  have hserved := hbegun.trans (serving_run (i := 1) [creation] rfl)
  have hacked := hserved.step (.env (Moves.settle (f := .ack again) (List.mem_singleton_self _)
    (List.mem_singleton_self _)))
  have hnew : noise ∉ acknowledged.published := by decide
  have hnoise := hacked.step (.env (Moves.publish (m := noise) hnew))
  have hunread := deliver_run disturbed tasks 0 hnoise
    (List.mem_singleton_self _) (wrappedCallback_noise rfl)
  have hrefused := hunread.step (.own (i := 2) (l := ()) rfl (Exec.nack unread (.ok ())))
  have hdropped := hrefused.step (.env (Moves.settle (f := .nack unread) (List.mem_singleton_self _)
    (List.mem_singleton_self _)))
  exact ⟨_,hdropped,rfl⟩

theorem never_lost_redelivered :
    (∃ (i : ℕ) (share : Share), (shares redelivery)[i]? = some share ∧ share.delivery = again ∧
      AsksFor packages calldata.body share.check share.jobs) ∧
    (∃ (i : ℕ) (share : Share), (shares redelivery)[i]? = some share ∧ share.delivery = unread ∧
      (Unreadable packages noise.body ∨ ∃ s c e, (s,Event.own i c (.error e)) ∈ redelivery)) ∧
    Covers tasks (shares redelivery) := by
  obtain ⟨c,hrun,hstate⟩ := redelivery_run
  obtain ⟨_,hplace,hsent,_,_⟩ := never_lost ⟨rfl,rfl,rfl⟩ hrun
  rw [hstate] at hplace hsent
  refine ⟨?_,?_,hsent⟩
  · rcases hplace calldata (by decide) with h | ⟨i,th,_,h,_⟩ | ⟨i,share,hi,hmessage,⟨h,hasks⟩ | ⟨h,_⟩⟩
    · cases h
    · cases h
    · exact ⟨i,share,hi,List.mem_singleton.mp h,hasks⟩
    · rw [List.mem_singleton.mp h] at hmessage
      cases hmessage
  · rcases hplace noise (by decide) with h | ⟨i,th,_,h,_⟩ | ⟨i,share,hi,hmessage,⟨h,_⟩ | ⟨h,hcause⟩⟩
    · cases h
    · cases h
    · rw [List.mem_singleton.mp h] at hmessage
      cases hmessage
    · exact ⟨i,share,hi,List.mem_singleton.mp h,hcause⟩

/-- One consumer serves the message, and nothing goes wrong. -/
def once : List (Broker × Event Command Command.Answer PyError Move) :=
  ([(broker (.empty Incoming) [],.env (.publish calldata)), (broker published [],.env (.deliver 0 calldata))] ++
    serving 0 lost delivered []) ++
    [(broker (delivered.answer (.ack lost)) [creation,metadata],.env (.settle (.ack lost)))]

theorem once_run : (service packages installation).Run
    ((service packages installation).initial (broker (.empty Incoming) []) []) once
    ⟨broker ((delivered.answer (.ack lost)).settle (.ack lost)) [creation,metadata],[⟨lost,(),.ret ()⟩]⟩ := by
  have hserved := delivered_run.trans (serving_run (i := 0) [] rfl)
  have hsettled := hserved.step (.env (Moves.settle (f := .ack lost) (List.mem_singleton_self _)
    (List.mem_singleton_self _)))
  exact hsettled

theorem readable_calldata : ¬Unreadable packages calldata.body := by
  rintro (⟨e,he⟩ | ⟨text,e,htext,he⟩)
  · cases (decodeUtf8_toUTF8 _).symm.trans he
  · cases (decodeUtf8_toUTF8 _).symm.trans htext
    cases readEvent_calldata.symm.trans he

theorem sent_once_calldata :
    ((shares once).map fun share => share.delivery.message).Perm [calldata] ∧
    (∀ share ∈ shares once, AsksFor packages share.delivery.message.body share.check share.jobs) ∧
    [creation,metadata].Perm ((shares once).flatMap Share.jobs) ∧ Truthful installation once := by
  have hkept : ∀ (s : Broker) (consumer : ℕ), (s,Event.env (.disconnect consumer)) ∉ once := by
    intro s consumer h
    simp [once, serving] at h
  have hworks : ∀ (s : Broker) (i : ℕ) (cmd : Command) (e : PyError),
      (s,Event.own i cmd (.error e)) ∉ once := by
    intro s i cmd e h
    simp only [once, serving, List.mem_append, List.mem_cons, List.not_mem_nil, or_false] at h
    rcases h with ((h | h) | (h | h | h | h | h | h)) | h <;> cases h
  exact sent_once ⟨rfl,rfl,rfl⟩ once_run hkept hworks
    (fun m hm => List.mem_singleton.mp hm ▸ readable_calldata) (by decide) (by decide)

end Delivering
end SafeDecoder.Consumer
