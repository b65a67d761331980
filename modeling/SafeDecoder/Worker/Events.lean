import Mathlib.Data.List.Dedup
import SafeDecoder.Data.Digits
import SafeDecoder.Worker.System

/-! # Events of the transaction service

An event that the validator accepts goes through `int`, `HexBytes`, the MultiSend
parser and a query with a `BIGINT` parameter before its tasks are sent. The
callback of the queue drops the message when one of them raises.
-/
namespace SafeDecoder.Events
open Effects Worker

section Model

/-- `_safe_contracts_cache` and the tasks that have been sent, in order. A chain
is remembered after a query that asyncpg took it for. -/
structure EventsState where
  safeContractsCache : List Int
  sent : List Job
  fits : ∀ n ∈ safeContractsCache, fitsBigInt n

/-- The service as it starts. -/
def EventsState.fresh : EventsState := ⟨[],[],fun _ h => absurd h List.not_mem_nil⟩

def EventsState.remember (chainId : Int) (h : fitsBigInt chainId) (s : EventsState) : EventsState :=
  { s with
    safeContractsCache := chainId :: s.safeContractsCache
    fits := List.forall_mem_cons.mpr ⟨h,s.fits⟩ }

def EventsState.send (job : Job) (s : EventsState) : EventsState := { s with sent := s.sent ++ [job] }

abbrev Service := EStateM PyError EventsState

/-- `Contract.exists_safe_contracts` -/
def existsSafeContracts (db : Db) (chainId : Int) (addresses : List Bytes) : Except PyError Bool :=
  if addresses.isEmpty then .ok false
  else if fitsBigInt chainId then
    .ok (db.contracts.countP (fun c => c.chainId = chainId && c.address ∈ addresses) ==
      addresses.length)
  else .error .dbApiError

theorem fits_of_existsSafeContracts {db : Db} {chainId : Int} {addresses : List Bytes}
    (h : existsSafeContracts db chainId addresses = .ok true) : fitsBigInt chainId := by
  unfold existsSafeContracts at h
  split at h
  · cases h
  · split at h
    · assumption
    · cases h

theorem existsSafeContracts_isOk (db : Db) (chainId : Int) (addresses : List Bytes) :
    (∃ r, existsSafeContracts db chainId addresses = .ok r) ↔
      addresses = [] ∨ fitsBigInt chainId := by
  unfold existsSafeContracts
  rw [← List.isEmpty_iff]
  split
  · simp [*]
  · split <;> simp [*]

/-- The packages that the service is built on: `json.loads` gives nothing for a
`JSONDecodeError`, which nothing else raises here. -/
structure Packages where
  externals : Externals
  loads : String → Except PyError (Option Json)
  fastIsChecksumAddress : String → Bool

variable (P : Packages) (inst : Installation) (db : Db)

/-- `get_contracts_from_data` -/
def getContractsFromData (data : String) : Except PyError (List String) :=
  if data = "" then .ok []
  else do
    let bytes ← P.externals.hexstrToBytes data
    let txs ← P.externals.fromTransactionData bytes
    return txs.map MultiSendTx.toAddress

/-- The set of the addresses that `safe_contracts_exist` looks for. -/
def safeAddresses : List Bytes :=
  (inst.deployments.map fun d => inst.addresses.toBytes d.contractAddress).dedup

/-- A positive answer of the query is remembered. -/
def cacheExists (chainId : Int) : (r : Except PyError Bool) → (r = .ok true → fitsBigInt chainId) →
    Service Bool
  | .ok true, h => do
    modify (EventsState.remember chainId (h rfl))
    return true
  | .ok false, _ => return false
  | .error e, _ => throw e

def safeContractsExist (chainId : Int) : Service Bool := do
  let s ← get
  if chainId ∈ s.safeContractsCache then return true
  else
    cacheExists chainId (existsSafeContracts db chainId (safeAddresses inst))
      fits_of_existsSafeContracts

/-- `NULL_ADDRESS` -/
def nullAddressText : String := to0xHexStr nullAddress

/-- The loop over the addresses of a transaction. -/
def sendContracts (chainId : Int) : List String → Service Unit
  | [] => return ()
  | address :: rest => do
    if address ≠ nullAddressText then
      modify (EventsState.send (.getContractMetadata { address := address, chainId := chainId }))
    sendContracts chainId rest

/-- `event[key]` for a field that the validator has found to be a text. -/
def textField (event : Json) (key : String) : Except PyError String := do
  match ← event.getItem key with
  | .str text => return text
  | _ => throw .typeError

/-- `_is_processable_event`; only an object has the method `get`. -/
def isProcessableEvent (event : Json) : Except PyError Bool :=
  match event with
  | .obj fields =>
    let isType := Json.isText "EXECUTED_MULTISIG_TRANSACTION" ((fields.lookup "type").getD .null)
    let isChain := match (fields.lookup "chainId").getD .null with
      | .str chainId => isDigit chainId
      | _ => false
    let isData := match (fields.lookup "data").getD (.num 0 0) with
      | .null | .str _ => true
      | _ => false
    let isTo := match (fields.lookup "to").getD .null with
      | .str address => P.fastIsChecksumAddress address
      | _ => false
    .ok (isType && isChain && isData && isTo)
  | _ => .error (.other "AttributeError")

/-- The tasks for a transaction with data. The addresses are a set, in Python's order. -/
def sendTasks (event : Json) (data : String) : Service Unit := do
  let chainId ← fromExcept (do intOfText (← textField event "chainId"))
  let address ← fromExcept (textField event "to")
  let contractsFromData ← fromExcept (getContractsFromData P data)
  let exist ← safeContractsExist inst db chainId
  if !exist then modify (EventsState.send (.createSafeContractsForNewChains chainId))
  sendContracts chainId (address :: contractsFromData).dedup

def processEvent (message : String) : Service Unit := do
  match ← fromExcept (P.loads message) with
  | none => return ()
  | some event =>
    if ← fromExcept (isProcessableEvent P event) then
      match ← fromExcept (event.getItem "data") with
      | .str data => if data ≠ "" then sendTasks P inst db event data
      | _ => return ()

/-- What the queue is told about a message; `nack` is `nack(requeue=False)`. -/
inductive Acknowledgement
  | ack
  | nack
  deriving DecidableEq

/-- `except Exception`, which does not catch a cancellation. -/
def isException (e : PyError) : Bool := e ≠ .cancelledError

/-- `body.decode("utf-8")` -/
def decodeUtf8 (body : Bytes) : Except PyError String :=
  match String.fromUTF8? ⟨body.toArray⟩ with
  | some text => .ok text
  | none => .error .valueError

def wrappedCallback (callback : String → Service Unit) (body : Bytes) : Service Acknowledgement :=
  catchOnly isException
    (do
      if !body.isEmpty then
        let text ← fromExcept (decodeUtf8 body)
        callback text
      return .ack)
    fun _ => return .nack

/-- The message is processed and acknowledged. -/
structure Processed (message : String) (s : EventsState) : Prop where
  completes : ∃ t, processEvent P inst db message s = .ok () t
  acknowledged : ∃ t, wrappedCallback (processEvent P inst db) message.toUTF8.data.toList s =
    .ok .ack t

/-- What the operations after the validator ask of the chain and of the data. -/
structure Digestible (chainId data : String) : Prop where
  decimal : isDecimal chainId
  short : chainId.length ≤ maxStrDigits
  fits : inst.deployments = [] ∨ fitsBigInt (decimalNumber chainId)
  hex : readableAsHex data
  parsed : ∀ b, P.externals.hexstrToBytes data = .ok b →
    ∃ txs, P.externals.fromTransactionData b = .ok txs

/-- An event without data asks for nothing. -/
def Processable (event : Json) : Prop :=
  ∀ chainId data, event.getItem "chainId" = .ok (.str chainId) →
    event.getItem "data" = .ok (.str data) → data ≠ "" → Digestible P inst chainId data

end Model

section Operations
variable {P : Packages} {inst : Installation} {db : Db} {s : EventsState} {α β : Type}

def Succeeds (x : Service α) (s : EventsState) : Prop := ∃ a t, x s = .ok a t

theorem succeeds_bind {x : Service α} {f : α → Service β} :
    Succeeds (x >>= f) s ↔ ∃ a t, x s = .ok a t ∧ Succeeds (f a) t := by
  constructor
  · rintro ⟨b,t,h⟩
    obtain ⟨a,u,ha,hb⟩ := run_bind_eq_ok h
    exact ⟨a,u,ha,b,t,hb⟩
  · rintro ⟨a,u,ha,b,t,hb⟩
    exact ⟨b,t,(run_bind_ok ha).trans hb⟩

theorem succeeds_lift {y : Except PyError α} {f : α → Service β} :
    Succeeds (fromExcept y >>= f) s ↔ ∃ a, y = .ok a ∧ Succeeds (f a) s := by
  rw [succeeds_bind]
  constructor
  · rintro ⟨a,t,ha,h⟩
    obtain ⟨hy,rfl⟩ := run_fromExcept_eq_ok ha
    exact ⟨a,hy,h⟩
  · rintro ⟨a,rfl,h⟩
    exact ⟨a,s,rfl,h⟩

theorem textField_of_text {event : Json} {key text : String}
    (h : event.getItem key = .ok (.str text)) : textField event key = .ok text := by
  rw [textField, h]
  rfl

/-- Every address but the null one gets a task. -/
theorem sendContracts_run (chainId : Int) (addresses : List String) (s : EventsState) :
    sendContracts chainId addresses s = .ok () { s with
      sent := s.sent ++ (addresses.filter fun a => a ≠ nullAddressText).map fun a =>
        .getContractMetadata { address := a, chainId := chainId } } := by
  induction addresses generalizing s with
  | nil => simp [sendContracts, pure, EStateM.pure]
  | cons a rest ih =>
    by_cases ha : a = nullAddressText
    · rw [sendContracts, if_neg (not_not.mpr ha)]
      apply (ih s).trans
      simp [ha]
    · rw [sendContracts, if_pos ha]
      apply (ih _).trans
      simp [ha, EventsState.send]

theorem safeAddresses_eq_nil : safeAddresses inst = [] ↔ inst.deployments = [] := by
  rw [safeAddresses, List.dedup_eq_nil, List.map_eq_nil_iff]

theorem cacheExists_succeeds {chainId : Int} (r : Except PyError Bool)
    (h : r = .ok true → fitsBigInt chainId) :
    Succeeds (cacheExists chainId r h) s ↔ ∃ b, r = .ok b := by
  match r, h with
  | .ok true, _ => exact iff_of_true ⟨true,_,rfl⟩ ⟨true,rfl⟩
  | .ok false, _ => exact iff_of_true ⟨false,s,rfl⟩ ⟨false,rfl⟩
  | .error e, _ => exact iff_of_false (fun ⟨_,_,h⟩ => nomatch h) fun ⟨_,h⟩ => nomatch h

/-- What is remembered is not looked up again. -/
theorem safeContractsExist_eq (chainId : Int) (s : EventsState) :
    safeContractsExist inst db chainId s =
      (if chainId ∈ s.safeContractsCache then (pure true : Service Bool)
        else cacheExists chainId (existsSafeContracts db chainId (safeAddresses inst))
          fits_of_existsSafeContracts) s := rfl

/-- A cached chain has been asked for before, so it fits the column. -/
theorem safeContractsExist_succeeds (chainId : Int) :
    Succeeds (safeContractsExist inst db chainId) s ↔
      inst.deployments = [] ∨ fitsBigInt chainId := by
  rw [Succeeds, safeContractsExist_eq]
  by_cases hcached : chainId ∈ s.safeContractsCache
  · rw [if_pos hcached]
    exact iff_of_true ⟨true,s,rfl⟩ (.inr (s.fits _ hcached))
  · rw [if_neg hcached, ← safeAddresses_eq_nil, ← existsSafeContracts_isOk db]
    exact cacheExists_succeeds _ _

theorem getContractsFromData_isOk (hhex : ReadsHexTexts P.externals) {data : String} (h : data ≠ "") :
    (∃ r, getContractsFromData P data = .ok r) ↔ readableAsHex data ∧
      ∀ b, P.externals.hexstrToBytes data = .ok b → ∃ txs, P.externals.fromTransactionData b = .ok txs := by
  rw [getContractsFromData, if_neg h, ← hhex data]
  simp only [bind_eq_ok_iff]
  constructor
  · rintro ⟨r,b,hb,txs,htxs,_⟩
    refine ⟨⟨b,hb⟩,fun b' hb' => ⟨txs,?_⟩⟩
    rw [hb] at hb'
    cases hb'
    exact htxs
  · rintro ⟨⟨b,hb⟩,hparsed⟩
    obtain ⟨txs,htxs⟩ := hparsed b hb
    exact ⟨_,b,hb,txs,htxs,rfl⟩

/-- The tasks of a transaction are sent exactly when every operation takes what it is given. -/
theorem sendTasks_succeeds (hhex : ReadsHexTexts P.externals) {event : Json}
    {chainId address data : String} (hchain : event.getItem "chainId" = .ok (.str chainId))
    (hto : event.getItem "to" = .ok (.str address)) (hdata : data ≠ "") :
    Succeeds (sendTasks P inst db event data) s ↔ Digestible P inst chainId data := by
  have hint : ∀ n, (do intOfText (← textField event "chainId")) = Except.ok n ↔
      isDecimal chainId ∧ chainId.length ≤ maxStrDigits ∧ n = decimalNumber chainId := by
    intro n
    rw [textField_of_text hchain]
    exact intOfText_eq_ok_iff
  have hcontracts := getContractsFromData_isOk hhex hdata
  rw [sendTasks]
  simp only [succeeds_lift, textField_of_text hto, hint]
  constructor
  · rintro ⟨n,⟨hdecimal,hshort,rfl⟩,_,_,r,hr,h⟩
    obtain ⟨hreadable,hparsed⟩ := hcontracts.mp ⟨r,hr⟩
    obtain ⟨exist,t,hexist,_⟩ := succeeds_bind.mp h
    have hfits := (safeContractsExist_succeeds _).mp ⟨exist,t,hexist⟩
    exact ⟨hdecimal,hshort,hfits,hreadable,hparsed⟩
  · rintro ⟨hdecimal,hshort,hfits,hreadable,hparsed⟩
    obtain ⟨r,hr⟩ := hcontracts.mpr ⟨hreadable,hparsed⟩
    have hexists : Succeeds (safeContractsExist inst db (decimalNumber chainId)) s :=
      (safeContractsExist_succeeds _).mpr hfits
    obtain ⟨exist,t,hexist⟩ := hexists
    refine ⟨_,⟨hdecimal,hshort,rfl⟩,address,rfl,r,hr,succeeds_bind.mpr ⟨exist,t,hexist,?_⟩⟩
    cases exist with
    | true => exact ⟨(),_,sendContracts_run _ _ _⟩
    | false => exact ⟨(),_,sendContracts_run _ _ _⟩

theorem getItem_of_getD {fields : List (String × Json)} {key : String} {default v : Json}
    (h : (fields.lookup key).getD default = v) (hv : v ≠ default) :
    (Json.obj fields).getItem key = .ok v := by
  rw [Json.getItem]
  cases hl : fields.lookup key with
  | none =>
    rw [hl, Option.getD_none] at h
    exact absurd h.symm hv
  | some w =>
    rw [hl, Option.getD_some] at h
    rw [h]

/-- The fields of an event that the validator accepts. -/
theorem exists_fields {event : Json} (h : isProcessableEvent P event = .ok true) :
    ∃ chainId address, event.getItem "chainId" = .ok (.str chainId) ∧ isDigit chainId ∧
      event.getItem "to" = .ok (.str address) ∧
        (event.getItem "data" = .ok .null ∨ ∃ data, event.getItem "data" = .ok (.str data)) := by
  cases event with
  | obj fields =>
    have hfields := Except.ok.inj h
    simp only [Bool.and_eq_true] at hfields
    obtain ⟨⟨⟨_,hchain⟩,hdata⟩,hto⟩ := hfields
    split at hchain
    · rename_i chainId hc
      split at hto
      · rename_i address ha
        refine ⟨chainId,address,getItem_of_getD hc (by simp),hchain,getItem_of_getD ha (by simp),?_⟩
        split at hdata
        · rename_i hd
          exact .inl (getItem_of_getD hd (by simp))
        · rename_i data hd
          exact .inr ⟨data,getItem_of_getD hd (by simp)⟩
        · cases hdata
      · cases hto
    · cases hchain
  | _ => cases h

theorem decodeUtf8_toUTF8 (message : String) :
    decodeUtf8 message.toUTF8.data.toList = .ok message := by
  have hbytes : (⟨message.toUTF8.data.toList.toArray⟩ : ByteArray) = message.toByteArray := rfl
  rw [decodeUtf8, hbytes, String.fromUTF8?, dif_pos message.isValidUTF8]
  rfl

/-- A message whose processing completes is acknowledged. -/
theorem wrappedCallback_ack {callback : String → Service Unit} {message : String}
    (h : Succeeds (callback message) s) :
    ∃ t, wrappedCallback callback message.toUTF8.data.toList s = .ok .ack t := by
  obtain ⟨_,t,ht⟩ := h
  by_cases hempty : message.toUTF8.data.toList.isEmpty
  · refine ⟨s,run_catchOnly_ok ?_⟩
    simp only [hempty]
    rfl
  · refine ⟨t,run_catchOnly_ok ?_⟩
    simp only [hempty, decodeUtf8_toUTF8]
    exact run_bind_ok ht

end Operations

section Events
variable {P : Packages} {inst : Installation}

/-- An accepted event is processed exactly when the operations take its chain and its data. -/
theorem processEvent_succeeds (hhex : ReadsHexTexts P.externals) {event : Json} {message : String}
    (hloads : P.loads message = .ok (some event)) (haccepted : isProcessableEvent P event = .ok true)
    (db : Db) (s : EventsState) :
    Succeeds (processEvent P inst db message) s ↔ Processable P inst event := by
  obtain ⟨chainId,address,hchain,_,hto,hdata⟩ := exists_fields haccepted
  have hstart : Succeeds (processEvent P inst db message) s ↔ Succeeds
      (fromExcept (event.getItem "data") >>= fun data => match data with
        | .str data => if data ≠ "" then sendTasks P inst db event data else pure ()
        | _ => (pure () : Service Unit)) s := by
    rw [processEvent, hloads, succeeds_lift]
    simp only [Except.ok.injEq, exists_eq_left']
    rw [haccepted, succeeds_lift]
    simp only [Except.ok.injEq, exists_eq_left', if_true]
  rw [hstart, succeeds_lift]
  rcases hdata with hdata | ⟨data,hdata⟩
  · rw [hdata]
    have hnone : Processable P inst event := by
      intro _ _ _ h
      rw [hdata] at h
      cases h
    exact iff_of_true ⟨_,rfl,(),s,rfl⟩ hnone
  · have hunique : Processable P inst event ↔ (data ≠ "" → Digestible P inst chainId data) := by
      refine ⟨fun h => h chainId data hchain hdata,fun h chainId' data' hc hd => ?_⟩
      rw [hchain] at hc
      rw [hdata] at hd
      cases hc
      cases hd
      exact h
    rw [hdata, hunique]
    simp only [Except.ok.injEq, exists_eq_left']
    by_cases hempty : data = ""
    · rw [if_neg (not_not.mpr hempty)]
      exact iff_of_true ⟨(),s,rfl⟩ fun h => absurd hempty h
    · rw [if_pos hempty]
      exact (sendTasks_succeeds hhex hchain hto hempty).trans ⟨fun h _ => h,fun h => h hempty⟩

theorem processed_iff (hhex : ReadsHexTexts P.externals) {event : Json} {message : String}
    (hloads : P.loads message = .ok (some event)) (haccepted : isProcessableEvent P event = .ok true)
    (db : Db) (s : EventsState) :
    Processed P inst db message s ↔ Processable P inst event := by
  rw [← processEvent_succeeds hhex hloads haccepted db s]
  constructor
  · exact fun h => ⟨(),h.completes⟩
  · intro h
    obtain ⟨⟨⟩,t,ht⟩ := h
    exact ⟨⟨t,ht⟩,wrappedCallback_ack ⟨(),t,ht⟩⟩

end Events

section Messages

def event (chainId data : String) : Json :=
  .obj [("chainId",.str chainId), ("type",.str "EXECUTED_MULTISIG_TRANSACTION"),
    ("to",.str "0x1111111111111111111111111111111111111111"), ("data",.str data)]

def quote (text : String) : String := "\x22" ++ text ++ "\x22"

/-- The event as `json.dumps` writes it. -/
def eventText (chainId data : String) : String :=
  "\x7b" ++ ", ".intercalate
    [quote "chainId" ++ ": " ++ quote chainId,
      quote "type" ++ ": " ++ quote "EXECUTED_MULTISIG_TRANSACTION",
      quote "to" ++ ": " ++ quote "0x1111111111111111111111111111111111111111",
      quote "data" ++ ": " ++ quote data] ++ "\x7d"

/-- A superscript two, the first number beyond 64 bits and a text that is not hexadecimal. -/
def refused : List (String × String) :=
  [("²","0x12"), ("9223372036854775808","0x12"), ("1","zz")]

def samples : List (String × String) := ("1","0x12") :: refused

/-- Packages that read the events of the list, with addresses in decimal digits. -/
def packages : Packages where
  externals := Reference.packages
  loads text := .ok ((samples.find? fun p => text = eventText p.1 p.2).map fun p => event p.1 p.2)
  fastIsChecksumAddress address :=
    address.length = 42 && "0x".toList.isPrefixOf address.toList &&
      (address.toList.drop 2).all Char.isDigit

theorem loads_samples : ∀ p ∈ samples,
    packages.loads (eventText p.1 p.2) = .ok (some (event p.1 p.2)) := by
  have hfind : ∀ p ∈ samples,
      samples.find? (fun q => eventText p.1 p.2 = eventText q.1 q.2) = some p := by decide +kernel
  intro p hp
  have htext : packages.loads (eventText p.1 p.2) = .ok ((samples.find? fun q =>
    eventText p.1 p.2 = eventText q.1 q.2).map fun q => event q.1 q.2) := rfl
  rw [htext, hfind p hp]
  rfl

theorem accepts_samples : ∀ p ∈ samples,
    isProcessableEvent packages (event p.1 p.2) = .ok true := by
  intro p hp
  simp only [samples, refused, List.mem_cons, List.not_mem_nil, or_false] at hp
  rcases hp with rfl | rfl | rfl | rfl <;> rfl

theorem processed_calldata : Processed packages Worker.Reference.installation
    ⟨[],[],[],by simp,by simp⟩ (eventText "1" "0x12") .fresh := by
  refine (processed_iff Reference.readsHexTexts (loads_samples ("1","0x12") (by decide))
    (accepts_samples ("1","0x12") (by decide)) _ _).mpr ?_
  rintro chainId data hchain hdata -
  cases hchain
  cases hdata
  exact ⟨by decide +kernel,by decide +kernel,.inr (by decide +kernel),by decide +kernel,
    fun b hb => ⟨[],by cases hb; rfl⟩⟩

/-- The validator accepts the event and its message is not processed, whatever is stored. -/
structure Dropped (chainId data : String) : Prop where
  accepted : isProcessableEvent packages (event chainId data) = .ok true
  loads : packages.loads (eventText chainId data) = .ok (some (event chainId data))
  notProcessed : ∀ db s,
    ¬Processed packages Worker.Reference.installation db (eventText chainId data) s

theorem dropped_refused : ∀ p ∈ refused, Dropped p.1 p.2 := by
  intro p hp
  have hmem : p ∈ samples := List.mem_cons_of_mem _ hp
  refine ⟨accepts_samples p hmem,loads_samples p hmem,fun db s h => ?_⟩
  have hprocessable := (processEvent_succeeds Reference.readsHexTexts (loads_samples p hmem)
    (accepts_samples p hmem) db s).mp ⟨(),h.completes⟩
  have hdata : ∀ p ∈ refused, p.2 ≠ "" := by decide
  have hdigestible := hprocessable p.1 p.2 rfl rfl (hdata p hp)
  have hfails : ∀ p ∈ refused, ¬(isDecimal p.1 ∧ fitsBigInt (decimalNumber p.1) ∧
      readableAsHex p.2) := by decide +kernel
  refine hfails p hp ⟨hdigestible.decimal,?_,hdigestible.hex⟩
  rcases hdigestible.fits with hnone | hfits
  · cases hnone
  · exact hfits

theorem accepted_notProcessed :
    Dropped "²" "0x12" ∧ Dropped "9223372036854775808" "0x12" ∧ Dropped "1" "zz" :=
  ⟨dropped_refused ("²","0x12") (by decide),
    dropped_refused ("9223372036854775808","0x12") (by decide),dropped_refused ("1","zz") (by decide)⟩

end Messages
end SafeDecoder.Events
