import SafeDecoder.Calls.ReferenceCodec
import SafeDecoder.Worker.ChainChecks

/-! # The tasks of an event

An event asks for the contract that it calls and for the targets of its MultiSend batch. They
are one set of checksummed texts, so an address gets one task however often it is named, and
the null address gets none.
-/
namespace SafeDecoder.EventTasks
open Effects Worker Events ChainChecks

section Model
variable (P : Packages) (inst : Installation) (db : Db)

/-- What is known of a transaction with data before the chain is asked for. -/
structure Transaction where
  chainId : Int
  contracts : List String

/-- The part of `process_event` that looks at nothing but the message. -/
def readEvent (message : String) : Except PyError (Option Transaction) := do
  match ← P.loads message with
  | none => return none
  | some event =>
    if ← isProcessableEvent P event then
      match ← event.getItem "data" with
      | .str data =>
        if data ≠ "" then
          let chainId ← intOfText (← textField event "chainId")
          let address ← textField event "to"
          let contractsFromData ← getContractsFromData P data
          return some ⟨chainId,(address :: contractsFromData).dedup⟩
        else return none
      | _ => return none
    else return none

/-- The part that asks for the chain and sends. -/
def carryOut : Option Transaction → Events.Service Unit
  | none => return ()
  | some t => do
    let exist ← safeContractsExist inst db t.chainId
    if !exist then modify (EventsState.send (.createSafeContractsForNewChains t.chainId))
    sendContracts t.chainId t.contracts

/-- The messages that a service has processed, with the database that each of them found. -/
inductive Reached : List (Db × String) → EventsState → Prop
  | fresh : Reached [] .fresh
  | process {h : List (Db × String)} {s : EventsState} (db : Db) (message : String) (hs : Reached h s) :
      Reached (h ++ [(db,message)]) (finalState (processEvent P inst db message s))

/-- The message makes the service ask for the chain. -/
def AsksFor (message : String) (chainId : Int) : Prop :=
  ∃ contracts, readEvent P message = .ok (some ⟨chainId,contracts⟩)

/-- An earlier message has found every default deployment on the chain. -/
def SeenComplete (h : List (Db × String)) (chainId : Int) : Prop :=
  ∃ e ∈ h, AsksFor P e.2 chainId ∧ Complete inst e.1 chainId

/-- Some default deployment has no row on the chain, and the chain was never seen complete. -/
def Incomplete (h : List (Db × String)) (chainId : Int) : Prop :=
  ¬Complete inst db chainId ∧ ¬SeenComplete P inst h chainId

/-- Texts of addresses in checksum form: `fast_to_checksum_address` -/
structure Checksums (write : Bytes → String) : Prop where
  injective : ∀ a b, a.length = 20 → b.length = 20 → write a = write b → a = b
  null : write nullAddress = nullAddressText
  checked : ∀ text, P.fastIsChecksumAddress text → ∃ b, b.length = 20 ∧ write b = text
  targets : ∀ bytes txs, P.externals.fromTransactionData bytes = .ok txs →
    ∀ tx ∈ txs, ∃ b, b.length = 20 ∧ write b = tx.toAddress

/-- The addresses that an event involves, without the null address. -/
def Involved (write : Bytes → String) (address : String) (txs : List MultiSendTx) (b : Bytes) : Prop :=
  b.length = 20 ∧ b ≠ nullAddress ∧ (write b = address ∨ ∃ tx ∈ txs, tx.toAddress = write b)

/-- The call returns and has sent one task for each involved address, one for the chain if it
is not complete, and nothing else. -/
structure Queues (write : Bytes → String) (h : List (Db × String)) (s : EventsState) (message : String)
    (chainId : Int) (address : String) (txs : List MultiSendTx) : Prop where
  sends : ∃ t, processEvent P inst db message s = .ok () t ∧ ∃ creations : List Job,
    (Incomplete P inst db h chainId → creations = [.createSafeContractsForNewChains chainId]) ∧
    (¬Incomplete P inst db h chainId → creations = []) ∧
    ∃ contracts : List Bytes, contracts.Nodup ∧ (∀ b, b ∈ contracts ↔ Involved write address txs b) ∧
      ∃ new, t.sent = s.sent ++ new ∧ new.Perm (creations ++
        contracts.map fun b => .getContractMetadata { address := write b, chainId := chainId })

/-- What an accepted event with hex data and a decimal `chainId` that fits the database leads
to, as long as `int` reads a text of that length. -/
structure Exact (write : Bytes → String) (h : List (Db × String)) (s : EventsState) (message : String)
    (event : Json) : Prop where
  nothing : (event.getItem "data" = .ok .null ∨ event.getItem "data" = .ok (.str "")) →
    processEvent P inst db message s = .ok () s
  queues : ∀ chainId address data bytes txs, event.getItem "chainId" = .ok (.str chainId) →
    event.getItem "to" = .ok (.str address) → event.getItem "data" = .ok (.str data) → data ≠ "" →
    isDecimal chainId → fitsBigInt (decimalNumber chainId) → P.externals.hexstrToBytes data = .ok bytes →
    P.externals.fromTransactionData bytes = .ok txs → chainId.length ≤ maxStrDigits →
      Queues P inst db write h s message (decimalNumber chainId) address txs
  refuses : ∀ chainId data, event.getItem "chainId" = .ok (.str chainId) →
    event.getItem "data" = .ok (.str data) → data ≠ "" → maxStrDigits < chainId.length →
      processEvent P inst db message s = .error .valueError s

end Model

section Reading
variable {P : Packages} {inst : Installation} {db : Db} {s : EventsState}

theorem sendTasks_eq (event : Json) (data : String) :
    (if data ≠ "" then sendTasks P inst db event data else pure () : Events.Service Unit) =
      fromExcept (if data ≠ "" then do
          let chainId ← intOfText (← textField event "chainId")
          let address ← textField event "to"
          let contractsFromData ← getContractsFromData P data
          return some ⟨chainId,(address :: contractsFromData).dedup⟩
        else return none) >>= carryOut inst db := by
  by_cases hdata : data = ""
  · subst hdata
    rfl
  · rw [if_pos hdata, if_pos hdata, sendTasks]
    cases textField event "chainId" with
    | error e => rfl
    | ok text =>
      simp only [ok_bind]
      cases intOfText text with
      | error e => rfl
      | ok n =>
        cases textField event "to" with
        | error e => rfl
        | ok address => cases getContractsFromData P data <;> rfl

/-- Nothing of the message is looked at after the chain has been asked for. -/
theorem processEvent_eq (message : String) :
    processEvent P inst db message = fromExcept (readEvent P message) >>= carryOut inst db := by
  rw [processEvent, readEvent]
  cases P.loads message with
  | error e => rfl
  | ok found =>
    cases found with
    | none => rfl
    | some event =>
      simp only [ok_bind]
      change ((fromExcept (isProcessableEvent P event) : Events.Service Bool) >>= _) = _
      cases isProcessableEvent P event with
      | error e => rfl
      | ok accepted =>
        cases accepted with
        | false => rfl
        | true =>
          simp only [ok_bind, if_true]
          change ((fromExcept (event.getItem "data") : Events.Service Json) >>= _) = _
          cases event.getItem "data" with
          | error e => rfl
          | ok v =>
            cases v with
            | str data => exact sendTasks_eq event data
            | _ => rfl

theorem accepted_to {event : Json} {address : String} (haccepted : isProcessableEvent P event = .ok true)
    (hto : event.getItem "to" = .ok (.str address)) : P.fastIsChecksumAddress address := by
  cases event with
  | obj fields =>
    have hfields := Except.ok.inj haccepted
    simp only [Bool.and_eq_true] at hfields
    obtain ⟨_,hchecked⟩ := hfields
    rw [Json.getItem] at hto
    cases hl : fields.lookup "to" with
    | none =>
      rw [hl] at hto
      cases hto
    | some v =>
      rw [hl] at hto hchecked
      cases hto
      exact hchecked
  | _ => cases haccepted

/-- What the message is read as when all its parts can be read. -/
theorem readEvent_eq {message chainId address data : String} {event : Json} {bytes : Bytes}
    {txs : List MultiSendTx} {n : Int} (hloads : P.loads message = .ok (some event))
    (haccepted : isProcessableEvent P event = .ok true)
    (hchain : event.getItem "chainId" = .ok (.str chainId))
    (hto : event.getItem "to" = .ok (.str address)) (hdata : event.getItem "data" = .ok (.str data))
    (hne : data ≠ "") (hint : intOfText chainId = .ok n)
    (hbytes : P.externals.hexstrToBytes data = .ok bytes)
    (htxs : P.externals.fromTransactionData bytes = .ok txs) :
    readEvent P message = .ok (some ⟨n,(address :: txs.map MultiSendTx.toAddress).dedup⟩) := by
  have hcontracts : getContractsFromData P data = .ok (txs.map MultiSendTx.toAddress) := by
    rw [getContractsFromData, if_neg hne, hbytes, ok_bind, htxs]
    rfl
  rw [readEvent, hloads]
  simp only [ok_bind, haccepted, if_true, hdata, if_pos hne, textField_of_text hchain,
    textField_of_text hto, hint, hcontracts]
  rfl

end Reading

section Sending
variable {P : Packages} {inst : Installation} {db : Db} {s : EventsState}

/-- The answer about a chain, and what is remembered of it. -/
theorem safeContractsExist_run (db : Db) (s : EventsState) (hdeployed : inst.deployments ≠ [])
    {n : Int} (hfits : fitsBigInt n) :
    ∃ exist t, safeContractsExist inst db n s = .ok exist t ∧ t.sent = s.sent ∧
      (exist = true ↔ n ∈ s.safeContractsCache ∨ Complete inst db n) ∧
      ∀ m, m ∈ t.safeContractsCache ↔ m ∈ s.safeContractsCache ∨ m = n ∧ Complete inst db n := by
  have hcomplete : existsSafeContracts db n (safeAddresses inst) = .ok true ↔ Complete inst db n := by
    rw [complete_iff]
    exact existsSafeContracts_iff (List.nodup_dedup _) (by rwa [Ne, safeAddresses_eq_nil]) hfits
  rw [safeContractsExist_eq]
  by_cases hcached : n ∈ s.safeContractsCache
  · rw [if_pos hcached]
    refine ⟨true,s,rfl,rfl,by simp [hcached],fun m => ?_⟩
    constructor
    · exact .inl
    · rintro (hm | ⟨rfl,_⟩)
      · exact hm
      · exact hcached
  · rw [if_neg hcached]
    obtain ⟨found,hfound⟩ := (existsSafeContracts_isOk db n (safeAddresses inst)).mpr (.inr hfits)
    rw [hfound, Except.ok.injEq] at hcomplete
    generalize fits_of_existsSafeContracts = hquery
    revert hquery
    rw [hfound]
    intro hquery
    cases found with
    | false =>
      have hnot : ¬Complete inst db n := fun h => Bool.false_ne_true (hcomplete.mpr h)
      exact ⟨false,s,rfl,rfl,by simp [hcached, hnot],fun m => by simp [hnot]⟩
    | true =>
      have hall := hcomplete.mp rfl
      refine ⟨true,_,rfl,rfl,by simp [hall],fun m => ?_⟩
      simp [EventsState.remember, hall, or_comm]

/-- A chain that does not fit cannot have been remembered, and the query raises. -/
theorem safeContractsExist_unfit (hdeployed : inst.deployments ≠ []) {n : Int} (hfits : ¬fitsBigInt n) :
    safeContractsExist inst db n s = .error .dbApiError s := by
  have hsome : (safeAddresses inst).isEmpty = false := by
    simpa [List.isEmpty_eq_false_iff, safeAddresses_eq_nil] using hdeployed
  have hraises : existsSafeContracts db n (safeAddresses inst) = .error .dbApiError := by
    rw [existsSafeContracts, hsome, if_neg Bool.false_ne_true, if_neg hfits]
  rw [safeContractsExist_eq, if_neg fun h => hfits (s.fits n h)]
  generalize fits_of_existsSafeContracts = hquery
  revert hquery
  rw [hraises]
  exact fun _ => rfl

/-- The tasks for a transaction on a chain that fits. -/
theorem carryOut_run (db : Db) (s : EventsState) (hdeployed : inst.deployments ≠ []) {n : Int}
    (hfits : fitsBigInt n) (contracts : List String) :
    ∃ exist t, carryOut inst db (some ⟨n,contracts⟩) s = .ok () t ∧
      t.sent = s.sent ++ ((if exist then [] else [.createSafeContractsForNewChains n]) ++
        (contracts.filter fun a => a ≠ nullAddressText).map fun a =>
          .getContractMetadata { address := a, chainId := n }) ∧
      (exist = true ↔ n ∈ s.safeContractsCache ∨ Complete inst db n) ∧
      ∀ m, m ∈ t.safeContractsCache ↔ m ∈ s.safeContractsCache ∨ m = n ∧ Complete inst db n := by
  obtain ⟨exist,t,hrun,hsent,hexist,hcache⟩ :=
    safeContractsExist_run db s hdeployed hfits
  refine ⟨exist,?_⟩
  rw [carryOut, run_bind_ok hrun]
  cases exist with
  | true => exact ⟨_,sendContracts_run n contracts t,by simp [hsent],hexist,hcache⟩
  | false => exact ⟨_,sendContracts_run n contracts _,by simp [EventsState.send, hsent],hexist,hcache⟩

theorem seenComplete_append {h : List (Db × String)} {message : String} {n : Int} :
    SeenComplete P inst (h ++ [(db,message)]) n ↔
      SeenComplete P inst h n ∨ AsksFor P message n ∧ Complete inst db n := by
  simp [SeenComplete, or_and_right, exists_or]

/-- What one message adds to what is remembered. -/
theorem processEvent_cached (hdeployed : inst.deployments ≠ []) (s : EventsState) (message : String)
    {n : Int} (hfits : fitsBigInt n) :
    n ∈ (finalState (processEvent P inst db message s)).safeContractsCache ↔
      n ∈ s.safeContractsCache ∨ AsksFor P message n ∧ Complete inst db n := by
  rw [processEvent_eq]
  cases hread : readEvent P message with
  | error e =>
    have hnot : ¬AsksFor P message n := fun ⟨_,hasks⟩ => by simp [hread] at hasks
    simp only [hnot, false_and, or_false]
    rfl
  | ok found =>
    cases found with
    | none =>
      have hnot : ¬AsksFor P message n := fun ⟨_,hasks⟩ => by simp [hread] at hasks
      simp only [hnot, false_and, or_false]
      rfl
    | some t =>
      obtain ⟨chainId,contracts⟩ := t
      have hasks : AsksFor P message n ↔ n = chainId := by
        simp [AsksFor, hread, eq_comm]
      have hstart : (fromExcept (Except.ok (some ⟨chainId,contracts⟩) : Except PyError _) >>=
          carryOut inst db) s = carryOut inst db (some ⟨chainId,contracts⟩) s := rfl
      rw [hasks, hstart]
      by_cases hchain : fitsBigInt chainId
      · obtain ⟨exist,u,hrun,_,_,hcache⟩ := carryOut_run db s hdeployed hchain contracts
        rw [finalState_of_ok hrun, hcache]
        exact or_congr_right (and_congr_right fun hn => by rw [hn])
      · have hother : ¬(n = chainId ∧ Complete inst db n) := by
          rintro ⟨rfl,_⟩
          exact hchain hfits
        rw [carryOut, run_bind_error (safeContractsExist_unfit hdeployed hchain)]
        exact (or_iff_left hother).symm

/-- What the service remembers is what its messages have found. -/
theorem Reached.cached (hdeployed : inst.deployments ≠ []) {h : List (Db × String)}
    (hs : Reached P inst h s) {n : Int} (hfits : fitsBigInt n) :
    n ∈ s.safeContractsCache ↔ SeenComplete P inst h n := by
  induction hs with
  | fresh => simp [EventsState.fresh, SeenComplete]
  | @process h s db message _ ih =>
    rw [seenComplete_append, ← ih, processEvent_cached hdeployed s message hfits]

end Sending

section Checksums
variable {P : Packages} {write : Bytes → String}

/-- A list of values that all come from somewhere. -/
theorem exists_map_eq {α β : Type} {f : α → β} {p : α → Prop} {l : List β}
    (h : ∀ b ∈ l, ∃ a, p a ∧ f a = b) : ∃ m : List α, (∀ a ∈ m, p a) ∧ m.map f = l := by
  induction l with
  | nil => exact ⟨[],by simp,rfl⟩
  | cons b l ih =>
    obtain ⟨a,ha,rfl⟩ := h b List.mem_cons_self
    obtain ⟨m,hm,rfl⟩ := ih fun b hb => h b (List.mem_cons_of_mem _ hb)
    exact ⟨a :: m,by simpa [ha] using hm,rfl⟩

/-- The texts that get a task are the involved addresses, each of them once. -/
theorem exists_contracts (hwrite : Checksums P write) {address : String}
    (haddress : P.fastIsChecksumAddress address) {bytes : Bytes} {txs : List MultiSendTx}
    (htxs : P.externals.fromTransactionData bytes = .ok txs) :
    ∃ contracts : List Bytes, contracts.Nodup ∧ (∀ b, b ∈ contracts ↔ Involved write address txs b) ∧
      contracts.map write = (address :: txs.map MultiSendTx.toAddress).dedup.filter fun a =>
        a ≠ nullAddressText := by
  have horigin : ∀ text ∈ (address :: txs.map MultiSendTx.toAddress).dedup.filter fun a =>
      a ≠ nullAddressText, ∃ b : Bytes, b.length = 20 ∧ write b = text := by
    intro text htext
    have hmem := List.mem_dedup.mp (List.mem_of_mem_filter htext)
    rcases List.mem_cons.mp hmem with rfl | hmem
    · exact hwrite.checked _ haddress
    · obtain ⟨tx,htx,rfl⟩ := List.mem_map.mp hmem
      exact hwrite.targets bytes txs htxs tx htx
  obtain ⟨contracts,hlength,hmap⟩ := exists_map_eq horigin
  have hnodup : (contracts.map write).Nodup := by
    rw [hmap]
    exact (List.nodup_dedup _).filter _
  have hnull : nullAddress.length = 20 := rfl
  refine ⟨contracts,hnodup.of_map _,fun b => ?_,hmap⟩
  have htext : write b ∈ contracts.map write ↔ write b ≠ nullAddressText ∧
      (write b = address ∨ ∃ tx ∈ txs, tx.toAddress = write b) := by
    rw [hmap, List.mem_filter, List.mem_dedup, List.mem_cons, List.mem_map, decide_eq_true_eq, and_comm]
  constructor
  · intro hb
    obtain ⟨hne,hinvolved⟩ := htext.mp (List.mem_map_of_mem hb)
    refine ⟨hlength b hb,?_,hinvolved⟩
    rintro rfl
    exact hne hwrite.null
  · rintro ⟨hb,hne,hinvolved⟩
    have hwritten : write b ≠ nullAddressText := by
      rw [← hwrite.null]
      exact fun h => hne (hwrite.injective b nullAddress hb hnull h)
    obtain ⟨b',hb',heq⟩ := List.mem_map.mp (htext.mpr ⟨hwritten,hinvolved⟩)
    rwa [← hwrite.injective b' b (hlength b' hb') hb heq]

end Checksums
section Main
variable {P : Packages} {inst : Installation} {db : Db} {write : Bytes → String}
  {h : List (Db × String)} {s : EventsState} {message : String} {event : Json}

/-- An event without data leaves the service as it was. -/
theorem processEvent_nothing (hloads : P.loads message = .ok (some event))
    (haccepted : isProcessableEvent P event = .ok true)
    (hdata : event.getItem "data" = .ok .null ∨ event.getItem "data" = .ok (.str "")) :
    processEvent P inst db message s = .ok () s := by
  have hread : readEvent P message = .ok none := by
    rw [readEvent, hloads]
    rcases hdata with hdata | hdata <;> simp only [ok_bind, haccepted, if_true, hdata] <;> rfl
  rw [processEvent_eq, hread]
  rfl

/-- `int` does not read a text that is too long. -/
theorem processEvent_refuses {chainId data : String} (hloads : P.loads message = .ok (some event))
    (haccepted : isProcessableEvent P event = .ok true)
    (hchain : event.getItem "chainId" = .ok (.str chainId))
    (hdata : event.getItem "data" = .ok (.str data)) (hne : data ≠ "")
    (hlong : maxStrDigits < chainId.length) :
    processEvent P inst db message s = .error .valueError s := by
  have hint : intOfText chainId = .error .valueError := by
    rw [intOfText, if_neg]
    simp only [Bool.and_eq_true, decide_eq_true_eq]
    omega
  have hread : readEvent P message = .error .valueError := by
    rw [readEvent, hloads]
    simp only [ok_bind, haccepted, if_true, hdata, if_pos hne, textField_of_text hchain, hint]
    rfl
  rw [processEvent_eq, hread]
  rfl

theorem processEvent_queues (hwrite : Checksums P write) (hdeployed : inst.deployments ≠ [])
    (hs : Reached P inst h s) {chainId address data : String} {bytes : Bytes} {txs : List MultiSendTx}
    (hloads : P.loads message = .ok (some event)) (haccepted : isProcessableEvent P event = .ok true)
    (hchain : event.getItem "chainId" = .ok (.str chainId))
    (hto : event.getItem "to" = .ok (.str address)) (hdata : event.getItem "data" = .ok (.str data))
    (hne : data ≠ "") (hdecimal : isDecimal chainId) (hfits : fitsBigInt (decimalNumber chainId))
    (hbytes : P.externals.hexstrToBytes data = .ok bytes)
    (htxs : P.externals.fromTransactionData bytes = .ok txs) (hshort : chainId.length ≤ maxStrDigits) :
    Queues P inst db write h s message (decimalNumber chainId) address txs := by
  have hint : intOfText chainId = .ok (decimalNumber chainId : Int) :=
    intOfText_eq_ok_iff.mpr ⟨hdecimal,hshort,rfl⟩
  have hread := readEvent_eq hloads haccepted hchain hto hdata hne hint hbytes htxs
  obtain ⟨exist,t,hrun,hsent,hexist,_⟩ := carryOut_run db s hdeployed hfits
    (address :: txs.map MultiSendTx.toAddress).dedup
  obtain ⟨contracts,hnodup,hinvolved,hmap⟩ :=
    exists_contracts hwrite (accepted_to haccepted hto) htxs
  rw [hs.cached hdeployed hfits] at hexist
  refine ⟨t,?_,if exist then [] else [.createSafeContractsForNewChains (decimalNumber chainId)],
    fun hincomplete => ?_,fun hcomplete => ?_,contracts,hnodup,hinvolved,_,hsent,?_⟩
  · rw [processEvent_eq, hread]
    exact hrun
  · rw [if_neg]
    intro hexists
    rcases hexist.mp hexists with hseen | hall
    · exact hincomplete.2 hseen
    · exact hincomplete.1 hall
  · rw [if_pos]
    rw [Incomplete, not_and_or, not_not, not_not] at hcomplete
    exact hexist.mpr hcomplete.symm
  · rw [← hmap, List.map_map]
    exact List.Perm.refl _

end Main

section Messages
open SafeDecoder.Reference

/-- Packages that read one event, and addresses as they are written with decimal digits. -/
def packagesFor (chainId data : String) : Packages where
  externals := packages
  loads text := .ok (if text = eventText chainId data then some (Events.event chainId data) else none)
  fastIsChecksumAddress address :=
    (hexstrToBytes address).toOption.any fun b => b.length = 20 && to0xHexStr b = address

theorem unpackTxs_address {n : ℕ} {b : Bytes} {txs : List MultiSendTx} (h : unpackTxs n b = .ok txs) :
    ∀ tx ∈ txs, ∃ a : Bytes, a.length = 20 ∧ to0xHexStr a = tx.toAddress := by
  induction n generalizing b txs with
  | zero =>
    cases b with
    | nil =>
      cases h
      exact fun _ htx => absurd htx List.not_mem_nil
    | cons _ _ => cases h
  | succ n ih =>
    cases b with
    | nil =>
      cases h
      exact fun _ htx => absurd htx List.not_mem_nil
    | cons x xs =>
      rw [unpackTxs] at h
      · split at h
        · cases h
        · obtain ⟨rest,hrest,h⟩ := bind_eq_ok_iff.mp h
          cases h
          refine List.forall_mem_cons.mpr ⟨⟨_,?_,rfl⟩,ih hrest⟩
          rw [List.length_take, List.length_drop]
          omega
      · exact List.cons_ne_nil x xs

theorem checksums (chainId data : String) : Checksums (packagesFor chainId data) to0xHexStr where
  injective := by
    intro a b _ _ h
    have hread := hexstrToBytes_to0xHexStr a
    rw [h, hexstrToBytes_to0xHexStr] at hread
    exact (Except.ok.inj hread).symm
  null := rfl
  checked := by
    intro text h
    obtain ⟨b,_,hb⟩ := (Option.any_eq_true _ _).mp h
    rw [Bool.and_eq_true, decide_eq_true_eq, decide_eq_true_eq] at hb
    exact ⟨b,hb⟩
  targets := by
    intro bytes txs h
    rcases fromTransactionData_cases h with rfl | ⟨packed,_,hunpack⟩
    · exact fun _ htx => absurd htx List.not_mem_nil
    · exact unpackTxs_address hunpack

theorem loads_event (chainId data : String) : (packagesFor chainId data).loads (eventText chainId data) =
    .ok (some (Events.event chainId data)) := by
  simp [packagesFor]

theorem packagesFor_hexstrToBytes (chainId data : String) (b : Bytes) :
    (packagesFor chainId data).externals.hexstrToBytes (to0xHexStr b) = .ok b := packages_hexstrToBytes b

theorem packagesFor_fromTransactionData (chainId data : String) (b : Bytes) :
    (packagesFor chainId data).externals.fromTransactionData b = fromTransactionData b := rfl

/-- A one with zeros before it. -/
def paddedOne (zeros : ℕ) : String := String.ofList (List.replicate zeros '0' ++ ['1'])

/-- One target twice, the null address and the contract that is called. -/
def batch : List MultiSendTx :=
  [⟨0,to0xHexStr (List.replicate 20 0x22),0,[]⟩, ⟨0,to0xHexStr (List.replicate 20 0x22),5,[0x12]⟩,
    ⟨0,nullAddressText,0,[]⟩, ⟨1,to0xHexStr (List.replicate 20 0x11),0,[]⟩]

def batchData : Bytes := [0x8d, 0x80, 0xff, 0x0a] ++ encodeAbi [.bytes (pack batch)]

theorem fromTransactionData_batch : fromTransactionData batchData = .ok batch := by
  apply fromTransactionData_pack
  · intro tx htx
    simp only [batch, List.mem_cons, List.not_mem_nil, or_false] at htx
    rcases htx with rfl | rfl | rfl | rfl
    · exact ⟨by decide,⟨_,rfl,rfl⟩,by decide,by decide⟩
    · exact ⟨by decide,⟨_,rfl,rfl⟩,by decide,by decide⟩
    · exact ⟨by decide,⟨_,rfl,rfl⟩,by decide,by decide⟩
    · exact ⟨by decide,⟨_,rfl,rfl⟩,by decide,by decide⟩
  · exact decodeAbi_encodeAbi (.cons (.bytes _) .nil) (by decide +kernel)

/-- The event is accepted, its data are hexadecimal and its `chainId` is decimal and fits, and
yet a fresh service does not queue what it involves. -/
structure Lost (chainId data : String) : Prop where
  accepted : isProcessableEvent (packagesFor chainId data) (Events.event chainId data) = .ok true
  loads : (packagesFor chainId data).loads (eventText chainId data) =
    .ok (some (Events.event chainId data))
  decimal : isDecimal chainId
  fits : fitsBigInt (decimalNumber chainId)
  hex : readableAsHex data
  lost : ∀ db address txs, ¬Queues (packagesFor chainId data) Worker.Reference.installation db to0xHexStr
    [] .fresh (eventText chainId data) (decimalNumber chainId) address txs

section Padded
variable (zeros : ℕ)

theorem toList_paddedOne : (paddedOne zeros).toList = List.replicate zeros '0' ++ ['1'] :=
  String.toList_ofList

theorem length_paddedOne : (paddedOne zeros).length = zeros + 1 := by
  rw [← String.length_toList, toList_paddedOne, List.length_append, List.length_replicate]
  rfl

theorem isDecimal_paddedOne : isDecimal (paddedOne zeros) := by
  have hzero : (decimalValue '0').isSome := by decide
  have hone : (decimalValue '1').isSome := by decide
  have hne : paddedOne zeros ≠ "" := by
    intro h
    have hlength := length_paddedOne zeros
    rw [h] at hlength
    cases hlength
  rw [isDecimal, toList_paddedOne, List.all_append, List.all_replicate]
  simp [hzero, hone, hne]

theorem decimalNumber_paddedOne : decimalNumber (paddedOne zeros) = 1 := by
  have hzero : decimalValue '0' = some 0 := by decide
  have hone : decimalValue '1' = some 1 := by decide
  rw [decimalNumber, toList_paddedOne, List.filterMap_append, List.filterMap_replicate_of_some hzero,
    List.reverse_append, List.reverse_replicate]
  simp [hone, Nat.ofDigits_cons, Nat.ofDigits_replicate_zero]

end Padded

theorem isDigit_of_isDecimal {text : String} (h : isDecimal text) : isDigit text := by
  rw [isDecimal, Bool.and_eq_true, List.all_eq_true] at h
  rw [isDigit, Bool.and_eq_true, List.all_eq_true]
  refine ⟨h.1,fun c hc => ?_⟩
  rw [h.2 c hc, Bool.true_or]

theorem event_accepted {chainId : String} (h : isDecimal chainId) (data : String) :
    isProcessableEvent (packagesFor chainId data) (Events.event chainId data) = .ok true := by
  have haddress : ((hexstrToBytes "0x1111111111111111111111111111111111111111").toOption.any fun b =>
      b.length = 20 && to0xHexStr b = "0x1111111111111111111111111111111111111111") = true := by
    decide +kernel
  have hdigit := isDigit_of_isDecimal h
  change Except.ok (true && isDigit chainId && true && _) = _
  rw [hdigit]
  exact congrArg Except.ok haddress

theorem padded_lost : Lost (paddedOne 4300) "0x12" := by
  have haccepted := event_accepted (isDecimal_paddedOne 4300) "0x12"
  refine ⟨haccepted,loads_event _ _,isDecimal_paddedOne 4300,?_,by decide +kernel,?_⟩
  · rw [decimalNumber_paddedOne]
    decide
  · rintro db address txs ⟨t,ht,_⟩
    have hlong : maxStrDigits < (paddedOne 4300).length := by
      rw [length_paddedOne]
      decide
    have hrefused : processEvent (packagesFor (paddedOne 4300) "0x12") Worker.Reference.installation db
        (eventText (paddedOne 4300) "0x12") .fresh = .error .valueError .fresh :=
      processEvent_refuses (loads_event _ _) haccepted rfl rfl (by decide) hlong
    rw [hrefused] at ht
    cases ht

end Messages

/-- An accepted event queues exactly the contracts that it involves. -/
theorem processEvent_exact {P : Packages} {inst : Installation} {write : Bytes → String}
    {h : List (Db × String)} {s : EventsState} {message : String} {event : Json}
    (hwrite : Checksums P write) (hdeployed : inst.deployments ≠ []) (hs : Reached P inst h s)
    (hloads : P.loads message = .ok (some event)) (haccepted : isProcessableEvent P event = .ok true)
    (db : Db) : Exact P inst db write h s message event where
  nothing := processEvent_nothing hloads haccepted
  queues := fun _ _ _ _ _ => processEvent_queues hwrite hdeployed hs hloads haccepted
  refuses := fun _ _ => processEvent_refuses hloads haccepted

theorem processEvent_exact_batch :
    Queues (packagesFor "1" (to0xHexStr batchData)) Worker.Reference.installation
      (World.empty Worker.Reference.database).db to0xHexStr [] .fresh
      (eventText "1" (to0xHexStr batchData)) (decimalNumber "1")
      "0x1111111111111111111111111111111111111111" batch := by
  have hdeployed : Worker.Reference.installation.deployments ≠ [] := List.cons_ne_nil _ _
  have hdecimal : isDecimal "1" := by decide +kernel
  have hdata : to0xHexStr batchData ≠ "" := by
    intro h
    have hlength := length_to0xHexStr batchData
    rw [h, String.length_empty] at hlength
    omega
  have hbytes := packagesFor_hexstrToBytes "1" (to0xHexStr batchData) batchData
  have htxs := packagesFor_fromTransactionData "1" (to0xHexStr batchData) batchData
  rw [fromTransactionData_batch] at htxs
  have hexact := processEvent_exact (checksums "1" (to0xHexStr batchData)) hdeployed .fresh
    (loads_event _ _) (event_accepted hdecimal _) (World.empty Worker.Reference.database).db
  exact hexact.queues "1" "0x1111111111111111111111111111111111111111" (to0xHexStr batchData) batchData batch
    rfl rfl rfl hdata hdecimal (by decide +kernel) hbytes htxs (by decide +kernel)

end SafeDecoder.EventTasks
