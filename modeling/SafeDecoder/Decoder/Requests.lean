import SafeDecoder.Decoder.Endpoint
import SafeDecoder.Library.Interleaving

/-! # Requests that take turns

One event loop serves all requests, so another request may run wherever one of
them waits. They share the index, the cursor and the lock of one service. What
they wait for may fail, and while they wait the table of ABIs may change.
-/
namespace SafeDecoder.Requests
open Effects SelectorIndex

/-- The attributes of the service that its requests share, and the ABIs of the database. -/
structure Backend where
  abis : List AbiRow
  fnSelectorsWithAbis : Dict Bytes Json
  lastAbiId : Option ℕ
  lockLoadNewAbis : Bool

inductive Command
  | acquire | release
  | lastAbiId
  | setLastAbiId (last : Option ℕ)
  | lastInsertedId
  | sortedByRelevance
  | idGreaterThan (last : ℕ)
  | nextRow
  /-- `asyncio.to_thread(generate_selectors)` -/
  | generateSelectors
  | addSelectors (items : List (Bytes × Json))
  | contains (selector : Bytes)
  | getItem (selector : Bytes)
  | contractAbi (address : AddressKey) (chainId : Option Int)

namespace Command

def Answer : Command → Type
  | acquire | release | setLastAbiId _ | nextRow | generateSelectors => Unit
  | lastAbiId | lastInsertedId => Option ℕ
  | sortedByRelevance | idGreaterThan _ => List Json
  | addSelectors _ | contains _ => Bool
  | getItem _ => Json
  | contractAbi _ _ => Option Json

/-- The command is awaited. -/
def waits : Command → Bool
  | acquire | lastInsertedId | sortedByRelevance | idGreaterThan _ | nextRow | generateSelectors
  | contractAbi _ _ => true
  | _ => false

end Command

abbrev Request := Proc Command Command.Answer PyError

def issue (c : Command) : Request c.Answer := Proc.perform c

/-- A lost connection, a timeout or a cancellation is nothing that the decoder catches. -/
def IsFailure (e : PyError) : Prop := e.isValueError = false ∧ e.isDataDecoderException = false

section Reloading
variable (L : Externals)

def addAbi (abi : Json) : Request Bool := do
  issue .generateSelectors
  let fromAbi ← fromExcept (generateSelectorsWithAbisFromAbi L abi)
  issue (.addSelectors fromAbi.items)

/-- The loop of `load_new_abis`, with its counter. -/
def addAbis (loadedAbis : ℕ) : List Json → Request ℕ
  | [] => do
    issue .nextRow
    return loadedAbis
  | abi :: rest => do
    issue .nextRow
    let updated ← addAbi L abi
    addAbis (if updated then loadedAbis + 1 else loadedAbis) rest

/-- The part of `load_new_abis` under the lock. -/
def reload : Request ℕ := do
  let previousLastAbiId ← issue .lastAbiId
  let lastAbiId ← issue .lastInsertedId
  issue (.setLastAbiId lastAbiId)
  match previousLastAbiId with
  | none => do
    let abis ← issue .sortedByRelevance
    addAbis L 0 abis
  | some previous =>
    if lastAbiId.any fun last => previous < last then do
      let abis ← issue (.idGreaterThan previous)
      addAbis L 0 abis
    else return 0

/-- `load_new_abis`: the lock is waited for 10 milliseconds. -/
def loadNewAbis : Request ℕ :=
  catchOnly PyError.isTimeoutError
    (do
      issue .acquire
      Proc.ensuring (reload L) (issue .release))
    fun _ => return 0

end Reloading

section Decoding
variable (L : Externals)

def specificOrIndexed (data : Bytes) : Option Json → Request (Option Json)
  | some fnAbi => return some fnAbi
  | none => some <$> issue (.getItem (selectorOf data))

/-- `get_abi_function` for a supported selector: the contract is looked up before the
index is used again. -/
def getSupportedFunction (data : Bytes) (address : Option PyVal) (chainId : Option Int) :
    Request (Option Json) :=
  match address.filter PyVal.truthy with
  | none => some <$> issue (.getItem (selectorOf data))
  | some address => do
    let key ← fromExcept (Externals.addressKey address)
    let specific ← contractSelectorsWith L (fun c => issue (.contractAbi key c)) chainId
    specificOrIndexed data (specific.bind fun d => d.lookup (selectorOf data))

def getAbiFunction (data : Bytes) (address : Option PyVal) (chainId : Option Int) :
    Request (Option Json) := do
  let supported : Bool ← issue (.contains (selectorOf data))
  if supported then getSupportedFunction L data address chainId
  else return none

variable (multisend : Dict Bytes Json)

def getDataDecoded (n : ℕ) (data : Bytes) (address : Option PyVal) (chainId : Option Int) :
    Request (Option DataDecoded) :=
  getDataDecodedWith L multisend (getAbiFunction L) n data address chainId

/-- The accuracy for a supported selector and a contract. -/
def contractAccuracy (key : AddressKey) (chainId : Option Int) : Request DecodingAccuracy := do
  let full ← (match chainId with
    | some chain => Option.any Json.truthy <$> issue (.contractAbi key (some chain))
    | none => return false)
  if full then return .fullMatch
  else do
    let found ← issue (.contractAbi key none)
    return if found.any Json.truthy then .partialMatch else .onlyFunctionMatch

def getDecodingAccuracy (data : Bytes) (address : Option PyVal) (chainId : Option Int) :
    Request DecodingAccuracy := do
  let supported : Bool ← issue (.contains (selectorOf data))
  if supported then
    match address with
    | none => return .onlyFunctionMatch
    | some address => do
      let key ← fromExcept (Externals.addressKey address)
      contractAccuracy key chainId
  else return .noMatch

/-- The endpoint `data_decoder`; `none` is the answer 404. -/
def dataDecoder (n : ℕ) (input : DataDecoderInput L) :
    Request (Option (DataDecoded × DecodingAccuracy)) := do
  let _ ← loadNewAbis L
  let data ← fromExcept (L.hexstrToBytes input.data)
  let decoded ← getDataDecoded L multisend n data input.address input.chainId
  match decoded with
  | none => return none
  | some decoded => do
    let accuracy ← getDecodingAccuracy data input.address input.chainId
    return some (decoded,accuracy)

end Decoding

section Serving
variable (L : Externals) (db : Db)

/-- What the commands do. The contracts are those of `db` throughout. -/
inductive Exec : Backend → Unit → (c : Command) → Except PyError c.Answer → Backend → Unit → Prop
  | acquire {s : Backend} (free : s.lockLoadNewAbis = false) :
      Exec s () .acquire (.ok ()) { s with lockLoadNewAbis := true } ()
  | release {s : Backend} (held : s.lockLoadNewAbis = true) :
      Exec s () .release (.ok ()) { s with lockLoadNewAbis := false } ()
  /-- "Lock is not acquired." -/
  | notAcquired {s : Backend} (free : s.lockLoadNewAbis = false) :
      Exec s () .release (.error (.other "RuntimeError")) s ()
  | lastAbiId {s : Backend} : Exec s () .lastAbiId (.ok s.lastAbiId) s ()
  | setLastAbiId {s : Backend} (last : Option ℕ) :
      Exec s () (.setLastAbiId last) (.ok ()) { s with lastAbiId := last } ()
  | lastInsertedId {s : Backend} : Exec s () .lastInsertedId (.ok (getLastInsertedId s.abis)) s ()
  | sortedByRelevance {s : Backend} {order : List AbiRow} (sorted : IsRelevanceOrder s.abis order) :
      Exec s () .sortedByRelevance (.ok (order.map AbiRow.abiJson)) s ()
  | idGreaterThan {s : Backend} (last : ℕ) : Exec s () (.idGreaterThan last)
      (.ok ((getAbisWithIdGreaterThan s.abis last).map AbiRow.abiJson)) s ()
  | nextRow {s : Backend} : Exec s () .nextRow (.ok ()) s ()
  | generateSelectors {s : Backend} : Exec s () .generateSelectors (.ok ()) s ()
  | addSelectors {s : Backend} (items : List (Bytes × Json)) : Exec s () (.addSelectors items)
      (.ok (addSelectors s.fnSelectorsWithAbis items).2)
      { s with fnSelectorsWithAbis := (addSelectors s.fnSelectorsWithAbis items).1 } ()
  | contains {s : Backend} (k : Bytes) :
      Exec s () (.contains k) (.ok (decide (k ∈ s.fnSelectorsWithAbis))) s ()
  | getItem {s : Backend} {k : Bytes} {f : Json} (found : s.fnSelectorsWithAbis.lookup k = some f) :
      Exec s () (.getItem k) (.ok f) s ()
  | missing {s : Backend} {k : Bytes} (missing : k ∉ s.fnSelectorsWithAbis) :
      Exec s () (.getItem k) (.error .keyError) s ()
  | contractAbi {s : Backend} {address : AddressKey} {chainId : Option Int}
      {r : Except PyError (Option Json)} (found : queryContractAbi L db address chainId = r) :
      Exec s () (.contractAbi address chainId) r s ()
  | failed {s : Backend} {c : Command} {e : PyError} (waits : c.waits) (failure : IsFailure e) :
      Exec s () c (.error e) s ()

/-- The table is changed by other processes, and requests arrive. -/
inductive Move
  | rows (abis : List AbiRow)
  | arrive (input : DataDecoderInput L)

inductive Moves : Move L → Backend → Backend → List (DataDecoderInput L) → Prop
  | rows {s : Backend} (abis : List AbiRow) : Moves (.rows abis) s { s with abis := abis } []
  | arrive {s : Backend} (input : DataDecoderInput L) : Moves (.arrive input) s s [input]

/-- The endpoint of one service, on a stack that holds `n` nested calls. -/
def endpoint (multisend : Dict Bytes Json) (n : ℕ) : Machine Command Command.Answer PyError Backend
    Unit (Move L) (DataDecoderInput L) (Option (DataDecoded × DecodingAccuracy)) where
  exec := Exec L db
  move := Moves L
  program := dataDecoder L multisend n
  session := ()

end Serving

section Effects
variable {L : Externals} {db : Db} {s t : Backend} {c : Command} {r : Except PyError c.Answer}
  {l l' : Unit}

/-- Every function of the one index is that function of the other. -/
def Extends (index larger : Dict Bytes Json) : Prop :=
  ∀ k f, index.lookup k = some f → larger.lookup k = some f

theorem Extends.refl (index : Dict Bytes Json) : Extends index index := fun _ _ h => h

theorem Extends.trans {index mid larger : Dict Bytes Json} (h : Extends index mid)
    (h' : Extends mid larger) : Extends index larger := fun k f hf => h' k f (h k f hf)

theorem Extends.mem {index larger : Dict Bytes Json} (h : Extends index larger) {k : Bytes}
    (hk : k ∈ index) : k ∈ larger := by
  obtain ⟨f,hf⟩ := Option.isSome_iff_exists.mp (AList.lookup_isSome.mpr hk)
  exact AList.lookup_isSome.mp (Option.isSome_of_eq_some (h k f hf))

theorem extends_addSelectors (index : Dict Bytes Json) (items : List (Bytes × Json)) :
    Extends index (addSelectors index items).1 := by
  intro k f hf
  rw [addSelectors_fst, Dict.lookup_fillMissing, hf, Option.some_or]

theorem Exec.extends (h : Exec L db s l c r t l') :
    Extends s.fnSelectorsWithAbis t.fnSelectorsWithAbis := by
  cases h with
  | addSelectors items => exact extends_addSelectors _ items
  | _ => exact .refl _

end Effects

/-! ## A reload that is alone -/

section Undisturbed
variable {C : Caches} {L : Externals} {db : Db} {multisend : Dict Bytes Json} {n : ℕ} {α : Type}
  {table : List AbiRow} {s : Service C}

/-- What requests share of a service. -/
def backend (table : List AbiRow) (s : Service C) : Backend :=
  ⟨table,s.fnSelectorsWithAbis,s.lastAbiId,s.lockLoadNewAbis⟩

/-- The end of a computation on the service. -/
def ended : Except PyError α → Service C → EStateM.Result PyError (Service C) α
  | .ok a, t => .ok a t
  | .error e, t => .error e t

theorem finalState_ended (r : Except PyError α) (t : Service C) : finalState (ended r t) = t := by
  cases r <;> rfl

/-- Nobody else takes a turn. -/
abbrev undisturbed : Discipline (Backend × Unit) := .alone fun _ => True

variable (L db multisend n) in
/-- A command of a request that is alone. -/
abbrev Issued : Backend × Unit → Unit → (c : Command) → Except PyError c.Answer → Backend × Unit →
    Unit → Prop := (endpoint L db multisend n).recorded (fun _ _ _ => ()) 0

/-- A request ends as a computation on the service does. -/
def EndsAs (table : List AbiRow) (P : EStateM.Result PyError (Service C) α → Prop)
    (r : Except PyError α) (b : Backend × Unit) (_ : Unit) : Prop :=
  ∃ t, P (ended r t) ∧ b.1 = backend table t

theorem issued {c : Command} {next : Except PyError c.Answer → Request α} {b : Backend}
    {Q : Except PyError α → Backend × Unit → Unit → Prop}
    (h : ∀ r b', Exec L db b () c r b' () →
      Meets undisturbed 0 (Issued L db multisend n) Q (next r) (b',()) ()) :
    Meets undisturbed 0 (Issued L db multisend n) Q (.call c next) (b,()) () := by
  apply Meets.call
  rintro _ rfl _ r ⟨b',_⟩ _ ⟨he,-⟩
  exact ⟨⟨trivial,trivial⟩,h r b' he⟩

theorem returned {a : α} {t : Service C} {P : EStateM.Result PyError (Service C) α → Prop}
    (h : P (.ok a t)) : Meets undisturbed 0 (Issued L db multisend n) (EndsAs table P) (.ret a)
      (backend table t,()) () := by
  apply Meets.ret
  rintro _ rfl _
  exact ⟨t,h,rfl⟩

theorem raised {e : PyError} {t : Service C} {P : EStateM.Result PyError (Service C) α → Prop}
    (h : P (.error e t)) : Meets undisturbed 0 (Issued L db multisend n) (EndsAs table P) (.raise e)
      (backend table t,()) () := by
  apply Meets.raise
  rintro _ rfl _
  exact ⟨t,h,rfl⟩

theorem EndsAs.mono {P P' : EStateM.Result PyError (Service C) α → Prop} (h : ∀ y, P y → P' y)
    {x : Request α} {b : Backend × Unit}
    (hx : Meets undisturbed 0 (Issued L db multisend n) (EndsAs table P) x b ()) :
    Meets undisturbed 0 (Issued L db multisend n) (EndsAs table P') x b () := by
  refine hx.mono ?_
  rintro r b l - ⟨t,ht,hb⟩
  exact ⟨t,h _ ht,hb⟩

/-- The failure, if there is one, comes after `rows` rows or later. -/
def ComesAfter (rows : ℕ) (failure : Option Failure) : Prop :=
  ∀ f, failure = some f → ∃ k, rows ≤ k ∧ (f.point = .stream k ∨ f.point = .selectors k)

theorem comesAfter_none (rows : ℕ) : ComesAfter rows none := fun _ h => by cases h

theorem comesAfter_some {rows k : ℕ} {point : WaitPoint} (e : PyError) (hle : rows ≤ k)
    (h : point = .stream k ∨ point = .selectors k) : ComesAfter rows (some ⟨point,e⟩) := by
  intro f hf
  cases hf
  exact ⟨k,hle,h⟩

theorem ComesAfter.waitAt {rows : ℕ} {failure : Option Failure} (h : ComesAfter rows failure)
    {point : WaitPoint} (hpoint : ∀ k, rows ≤ k → point ≠ .stream k ∧ point ≠ .selectors k)
    (s : Service C) : SafeDecoder.waitAt failure point s = .ok () s := by
  rcases waitAt_cases failure point s with ⟨hw,-⟩ | ⟨f,hf,rfl,-⟩
  · exact hw
  · obtain ⟨k,hk,hstream | hselectors⟩ := h f hf
    · exact absurd hstream (hpoint k hk).1
    · exact absurd hselectors (hpoint k hk).2

theorem ComesAfter.mono {rows rows' : ℕ} {failure : Option Failure} (h : ComesAfter rows' failure)
    (hle : rows ≤ rows') : ComesAfter rows failure := by
  intro f hf
  obtain ⟨k,hk,hpoint⟩ := h f hf
  exact ⟨k,hle.trans hk,hpoint⟩

theorem waitAt_failure (point : WaitPoint) (e : PyError) (s : Service C) :
    waitAt (some ⟨point,e⟩) point s = .error e s := by
  simp only [waitAt, if_true]
  rfl

/-- A row that is not where the failure comes is added. -/
theorem addAbis_row {failure : Option Failure} {rows : ℕ} (hf : ComesAfter (rows+1) failure)
    (loaded : ℕ) (abi : Json) (rest : List Json) (s : Service C) :
    SafeDecoder.addAbis L failure rows loaded (abi :: rest) s =
      (SafeDecoder.addAbi L abi >>= fun updated =>
        SafeDecoder.addAbis L failure (rows+1) (if updated then loaded + 1 else loaded) rest) s := by
  have hstream : waitAt failure (.stream rows) s = .ok () s :=
    hf.waitAt (fun k hk => ⟨by simp; omega,by simp⟩) s
  have hselectors : waitAt failure (.selectors rows) s = .ok () s :=
    hf.waitAt (fun k hk => ⟨by simp,by simp; omega⟩) s
  rw [SafeDecoder.addAbis, run_bind_ok hstream, run_bind_ok hselectors]

/-- The loop ends so, with some failure that comes after `rows` rows or later, or with none. -/
def AddsAs (L : Externals) (rows loaded : ℕ) (abis : List Json) (s : Service C)
    (y : EStateM.Result PyError (Service C) ℕ) : Prop :=
  ∃ failure, ComesAfter rows failure ∧ SafeDecoder.addAbis L failure rows loaded abis s = y

theorem addAbis_endsAs (abis : List Json) (rows loaded : ℕ) (s : Service C) :
    Meets undisturbed 0 (Issued L db multisend n)
      (EndsAs table (AddsAs L rows loaded abis s))
      (addAbis L loaded abis) (backend table s,()) () := by
  induction abis generalizing rows loaded s with
  | nil =>
    refine issued fun r b he => ?_
    cases he with
    | nextRow => exact returned ⟨none,comesAfter_none rows,rfl⟩
    | failed =>
      rename_i e _ _
      exact raised ⟨some ⟨.stream rows,e⟩,comesAfter_some e le_rfl (.inl rfl),
        run_bind_error (waitAt_failure _ e s)⟩
  | cons abi rest ih =>
    refine issued fun r b he => ?_
    cases he with
    | failed =>
      rename_i e _ _
      exact raised ⟨some ⟨.stream rows,e⟩,comesAfter_some e le_rfl (.inl rfl),
        run_bind_error (waitAt_failure _ e s)⟩
    | nextRow =>
    refine issued fun r b he => ?_
    cases he with
    | failed =>
      rename_i e _ _
      have hstream : waitAt (some ⟨.selectors rows,e⟩) (.stream rows) s = .ok () s := by
        simp only [waitAt, reduceCtorEq, if_false]
        rfl
      exact raised ⟨some ⟨.selectors rows,e⟩,comesAfter_some e le_rfl (.inr rfl),
        (run_bind_ok hstream).trans (run_bind_error (waitAt_failure _ e s))⟩
    | generateSelectors =>
    cases hd : generateSelectorsWithAbisFromAbi L abi with
    | error e =>
      have hadd : SafeDecoder.addAbi L abi s = .error e s := by
        rw [SafeDecoder.addAbi, hd]
        rfl
      exact raised ⟨none,comesAfter_none rows,
        (addAbis_row (comesAfter_none _) loaded abi rest s).trans (run_bind_error hadd)⟩
    | ok d =>
      have hadd : SafeDecoder.addAbi L abi s =
          .ok (SelectorIndex.addSelectors s.fnSelectorsWithAbis d.items).2
            { s with fnSelectorsWithAbis :=
              (SelectorIndex.addSelectors s.fnSelectorsWithAbis d.items).1 } := by
        rw [SafeDecoder.addAbi, hd]
        rfl
      refine issued fun r b he => ?_
      cases he with
      | failed waits => cases waits
      | addSelectors =>
      refine EndsAs.mono ?_ (ih (rows+1) _ { s with
        fnSelectorsWithAbis := (SelectorIndex.addSelectors s.fnSelectorsWithAbis d.items).1 })
      rintro y ⟨failure,hafter,rfl⟩
      exact ⟨failure,hafter.mono (Nat.le_succ rows),
        (addAbis_row hafter loaded abi rest s).trans (run_bind_ok hadd)⟩

/-- A stream that fails at its first row. -/
theorem addAbis_refused (e : PyError) (abis : List Json) (s : Service C) :
    SafeDecoder.addAbis L (some ⟨.stream 0,e⟩) 0 0 abis s = .error e s := by
  cases abis with
  | nil => exact run_bind_error (waitAt_failure _ e s)
  | cons abi rest => exact run_bind_error (waitAt_failure _ e s)

/-- The failure does not come at the lock. -/
def Locked (failure : Option Failure) : Prop := ∀ f, failure = some f → f.point ≠ .lock

theorem ComesAfter.locked {rows : ℕ} {failure : Option Failure} (h : ComesAfter rows failure) :
    Locked failure := by
  intro f hf hlock
  obtain ⟨k,-,hpoint | hpoint⟩ := h f hf
  · rw [hlock] at hpoint
    cases hpoint
  · rw [hlock] at hpoint
    cases hpoint

theorem reload_first {failure : Option Failure} {q : AbiQueries}
    (h : waitAt failure .idQuery s = .ok () s) (hlast : s.lastAbiId = none) :
    SafeDecoder.reload L failure q s =
      SafeDecoder.addAbis L failure 0 0 q.sortedByRelevance { s with lastAbiId := q.lastInsertedId } := by
  rcases s with ⟨index,multi,last,lock,abi,sel⟩
  subst hlast
  rw [SafeDecoder.reload, run_bind_ok h]
  rfl

theorem reload_later {failure : Option Failure} {q : AbiQueries} {previous : ℕ}
    (h : waitAt failure .idQuery s = .ok () s) (hlast : s.lastAbiId = some previous) :
    SafeDecoder.reload L failure q s =
      (if q.lastInsertedId.any fun last => previous < last then
        SafeDecoder.addAbis L failure 0 0 (q.idGreaterThan previous)
      else return 0) { s with lastAbiId := q.lastInsertedId } := by
  rcases s with ⟨index,multi,last,lock,abi,sel⟩
  subst hlast
  rw [SafeDecoder.reload, run_bind_ok h]
  rfl

def ReloadsAs (L : Externals) (table : List AbiRow) (s : Service C)
    (y : EStateM.Result PyError (Service C) ℕ) : Prop :=
  ∃ failure order, IsRelevanceOrder table order ∧ Locked failure ∧
    SafeDecoder.reload L failure (AbiQueries.ofTable table order) s = y

theorem reload_endsAs (s : Service C) :
    Meets undisturbed 0 (Issued L db multisend n)
      (EndsAs table (ReloadsAs L table s))
      (reload L) (backend table s,()) () := by
  obtain ⟨someOrder,hsome⟩ := RankedStream.exists_isOrder AbiRow.relevance table
  have hqueried : ∀ {failure : Option Failure}, ComesAfter 0 failure →
      waitAt failure .idQuery s = .ok () s := fun hf => hf.waitAt (fun _ _ => ⟨by simp,by simp⟩) s
  refine issued fun r b he => ?_
  cases he with
  | failed waits => cases waits
  | lastAbiId =>
  refine issued fun r b he => ?_
  cases he with
  | failed =>
    rename_i e _ _
    refine raised ⟨some ⟨.idQuery,e⟩,someOrder,hsome,?_,run_bind_error (waitAt_failure _ e s)⟩
    rintro _ ⟨⟩ hpoint
    cases hpoint
  | lastInsertedId =>
  refine issued fun r b he => ?_
  cases he with
  | failed waits => cases waits
  | setLastAbiId =>
  let moved : Service C := { s with lastAbiId := getLastInsertedId table }
  have hrefused : ∀ e, ComesAfter 0 (some ⟨.stream 0,e⟩) := fun e =>
    comesAfter_some e le_rfl (.inl rfl)
  cases hlast : (backend table s).lastAbiId with
  | none =>
    refine issued fun r b he => ?_
    cases he with
    | failed =>
      rename_i e _ _
      refine raised (t := moved) ⟨_,someOrder,hsome,(hrefused e).locked,?_⟩
      exact (reload_first (hqueried (hrefused e)) hlast).trans (addAbis_refused e _ _)
    | sortedByRelevance sorted =>
      refine EndsAs.mono ?_ (addAbis_endsAs _ 0 0 moved)
      rintro y ⟨failure,hafter,rfl⟩
      exact ⟨failure,_,sorted,hafter.locked,reload_first (hqueried hafter) hlast⟩
  | some previous =>
    change Meets undisturbed 0 (Issued L db multisend n) _
      (if (getLastInsertedId table).any fun last => previous < last then do
        let abis ← issue (.idGreaterThan previous)
        addAbis L 0 abis
      else return 0) (backend table moved,()) ()
    by_cases hnew : (getLastInsertedId table).any fun last => previous < last
    · have hlater : ∀ {failure : Option Failure}, ComesAfter 0 failure →
          SafeDecoder.reload L failure (AbiQueries.ofTable table someOrder) s =
            SafeDecoder.addAbis L failure 0 0
              ((getAbisWithIdGreaterThan table previous).map AbiRow.abiJson) moved := fun hafter =>
        (reload_later (hqueried hafter) hlast).trans (congrFun (if_pos hnew) _)
      rw [if_pos hnew]
      refine issued fun r b he => ?_
      cases he with
      | failed =>
        rename_i e _ _
        refine raised (t := moved) ⟨_,someOrder,hsome,(hrefused e).locked,?_⟩
        exact (hlater (hrefused e)).trans (addAbis_refused e _ _)
      | idGreaterThan =>
        refine EndsAs.mono ?_ (addAbis_endsAs _ 0 0 moved)
        rintro y ⟨failure,hafter,rfl⟩
        exact ⟨failure,someOrder,hsome,hafter.locked,hlater hafter⟩
    · rw [if_neg hnew]
      refine returned (t := moved) ⟨none,someOrder,hsome,(fun _ h => by cases h),?_⟩
      exact (reload_later rfl hlast).trans (congrFun (if_neg hnew) _)

/-- A reload leaves the lock as it is. -/
theorem reload_lock (failure : Option Failure) (q : AbiQueries) (s : Service C) :
    (finalState (SafeDecoder.reload L failure q s)).lockLoadNewAbis = s.lockLoadNewAbis := by
  rcases waitAt_cases failure .idQuery s with ⟨hw,-⟩ | ⟨f,-,-,hw⟩
  · rw [reload_finalState hw]
    rfl
  · rw [SafeDecoder.reload, run_bind_error hw]
    rfl

theorem ensuring_ended {x : Py C α} {cleanup : Service C → Service C} {r : Except PyError α}
    {t : Service C} (h : x s = ended r t) : Effects.ensuring x cleanup s = ended r (cleanup t) := by
  unfold Effects.ensuring
  rw [h]
  cases r <;> rfl

/-- A call ends so, with the rows in some order and some failure or none. -/
def LoadsAs (L : Externals) (table : List AbiRow) (s : Service C)
    (y : EStateM.Result PyError (Service C) ℕ) : Prop :=
  ∃ failure order, IsRelevanceOrder table order ∧
    SafeDecoder.loadNewAbis L failure (AbiQueries.ofTable table order) s = y

theorem loadNewAbis_endsAs (s : Service C) :
    Meets undisturbed 0 (Issued L db multisend n)
      (EndsAs table (LoadsAs L table s))
      (loadNewAbis L) (backend table s,()) () := by
  obtain ⟨someOrder,hsome⟩ := RankedStream.exists_isOrder AbiRow.relevance table
  have hlocked : Meets undisturbed 0 (Issued L db multisend n)
      (EndsAs table fun y => ∃ failure order, IsRelevanceOrder table order ∧
        SafeDecoder.reloadLocked L failure (AbiQueries.ofTable table order) s = y)
      (do
        issue .acquire
        Proc.ensuring (reload L) (issue .release)) (backend table s,()) () := by
    refine issued fun r b he => ?_
    cases he with
    | failed =>
      rename_i e _ _
      exact raised ⟨some ⟨.lock,e⟩,someOrder,hsome,run_bind_error (waitAt_failure _ e s)⟩
    | acquire free =>
      let taken : Service C := { s with lockLoadNewAbis := true }
      have hrun : ∀ {failure : Option Failure} {order : List AbiRow} {r : Except PyError ℕ}
          {t : Service C}, Locked failure →
          SafeDecoder.reload L failure (AbiQueries.ofTable table order) taken = ended r t →
          SafeDecoder.reloadLocked L failure (AbiQueries.ofTable table order) s =
              ended r { t with lockLoadNewAbis := false } ∧ t.lockLoadNewAbis = true := by
        intro failure order r t hlock hreload
        have hw : waitAt failure .lock s = .ok () s := by
          rcases waitAt_cases failure .lock s with ⟨hw,-⟩ | ⟨f,hf,hp,-⟩
          · exact hw
          · exact absurd hp (hlock f hf)
        rw [reloadLocked_free free hw]
        refine ⟨ensuring_ended hreload,?_⟩
        have hkept := reload_lock (L := L) failure (AbiQueries.ofTable table order) taken
        rw [hreload, finalState_ended] at hkept
        exact hkept
      refine (reload_endsAs taken).ensuring ?_ ?_
      · rintro a ⟨b,_⟩ _ - ⟨t,⟨failure,order,sorted,hlock,hreload⟩,hb⟩
        cases hb
        obtain ⟨hend,htaken⟩ := hrun hlock hreload
        refine issued fun r b he => ?_
        cases he with
        | release => exact returned (t := { t with lockLoadNewAbis := false }) ⟨failure,order,sorted,hend⟩
        | notAcquired hfree => exact absurd (htaken.symm.trans hfree) (by simp)
        | failed waits => cases waits
      · rintro e ⟨b,_⟩ _ - ⟨t,⟨failure,order,sorted,hlock,hreload⟩,hb⟩
        cases hb
        obtain ⟨hend,htaken⟩ := hrun hlock hreload
        refine issued fun r b he => ?_
        cases he with
        | release => exact raised (t := { t with lockLoadNewAbis := false }) ⟨failure,order,sorted,hend⟩
        | notAcquired hfree => exact absurd (htaken.symm.trans hfree) (by simp)
        | failed waits => cases waits
  refine hlocked.handle ?_ ?_
  · rintro a b l - ⟨t,⟨failure,order,sorted,hrun⟩,hb⟩
    exact ⟨t,⟨failure,order,sorted,run_catchOnly_ok hrun⟩,hb⟩
  · rintro e ⟨b,_⟩ _ - ⟨t,⟨failure,order,sorted,hrun⟩,hb⟩
    cases hb
    by_cases hcaught : e.isTimeoutError
    · simp only [hcaught, if_true]
      refine returned ⟨failure,order,sorted,?_⟩
      rw [SafeDecoder.loadNewAbis, run_catchOnly_error hrun, if_pos hcaught]
      rfl
    · simp only [hcaught]
      refine raised ⟨failure,order,sorted,?_⟩
      rw [SafeDecoder.loadNewAbis, run_catchOnly_error hrun, if_neg hcaught]

/-- `load_new_abis` of a request that nobody disturbs is the one of the service, with some failure
or none. -/
theorem loadNewAbis_alone {tr : List (Backend × Event Command Command.Answer PyError (Move L))}
    {y : Request ℕ} {b : Backend} {l : Unit} {r : Except PyError ℕ}
    (h : (endpoint L db multisend n).Alone (loadNewAbis L) (backend table s) () tr y b l)
    (hr : y.outcome? = some r) : ∃ t, LoadsAs L table s (ended r t) ∧ b = backend table t :=
  h.outcome (loadNewAbis_endsAs s) (g := ()) trivial hr

end Undisturbed
end SafeDecoder.Requests
