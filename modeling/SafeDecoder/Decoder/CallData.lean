import SafeDecoder.Decoder.Service

/-! # Decoding call data and the calls inside it

A decoder is written over the resolution of selectors and over the decoder of
nested calls. Tying the second knot on a bounded stack gives `get_data_decoded`,
which runs on the service and, with the same text, on the tables alone.
-/
namespace SafeDecoder
open Effects

mutual

structure DataDecoded where
  method : Json
  parameters : List ParameterDecoded

/-- The key `value_decoded` may be missing, so it is optional besides being nullable. -/
structure ParameterDecoded where
  name : Json
  type : String
  value : PyVal
  valueDecoded : Option ValueDecoded

structure MultisendDecoded where
  operation : ℕ
  toAddress : String
  value : String
  data : Option String
  dataDecoded : Option DataDecoded

inductive ValueDecoded where
  | null
  | transactions (txs : List MultisendDecoded)
  | call (decoded : DataDecoded)

end

def ParameterDecoded.argument (p : ParameterDecoded) : Json × String × PyVal :=
  (p.name,p.type,p.value)

def DataDecoded.arguments (d : DataDecoded) : List (Json × String × PyVal) :=
  d.parameters.map ParameterDecoded.argument

def ValueDecoded.ofTransactions : Option (List MultisendDecoded) → ValueDecoded
  | some txs => transactions txs
  | none => null

def ValueDecoded.ofCall : Option DataDecoded → ValueDecoded
  | some decoded => call decoded
  | none => null

/-- `0x6a761202` -/
def execTransactionSelector : Bytes := [0x6a, 0x76, 0x12, 0x02]

mutual

/-- `_parse_decoded_arguments`: bytes and integers become text, also inside tuples and lists. -/
def parseDecodedArguments : PyVal → PyVal
  | .tuple elems => .tuple (parseDecodedElements elems)
  | .list elems => .list (parseDecodedElements elems)
  | .bytes b => .str (to0xHexStr b)
  | .int n => .str (strOfInt n)
  | .bool b => .str (strOfBool b)
  | .str s => .str s
  | .decimal n scale => .decimal n scale

def parseDecodedElements : List PyVal → List PyVal
  | [] => []
  | value :: rest => parseDecodedArguments value :: parseDecodedElements rest

end

section Arguments
variable (L : Externals)

def addressesChecksummedNormalizer (typeStr : String) (data : PyVal) :
    Except PyError (String × PyVal) :=
  if typeStr = "address" then do
    let address ← L.fastToChecksumAddress data
    return (typeStr,address)
  else .ok (typeStr,data)

/-- The `try` block of `_decode_data`, with `zip` stopping at the shortest list. -/
def decodeArguments (fnAbi : Json) (params : Bytes) : Except PyError (List (Json × String × PyVal)) :=
  catchOnly PyError.isDecodingProblem
    (do
      let names ← L.getAbiInputNames fnAbi
      let types ← L.getAbiInputTypes fnAbi
      let decoded ← L.decodeAbi types params
      let normalized ← L.mapAbiData (addressesChecksummedNormalizer L) types decoded
      return names.zip (types.zip (normalized.map parseDecodedArguments)))
    fun _ => throw .unexpectedProblemDecoding

def ParameterDecoded.ofArgument (argument : Json × String × PyVal) : ParameterDecoded :=
  ⟨argument.1,argument.2.1,argument.2.2,none⟩

/-- `parameters[i]["value_decoded"] = value_decoded` -/
def setValueDecoded (parameters : List ParameterDecoded) (i : ℕ) (valueDecoded : ValueDecoded) :
    Except PyError (List ParameterDecoded) :=
  match parameters[i]? with
  | some p => .ok (parameters.set i { p with valueDecoded := some valueDecoded })
  | none => .error .indexError

end Arguments

section Decoder
variable {m : Type → Type} [Monad m] [MonadExceptOf PyError m] (L : Externals)
  (multisend : Dict Bytes Json) (getAbiFunction : Bytes → Option PyVal → Option Int → m (Option Json))

/-- `_decode_data` on bytes -/
def decodeDataWith (data : Bytes) (address : Option PyVal) (chainId : Option Int) :
    m (Json × List (Json × String × PyVal)) :=
  if data.isEmpty then throw .cannotDecode
  else do
    let found ← getAbiFunction data address chainId
    match found.filter Json.truthy with
    | none => throw .cannotDecode
    | some fnAbi => do
      let arguments ← fromExcept (decodeArguments L fnAbi (data.drop 4))
      let name ← fromExcept (fnAbi.getItem "name")
      return (name,arguments)

section Nested
variable (nested : Bytes → Option PyVal → Option Int → m (Option DataDecoded))

/-- One element of the comprehension of `decode_multisend_data`. -/
def decodeMultisendTx (chainId : Option Int) (tx : MultiSendTx) : m MultisendDecoded := do
  let dataDecoded ← nested tx.data (some (.str tx.toAddress)) chainId
  return ⟨tx.operation,tx.toAddress,strOfInt tx.value,
    if tx.data.isEmpty then none else some (to0xHexStr tx.data),dataDecoded⟩

/-- `decode_multisend_data`: a `ValueError` of any element gives up the whole batch. -/
def decodeMultisendData (data : Bytes) (chainId : Option Int) : m (Option (List MultisendDecoded)) :=
  catchOnly PyError.isValueError
    (do
      let txs ← fromExcept (L.fromTransactionData data)
      some <$> txs.mapM (decodeMultisendTx nested chainId))
    fun _ => pure none

/-- The branch of `decode_parameters_data` for `execTransaction`. -/
def decodeInnerTransaction (parameters : List ParameterDecoded) (chainId : Option Int) :
    m (List ParameterDecoded) :=
  match parameters with
  | safeTo :: _ :: safeData :: _ => do
    let data ← fromExcept (L.hexBytes safeData.value)
    if data.isEmpty then pure parameters
    else
      catchOnly PyError.isDataDecoderException
        (do
          let decoded ← nested data (some safeTo.value) chainId
          fromExcept (setValueDecoded parameters 2 (.ofCall decoded)))
        fun _ => pure parameters
  | _ => pure parameters

def decodeParametersData (data : Bytes) (parameters : List ParameterDecoded)
    (chainId : Option Int) : m (List ParameterDecoded) :=
  if selectorOf data ∈ multisend then do
    let txs ← decodeMultisendData L nested data chainId
    fromExcept (setValueDecoded parameters 0 (.ofTransactions txs))
  else if selectorOf data = execTransactionSelector then
    decodeInnerTransaction L nested parameters chainId
  else pure parameters

def decodeTransactionWithTypesWith (data : Bytes) (address : Option PyVal) (chainId : Option Int) :
    m (Json × List ParameterDecoded) := do
  let raw ← decodeDataWith L getAbiFunction data address chainId
  let parameters ← decodeParametersData L multisend nested data
    (raw.2.map ParameterDecoded.ofArgument) chainId
  return (raw.1,parameters)

end Nested

/-- `get_data_decoded` on a stack that holds `n` nested calls. -/
def getDataDecodedWith : ℕ → Bytes → Option PyVal → Option Int → m (Option DataDecoded)
  | 0, _, _, _ => throw .recursionError
  | n+1, data, address, chainId =>
    if data.isEmpty then pure none
    else catchOnly PyError.isDataDecoderException
      (do
        let decoded ← decodeTransactionWithTypesWith L multisend getAbiFunction
          (getDataDecodedWith n) data address chainId
        return some ⟨decoded.1,decoded.2⟩)
      fun _ => pure none

end Decoder

section Service
variable (L : Externals) {C : Caches} (db : Db)

/-- `get_data_decoded` of the running service. -/
def getDataDecoded (n : ℕ) (data : Bytes) (address : Option PyVal) (chainId : Option Int) :
    Py C (Option DataDecoded) := do
  let s ← get
  getDataDecodedWith L s.multisendFnSelectorsWithAbis (getAbiFunction L db) n data address chainId

/-- What `get_data_decoded` returns when nothing is cached. -/
def decodedFromTables (multisend index : Dict Bytes Json) (n : ℕ) (data : Bytes)
    (address : Option PyVal) (chainId : Option Int) : Except PyError (Option DataDecoded) :=
  getDataDecodedWith L multisend (resolve L db index) n data address chainId

end Service

section Pure
variable {L : Externals} {multisend : Dict Bytes Json}
  {g : Bytes → Option PyVal → Option Int → Except PyError (Option Json)}

theorem decodeDataWith_eq_ok_iff {data : Bytes} {address : Option PyVal} {chainId : Option Int}
    {r : Json × List (Json × String × PyVal)} :
    decodeDataWith L g data address chainId = .ok r ↔ data.isEmpty = false ∧
      ∃ fnAbi, g data address chainId = .ok (some fnAbi) ∧ fnAbi.truthy ∧
        decodeArguments L fnAbi (data.drop 4) = .ok r.2 ∧ fnAbi.getItem "name" = .ok r.1 := by
  unfold decodeDataWith
  cases hd : data.isEmpty with
  | true =>
    constructor
    · exact fun h => nomatch h
    · exact fun h => nomatch h.1
  | false =>
    rw [if_neg Bool.false_ne_true, bind_eq_ok_iff]
    constructor
    · rintro ⟨found,hf,h⟩
      cases hfn : found.filter Json.truthy with
      | none =>
        rw [hfn] at h
        cases h
      | some fnAbi =>
        rw [hfn] at h
        simp only [fromExcept_eq] at h
        obtain ⟨arguments,ha,h⟩ := bind_eq_ok_iff.mp h
        obtain ⟨name,hn,h⟩ := bind_eq_ok_iff.mp h
        cases h
        obtain ⟨rfl,ht⟩ := Option.filter_eq_some_iff.mp hfn
        exact ⟨rfl,fnAbi,hf,ht,ha,hn⟩
    · rintro ⟨_,fnAbi,hf,ht,ha,hn⟩
      refine ⟨some fnAbi,hf,?_⟩
      rw [Option.filter_some, if_pos ht]
      simp only [fromExcept_eq, ha, hn]
      rfl

/-- A decoding is returned exactly when the call data and its nested calls are decoded. -/
theorem getDataDecodedWith_eq_some_iff {n : ℕ} {data : Bytes} {address : Option PyVal}
    {chainId : Option Int} {d : DataDecoded} :
    getDataDecodedWith L multisend g (n+1) data address chainId = .ok (some d) ↔
      data.isEmpty = false ∧ decodeTransactionWithTypesWith L multisend g
        (getDataDecodedWith L multisend g n) data address chainId = .ok (d.method,d.parameters) := by
  rw [getDataDecodedWith]
  cases hd : data.isEmpty with
  | true =>
    constructor
    · exact fun h => nomatch h
    · exact fun h => nomatch h.1
  | false =>
    rw [if_neg Bool.false_ne_true]
    cases hr : decodeTransactionWithTypesWith L multisend g (getDataDecodedWith L multisend g n)
        data address chainId with
    | ok r =>
      obtain ⟨name,parameters⟩ := r
      obtain ⟨name',parameters'⟩ := d
      change Except.ok (some (DataDecoded.mk name parameters)) = _ ↔ _
      simp
    | error e =>
      refine ⟨fun h => ?_,fun h => nomatch h.2⟩
      change catchOnly PyError.isDataDecoderException (Except.error e) (fun _ => pure none) = _ at h
      rw [catchOnly_error] at h
      split at h
      · cases h
      · cases h

/-- The inner transaction, once its call data is known. -/
theorem decodeInnerTransaction_of_bytes
    {nested : Bytes → Option PyVal → Option Int → Except PyError (Option DataDecoded)}
    {safeTo second safeData : ParameterDecoded} {rest : List ParameterDecoded} {data : Bytes}
    (h : L.hexBytes safeData.value = .ok data) (chainId : Option Int) :
    decodeInnerTransaction L nested (safeTo :: second :: safeData :: rest) chainId =
      if data.isEmpty then .ok (safeTo :: second :: safeData :: rest)
      else catchOnly PyError.isDataDecoderException (do
        let decoded ← nested data (some safeTo.value) chainId
        setValueDecoded (safeTo :: second :: safeData :: rest) 2 (.ofCall decoded))
        fun _ => .ok (safeTo :: second :: safeData :: rest) := by
  rw [decodeInnerTransaction, h]
  simp only [fromExcept_eq, ok_bind]
  rfl

end Pure

section Running
variable {σ : Type} {L : Externals} {multisend : Dict Bytes Json}
  {g : Bytes → Option PyVal → Option Int → EStateM PyError σ (Option Json)}

theorem setValueDecoded_arguments {ps ps' : List ParameterDecoded} {i : ℕ} {v : ValueDecoded}
    (h : setValueDecoded ps i v = .ok ps') :
    ps'.map ParameterDecoded.argument = ps.map ParameterDecoded.argument := by
  unfold setValueDecoded at h
  cases hi : ps[i]? with
  | none =>
    simp only [hi] at h
    cases h
  | some p =>
    simp only [hi] at h
    cases h
    obtain ⟨hlt,rfl⟩ := List.getElem?_eq_some_iff.mp hi
    have hmap : i < (ps.map ParameterDecoded.argument).length := by rwa [List.length_map]
    have harg : ParameterDecoded.argument { ps[i] with valueDecoded := some v } =
        (ps.map ParameterDecoded.argument)[i] := by
      rw [List.getElem_map]
      rfl
    rw [List.map_set]
    rw [harg, List.set_getElem_self]

/-- Decoding the calls inside the parameters keeps their names, types and values. -/
theorem decodeParametersData_arguments
    (nested : Bytes → Option PyVal → Option Int → EStateM PyError σ (Option DataDecoded))
    (data : Bytes) (ps : List ParameterDecoded) (chainId : Option Int) :
    Triple (fun _ => True) (decodeParametersData L multisend nested data ps chainId)
      (fun ps' => ps'.map ParameterDecoded.argument = ps.map ParameterDecoded.argument)
      fun _ => True := by
  refine Triple.ite ?_ (Triple.ite ?_ (Triple.pure rfl))
  · exact (Triple.trivial _).bind fun txs _ =>
      Triple.lift (fun _ h => setValueDecoded_arguments h) fun _ _ => trivial
  · rcases ps with _ | ⟨safeTo,_ | ⟨second,_ | ⟨safeData,rest⟩⟩⟩
    · exact Triple.pure rfl
    · exact Triple.pure rfl
    · exact Triple.pure rfl
    · refine (Triple.trivial _).bind fun data _ => Triple.ite (Triple.pure rfl) ?_
      refine Triple.catchOnly (F := fun _ => True) ?_ (fun _ _ _ => Triple.pure rfl)
        fun _ _ _ => trivial
      exact (Triple.trivial _).bind fun decoded _ =>
        Triple.lift (fun _ h => setValueDecoded_arguments h) fun _ _ => trivial

/-- A returned decoding shows the function that the first lookup gave. -/
theorem exists_function_of_decoded {n : ℕ} {data : Bytes} {address : Option PyVal}
    {chainId : Option Int} {d : DataDecoded} {s t : σ}
    (h : getDataDecodedWith L multisend g n data address chainId s = .ok (some d) t) :
    ∃ fnAbi u, g data address chainId s = .ok (some fnAbi) u ∧
      fnAbi.getItem "name" = .ok d.method ∧
      decodeArguments L fnAbi (data.drop 4) = .ok d.arguments := by
  cases n with
  | zero => cases h
  | succ n =>
    rw [getDataDecodedWith] at h
    split at h
    · cases h
    · obtain ⟨r,u,hr,h⟩ := run_bind_eq_ok (run_catchOnly_eq_some h)
      cases h
      obtain ⟨raw,v,hraw,h⟩ := run_bind_eq_ok hr
      obtain ⟨parameters,w,hparams,h⟩ := run_bind_eq_ok h
      cases h
      have hargs := ((decodeParametersData_arguments _ _ _ _ v trivial).1 _ _ hparams).2
      unfold decodeDataWith at hraw
      split at hraw
      · cases hraw
      · obtain ⟨found,u',hf,hraw⟩ := run_bind_eq_ok hraw
        cases hfn : found.filter Json.truthy with
        | none =>
          rw [hfn] at hraw
          cases hraw
        | some fnAbi =>
          rw [hfn] at hraw
          obtain ⟨arguments,_,ha,hraw⟩ := run_bind_eq_ok hraw
          obtain ⟨name,_,hn,hraw⟩ := run_bind_eq_ok hraw
          cases hraw
          rw [(Option.filter_eq_some_iff.mp hfn).1] at hf
          refine ⟨fnAbi,u',hf,(run_fromExcept_eq_ok hn).1,?_⟩
          rw [(run_fromExcept_eq_ok ha).1, DataDecoded.arguments, hargs, List.map_map]
          exact congrArg _ (List.map_id _).symm

end Running

section TwoMonads
variable {m m' : Type → Type} [Monad m] [MonadExceptOf PyError m] [Monad m']
  [MonadExceptOf PyError m'] [LawfulMonad m] [LawfulMonad m'] (R : MonadRel PyError m m')
  {L : Externals} {multisend : Dict Bytes Json}
  {f : Bytes → Option PyVal → Option Int → m (Option Json)}
  {g : Bytes → Option PyVal → Option Int → m' (Option Json)}

omit [LawfulMonad m] [LawfulMonad m'] in
theorem decodeDataWith_rel (h : ∀ d a c, R.Rel (f d a c) (g d a c)) (data : Bytes)
    (address : Option PyVal) (chainId : Option Int) :
    R.Rel (decodeDataWith L f data address chainId) (decodeDataWith L g data address chainId) := by
  refine R.ite (R.throw _) (R.bind (h data address chainId) fun found => ?_)
  cases found.filter Json.truthy with
  | none => exact R.throw _
  | some fnAbi =>
    apply R.bind (R.lift _)
    intro arguments
    exact R.bind (R.lift _) fun name => R.pure _

variable {nf : Bytes → Option PyVal → Option Int → m (Option DataDecoded)}
  {ng : Bytes → Option PyVal → Option Int → m' (Option DataDecoded)}

theorem decodeMultisendData_rel (h : ∀ d a c, R.Rel (nf d a c) (ng d a c)) (data : Bytes)
    (chainId : Option Int) :
    R.Rel (decodeMultisendData L nf data chainId) (decodeMultisendData L ng data chainId) := by
  refine R.catchOnly _ (R.bind (R.lift _) fun txs => R.map some (R.mapM (fun tx => ?_) txs))
    fun _ => R.pure none
  exact R.bind (h _ _ _) fun decoded => R.pure _

omit [LawfulMonad m] [LawfulMonad m'] in
theorem decodeInnerTransaction_rel (h : ∀ d a c, R.Rel (nf d a c) (ng d a c))
    (parameters : List ParameterDecoded) (chainId : Option Int) :
    R.Rel (decodeInnerTransaction L nf parameters chainId)
      (decodeInnerTransaction L ng parameters chainId) := by
  rcases parameters with _ | ⟨safeTo,_ | ⟨_,_ | ⟨safeData,_⟩⟩⟩
  · exact R.pure _
  · exact R.pure _
  · exact R.pure _
  · apply R.bind (R.lift _)
    intro data
    refine R.ite (R.pure _) (R.catchOnly _ ?_ fun _ => R.pure _)
    exact R.bind (h _ _ _) fun decoded => R.lift _

theorem decodeParametersData_rel (h : ∀ d a c, R.Rel (nf d a c) (ng d a c)) (data : Bytes)
    (parameters : List ParameterDecoded) (chainId : Option Int) :
    R.Rel (decodeParametersData L multisend nf data parameters chainId)
      (decodeParametersData L multisend ng data parameters chainId) := by
  refine R.ite ?_ (R.ite ?_ (R.pure parameters))
  · exact R.bind (decodeMultisendData_rel R h data chainId) fun txs => R.lift _
  · exact decodeInnerTransaction_rel R h parameters chainId

/-- The decoder preserves whatever the resolution of selectors preserves. -/
theorem getDataDecodedWith_rel (h : ∀ d a c, R.Rel (f d a c) (g d a c)) (n : ℕ) (data : Bytes)
    (address : Option PyVal) (chainId : Option Int) :
    R.Rel (getDataDecodedWith L multisend f n data address chainId)
      (getDataDecodedWith L multisend g n data address chainId) := by
  induction n generalizing data address chainId with
  | zero => exact R.throw _
  | succ n ih =>
    refine R.ite (R.pure none) (R.catchOnly _ ?_ fun _ => R.pure none)
    refine R.bind ?_ fun decoded => R.pure _
    apply R.bind (decodeDataWith_rel R h data address chainId)
    intro raw
    exact R.bind (decodeParametersData_rel R ih data _ chainId) fun parameters => R.pure _

end TwoMonads

section Agreement
variable {L : Externals} {C : Caches} {db : Db} {P : AddressKey → Prop} {s₀ : Service C}

/-- While the caches are coherent the service decodes as its tables say. -/
theorem getDataDecoded_agrees {p : Prop} (h : p → ∀ k, P k) (n : ℕ) (data : Bytes)
    (address : Option PyVal) (chainId : Option Int) :
    Agrees p (Service.Steady L db P s₀) (getDataDecoded L db n data address chainId)
      (decodedFromTables L db s₀.multisendFnSelectorsWithAbis s₀.fnSelectorsWithAbis n data address
        chainId) := by
  apply Agrees.get_bind
  intro s hs
  rw [hs.multisend]
  refine getDataDecodedWith_rel (agreesRel p _) (fun data address chainId => ?_) n data address
    chainId
  exact getAbiFunction_agrees (fun hp a k _ _ => h hp k) data chainId

/-- Whatever is cached, decoding changes the caches only. -/
theorem getDataDecoded_steady (n : ℕ) (data : Bytes) (address : Option PyVal) (chainId : Option Int)
    (s : Service C) :
    Service.Steady L db (fun _ => False) s (finalState (getDataDecoded L db n data address chainId s)) :=
  (getDataDecoded_agrees False.elim n data address chainId).finalState
    (Service.coherent_nowhere s).steady

theorem getDataDecoded_keeps {I : Service C → Prop}
    (h : ∀ k c, Keeps I (getContractAbiSelectorsWithFunctions L db k c)) (n : ℕ) (data : Bytes)
    (address : Option PyVal) (chainId : Option Int) :
    Keeps I (getDataDecoded L db n data address chainId) := by
  apply Triple.get_bind
  intro s hs
  refine (getDataDecodedWith_rel (agreesRel False I) (g := fun _ _ _ => .ok none) ?_ n data address
    chainId).keeps
  exact fun data address chainId => (getAbiFunction_keeps h data address chainId).agrees _

end Agreement
end SafeDecoder
