import SafeDecoder.Calls.Exceptions

/-! # Which tables keep an error inside the call it belongs to

Under conditions on the functions that the two special selectors resolve to,
every call returns and the entries of a batch do not affect one another; and
where that holds, the tables meet the conditions.
-/
namespace SafeDecoder.Containment
open Effects SelectorIndex
variable {L : Externals} {db : Db} {index multisend : Dict Bytes Json} {chainId : Option Int}

section Statements

/-- Call data with the selector resolves to `f` at some address. -/
def Resolvable (L : Externals) (db : Db) (index : Dict Bytes Json) (chainId : Option Int) (k : Bytes)
    (f : Json) : Prop :=
  ∃ data address, Acceptable L address ∧ selectorOf data = k ∧
    resolve L db index data address chainId = .ok (some f)

/-- Two batches that differ in the `to` and the `data` of the entry at `i`. -/
inductive DiffersAt (i : ℕ) : List MultiSendTx → List MultiSendTx → Prop
  | mk {before after : List MultiSendTx} {operation value : ℕ} {toAddress toAddress' : String}
      {data data' : Bytes} (position : before.length = i) :
      DiffersAt i (before ++ ⟨operation,toAddress,value,data⟩ :: after)
        (before ++ ⟨operation,toAddress',value,data'⟩ :: after)

/-- Two decoded batches that differ in the value of the first parameter and in
the `to`, the `data` and the decoding of the entry at `i`. -/
inductive Isolated (i : ℕ) : Option DataDecoded → Option DataDecoded → Prop
  | undecoded : Isolated i none none
  | decoded {method name : Json} {type : String} {raw raw' : PyVal} {rest : List ParameterDecoded}
      {before after : List MultisendDecoded} {operation : ℕ} {toAddress toAddress' value : String}
      {data data' : Option String} {inner inner' : Option DataDecoded}
      (position : before.length = i) :
      Isolated i
        (some ⟨method,⟨name,type,raw,some (.transactions
          (before ++ ⟨operation,toAddress,value,data,inner⟩ :: after))⟩ :: rest⟩)
        (some ⟨method,⟨name,type,raw',some (.transactions
          (before ++ ⟨operation,toAddress',value,data',inner'⟩ :: after))⟩ :: rest⟩)

/-- `eth_abi` refuses both, or reads values that differ in the first one only. -/
inductive SameButFirst : Except PyError (List PyVal) → Except PyError (List PyVal) → Prop
  | refused {e e' : PyError} : SameButFirst (.error e) (.error e')
  | read {first first' : PyVal} {rest : List PyVal} :
      SameButFirst (.ok (first :: rest)) (.ok (first' :: rest))

/-- Every call of the service returns, and the entries of a batch do not affect
one another. -/
structure Contained {L : Externals} {C : Caches} (K : Codec L) (db : Db) (s : Service C)
    (chainId : Option Int) : Prop where
  returns : ∀ data address, Acceptable L address → ∀ n, data.length < n →
    ∃ r t, getDataDecoded L db n data address chainId s = .ok r t
  isolated : ∀ i txs changed, DiffersAt i txs changed → K.IsBatch txs → K.IsBatch changed →
    ∀ address, Acceptable L address → ∀ n, (K.multiSendData txs).length < n →
      (K.multiSendData changed).length < n → ∃ r r' t t',
        getDataDecoded L db n (K.multiSendData txs) address chainId s = .ok r t ∧
        getDataDecoded L db n (K.multiSendData changed) address chainId s = .ok r' t' ∧
        Isolated i r r'

/-- What the tables must be like for that. -/
structure Conditions {L : Externals} (K : Codec L) (db : Db) (index multisend : Dict Bytes Json)
    (chainId : Option Int) : Prop where
  /-- A contract lookup has a chain that the column can hold, and finds no malformed ABI. -/
  chainFits : (∃ k, k ∈ index) → ∀ c, chainId = some c → fitsBigInt c
  loadable : (∃ k, k ∈ index) → ∀ a k b abi, PyVal.truthy a → Externals.addressKey a = .ok k →
    L.addressBytes k = .ok b → foundAbi L db k chainId = .ok (some abi) → Loadable L abi
  usable : ∀ k f, Resolvable L db index chainId k f → Usable L f
  /-- A function with the selector of `multiSend` has an input. -/
  batchArgument : ∀ k ∈ multisend, ∀ f, Resolvable L db index chainId k f →
    ∀ types, Takes L f types → types ≠ []
  /-- Where `eth_abi` reads call data with the types of such a function, the unpacking of a
  batch raises `ValueError` or nothing. -/
  batchReadable : ∀ k ∈ multisend, ∀ f, Resolvable L db index chainId k f →
    ∀ types, Takes L f types → ∀ params values, L.decodeAbi types params = .ok values →
      RaisesOnly (fun e => e.isValueError) (L.fromTransactionData (k ++ params))
  /-- A function with the selector of `execTransaction` and a third input has
  call data there, and an address first if that call data has a known selector. -/
  innerCall : ∀ f, Resolvable L db index chainId execTransactionSelector f →
    ∀ types, Takes L f types → ∀ params values safeTo second safeData rest,
      L.decodeAbi types params = .ok values →
      shownValues L types values = .ok (safeTo :: second :: safeData :: rest) →
      ∃ b, L.hexBytes safeData = .ok b ∧
        (b.isEmpty = false → selectorOf b ∈ index → Acceptable L (some safeTo))
  /-- With the types of a function that has the selector of `multiSend`, `eth_abi` reads
  the same values but for the first from two batches that differ in one entry. -/
  stable : ∀ f, Resolvable L db index chainId K.multiSendSelector f →
    ∀ types, Takes L f types → ∀ i txs changed, DiffersAt i txs changed → K.IsBatch txs →
      K.IsBatch changed → SameButFirst (L.decodeAbi types (K.encode ["bytes"] [.bytes (K.pack txs)]))
        (L.decodeAbi types (K.encode ["bytes"] [.bytes (K.pack changed)]))

/-- The decoder looks for further calls inside the call data. -/
def Nests (multisend : Dict Bytes Json) (data : Bytes) : Prop :=
  selectorOf data ∈ multisend ∨ selectorOf data = execTransactionSelector

/-- Call data in the third argument that holds further calls is a part of the
encoded parameters. -/
def ThirdIsPart (L : Externals) (db : Db) (index multisend : Dict Bytes Json)
    (chainId : Option Int) : Prop :=
  ∀ f, Resolvable L db index chainId execTransactionSelector f →
    ∀ params safeTo second safeData rest b,
      decodeArguments L f params = .ok (safeTo :: second :: safeData :: rest) →
      L.hexBytes safeData.2.2 = .ok b → Nests multisend b → b.length ≤ params.length

end Statements

section Batches
variable {K : Codec L}

theorem drop_multiSendData (txs : List MultiSendTx) :
    (K.multiSendData txs).drop 4 = K.encode ["bytes"] [.bytes (K.pack txs)] :=
  drop_selector K.length_multiSendSelector

theorem selectorOf_batch (hmulti : K.multiSendSelector ∈ multisend) (txs : List MultiSendTx) :
    selectorOf (K.multiSendData txs) ∈ multisend := by
  rw [K.selectorOf_multiSendData]
  exact hmulti

/-- The function of a batch does not depend on its entries. -/
theorem resolve_batch (txs : List MultiSendTx) (address : Option PyVal) :
    resolve L db index (K.multiSendData txs) address chainId =
      resolve L db index K.multiSendSelector address chainId := by
  rw [resolve_selectorOf, K.selectorOf_multiSendData]

end Batches

section Arguments
variable (doc : Documented L)

/-- Two readings of the arguments that differ in the first value only. -/
inductive SameArguments : Except PyError (List (Json × String × PyVal)) →
    Except PyError (List (Json × String × PyVal)) → Prop
  | refused {e e' : PyError} : SameArguments (.error e) (.error e')
  | read {name : Json} {type : String} {raw raw' : PyVal} {rest : List (Json × String × PyVal)} :
      SameArguments (.ok ((name,type,raw) :: rest)) (.ok ((name,type,raw') :: rest))

include doc

theorem arguments_of_refused {f : Json} {names : List Json} {types : List String}
    (hinputs : readInputs L f = .ok (names,types)) {params : Bytes} {e : PyError}
    (hd : L.decodeAbi types params = .error e) :
    decodeArguments L f params = .error .unexpectedProblemDecoding := by
  rw [decodeArguments_eq, hinputs, ok_bind, hd, error_bind, catchOnly_error,
    if_pos (doc.decodeError types params e hd)]
  rfl

/-- The arguments are alike exactly when the values are. -/
theorem sameArguments_iff {f : Json} {names : List Json} {types : List String}
    (hinputs : readInputs L f = .ok (names,types)) {params params' : Bytes} :
    SameArguments (decodeArguments L f params) (decodeArguments L f params') ↔
      SameButFirst (L.decodeAbi types params) (L.decodeAbi types params') := by
  have hread : ∀ {params : Bytes} {values : List PyVal}, L.decodeAbi types params = .ok values →
      ∃ shown, shownValues L types values = .ok shown ∧ shown.length = types.length ∧
        decodeArguments L f params = .ok (names.zip (types.zip shown)) := by
    intro params values hd
    obtain ⟨shown,hshown,hlen⟩ := doc.shown types params values hd
    exact ⟨shown,hshown,hlen.trans (doc.decodeLength types params values hd),
      (decodeArguments_eq_ok_iff doc).mpr ⟨names,types,values,shown,hinputs,hd,hshown,rfl⟩⟩
  cases hd : L.decodeAbi types params with
  | error e =>
    rw [arguments_of_refused doc hinputs hd]
    cases hd' : L.decodeAbi types params' with
    | error e' =>
      rw [arguments_of_refused doc hinputs hd']
      exact ⟨fun _ => .refused,fun _ => .refused⟩
    | ok values' =>
      obtain ⟨shown',_,_,hargs'⟩ := hread hd'
      rw [hargs']
      exact ⟨fun h => (by cases h),fun h => (by cases h)⟩
  | ok values =>
    obtain ⟨shown,hshown,hlen,hargs⟩ := hread hd
    rw [hargs]
    cases hd' : L.decodeAbi types params' with
    | error e' =>
      rw [arguments_of_refused doc hinputs hd']
      generalize names.zip (types.zip shown) = args
      exact ⟨fun h => (by cases h),fun h => (by cases h)⟩
    | ok values' =>
      obtain ⟨shown',hshown',hlen',hargs'⟩ := hread hd'
      rw [hargs']
      have hnames := doc.inputsLength f names types hinputs
      have hvalues := doc.decodeLength types params values hd
      have hvalues' := doc.decodeLength types params' values' hd'
      have hapart := doc.shownApart types params params' values values' shown shown' hd hd' hshown hshown'
      rcases types with _ | ⟨type,types⟩
      · -- without inputs there is no first value
        obtain rfl : values = [] := List.length_eq_zero_iff.mp hvalues
        have hzip : ∀ shown : List PyVal, names.zip (([] : List String).zip shown) = [] := fun shown =>
          List.zip_nil_right
        rw [hzip shown, hzip shown']
        exact ⟨fun h => (by cases h),fun h => (by cases h)⟩
      · obtain ⟨name,names,rfl⟩ := List.exists_cons_of_length_eq_add_one hnames
        obtain ⟨first,rest,rfl⟩ := List.exists_cons_of_length_eq_add_one hlen
        obtain ⟨first',rest',rfl⟩ := List.exists_cons_of_length_eq_add_one hlen'
        obtain ⟨v,vs,rfl⟩ := List.exists_cons_of_length_eq_add_one hvalues
        obtain ⟨v',vs',rfl⟩ := List.exists_cons_of_length_eq_add_one hvalues'
        have htails : rest = rest' ↔ vs = vs' := by
          rw [List.ext_getElem?_iff, List.ext_getElem?_iff]
          exact forall_congr' fun i => hapart (i + 1)
        have hrest : rest.length = types.length := by simpa using hlen
        have hrest' : rest'.length = types.length := by simpa using hlen'
        have hnames : names.length = types.length := by simpa using hnames
        rw [List.zip_cons_cons, List.zip_cons_cons, List.zip_cons_cons, List.zip_cons_cons]
        constructor
        · intro h
          have hzip : names.zip (types.zip rest) = names.zip (types.zip rest') := by
            generalize hl : names.zip (types.zip rest) = l at h
            generalize hl' : names.zip (types.zip rest') = l' at h
            cases h
            rfl
          have hsame : types.zip rest = types.zip rest' := by
            have hsnd := congrArg (List.map Prod.snd) hzip
            rwa [List.map_snd_zip (by rw [List.length_zip]; omega),
              List.map_snd_zip (by rw [List.length_zip]; omega)] at hsnd
          have hlast := congrArg (List.map Prod.snd) hsame
          rw [List.map_snd_zip (by omega), List.map_snd_zip (by omega)] at hlast
          rw [htails.mp hlast]
          exact .read
        · intro h
          have hvs : vs = vs' := by
            cases h
            rfl
          rw [htails.mpr hvs]
          exact .read

end Arguments

section Sufficiency
variable {K : Codec L} (doc : Documented L) (hvalid : IndexValid L index)
  (cond : Conditions K db index multisend chainId)

include cond in
theorem Conditions.lookupReturns (hi : ∃ k, k ∈ index) {address : Option PyVal}
    (h : Acceptable L address) : LookupReturns L db chainId address := by
  intro a ha ht
  obtain ⟨k,b,hk,hb⟩ := h a ha ht
  have hquery : ∀ chain, (∀ c, chain = some c → fitsBigInt c) →
      ∃ r, queryContractAbi L db k chain = .ok r := by
    intro chain hc
    rw [queryContractAbi, hb, ok_bind]
    exact db.getAbiByContractAddress_isOk b chain hc
  obtain ⟨own,hown⟩ := hquery chainId (cond.chainFits hi)
  have hfound : ∃ found, foundAbi L db k chainId = .ok found := by
    rw [foundAbi, hown, ok_bind]
    split
    · apply hquery none
      intro c hc
      cases hc
    · exact ⟨own,rfl⟩
  obtain ⟨found,hfound⟩ := hfound
  cases found with
  | none => exact ⟨k,none,hk,contractSelectors_eq_ok_iff.mpr (Or.inl ⟨hfound,rfl⟩)⟩
  | some abi =>
    have hl := cond.loadable hi a k b abi ht hk hb hfound
    exact ⟨k,_,hk,contractSelectors_eq_ok_iff.mpr (Or.inr ⟨abi,hfound,hl,rfl⟩)⟩

include doc in
/-- The entries of a batch are decoded when each of them is. -/
theorem decodeMultisendData_returns
    {nested : Bytes → Option PyVal → Option Int → Except PyError (Option DataDecoded)} {data : Bytes}
    (hbatch : RaisesOnly (fun e => e.isValueError) (L.fromTransactionData data))
    (h : ∀ (b : Bytes) (a : String), b.length < data.length → Acceptable L (some (.str a)) →
      ∃ r, nested b (some (.str a)) chainId = .ok r) :
    ∃ txs, decodeMultisendData L nested data chainId = .ok txs := by
  rw [decodeMultisendData, fromExcept_eq]
  cases hb : L.fromTransactionData data with
  | error e =>
    refine ⟨none,?_⟩
    rw [error_bind, catchOnly_error, if_pos (show e.isValueError = true from hbatch e hb)]
    rfl
  | ok txs =>
    have hentries : ∃ r, txs.mapM (decodeMultisendTx nested chainId) = .ok r := by
      apply exists_mapM_eq_ok.mpr
      intro tx htx
      obtain ⟨hlen,b,hto⟩ := doc.batchEntries data txs hb tx htx
      have haddress : Acceptable L (some (.str tx.toAddress)) := by
        intro a ha _
        cases ha
        exact ⟨.str tx.toAddress,b,rfl,hto⟩
      obtain ⟨r,hr⟩ := h tx.data tx.toAddress hlen haddress
      exact ⟨_,by rw [decodeMultisendTx, hr]; rfl⟩
    obtain ⟨r,hr⟩ := hentries
    refine ⟨some r,?_⟩
    rw [ok_bind, hr]
    rfl

include doc cond

/-- The values of a call as its arguments show them. -/
theorem Conditions.inner_arguments {f : Json}
    (hres : Resolvable L db index chainId execTransactionSelector f) {params : Bytes}
    {safeTo second safeData : Json × String × PyVal} {rest : List (Json × String × PyVal)}
    (hargs : decodeArguments L f params = .ok (safeTo :: second :: safeData :: rest)) :
    ∃ b, L.hexBytes safeData.2.2 = .ok b ∧
      (b.isEmpty = false → selectorOf b ∈ index → Acceptable L (some safeTo.2.2)) := by
  obtain ⟨types,values,htakes,hd,hshown,_⟩ := arguments_shown doc hargs
  exact cond.innerCall f hres types htakes params values safeTo.2.2 second.2.2 safeData.2.2 _ hd hshown

theorem Conditions.batch_arguments {k : Bytes} (hk : k ∈ multisend) {f : Json}
    (hres : Resolvable L db index chainId k f) (params : Bytes) : decodeArguments L f params ≠ .ok [] := by
  intro hargs
  obtain ⟨types,values,htakes,_,_,hlen⟩ := arguments_shown doc hargs
  exact cond.batchArgument k hk f hres types htakes (List.length_eq_zero_iff.mp hlen.symm)

theorem Conditions.batch_readable {data : Bytes} (hk : selectorOf data ∈ multisend) {f : Json}
    (hres : Resolvable L db index chainId (selectorOf data) f) {args : List (Json × String × PyVal)}
    (hargs : decodeArguments L f (data.drop 4) = .ok args) :
    RaisesOnly (fun e => e.isValueError) (L.fromTransactionData data) := by
  obtain ⟨types,values,htakes,hd,_⟩ := arguments_shown doc hargs
  have h := cond.batchReadable _ hk f hres types htakes _ values hd
  rwa [selectorOf, List.take_append_drop] at h

/-- The inner call is decoded when its call data and its address can be used. -/
theorem innerCall_returns
    {nested : Bytes → Option PyVal → Option Int → Except PyError (Option DataDecoded)} {f : Json}
    (hres : Resolvable L db index chainId execTransactionSelector f)
    (hthird : ThirdIsPart L db index multisend chainId) {params : Bytes}
    {args : List (Json × String × PyVal)} (hargs : decodeArguments L f params = .ok args)
    (h : ∀ b a, (Nests multisend b → b.length ≤ params.length) →
      (selectorOf b ∈ index → Acceptable L a) → ∃ r, nested b a chainId = .ok r) :
    ∃ ps, decodeInnerTransaction L nested (args.map ParameterDecoded.ofArgument) chainId =
      .ok ps := by
  rcases args with _ | ⟨safeTo,_ | ⟨second,_ | ⟨safeData,rest⟩⟩⟩
  · exact ⟨_,rfl⟩
  · exact ⟨_,rfl⟩
  · exact ⟨_,rfl⟩
  · obtain ⟨b,hb,haddress⟩ := cond.inner_arguments doc hres hargs
    have hrun : decodeInnerTransaction L nested
        ((safeTo :: second :: safeData :: rest).map ParameterDecoded.ofArgument) chainId = _ :=
      decodeInnerTransaction_of_bytes hb chainId
    rw [hrun]
    cases hne : b.isEmpty with
    | true => exact ⟨_,if_pos rfl⟩
    | false =>
      obtain ⟨r,hr⟩ := h b (some safeTo.2.2) (hthird f hres _ _ _ _ _ b hargs hb) (haddress hne)
      have hset : ∃ ps, setValueDecoded
          ((safeTo :: second :: safeData :: rest).map ParameterDecoded.ofArgument) 2 (.ofCall r) =
            .ok ps := ⟨_,rfl⟩
      obtain ⟨ps,hps⟩ := hset
      refine ⟨ps,(if_neg Bool.false_ne_true).trans ?_⟩
      change catchOnly PyError.isDataDecoderException (do
        let decoded ← nested b (some safeTo.2.2) chainId
        setValueDecoded ((safeTo :: second :: safeData :: rest).map ParameterDecoded.ofArgument) 2
          (.ofCall decoded)) _ = _
      rw [hr, ok_bind, hps, catchOnly_ok]

variable (hthird : ThirdIsPart L db index multisend chainId)
include hvalid hthird

omit hvalid in
/-- The calls inside the parameters are decoded when shorter call data is. -/
theorem parameters_returned
    {nested : Bytes → Option PyVal → Option Int → Except PyError (Option DataDecoded)} {f : Json}
    {data : Bytes} (hres : Resolvable L db index chainId (selectorOf data) f)
    {args : List (Json × String × PyVal)} (hargs : decodeArguments L f (data.drop 4) = .ok args)
    (h : Nests multisend data → ∀ b a, (selectorOf b ∈ index → Acceptable L a) →
      (Nests multisend b → b.length < data.length) → ∃ r, nested b a chainId = .ok r) :
    ∃ ps, decodeParametersData L multisend nested data (args.map ParameterDecoded.ofArgument)
      chainId = .ok ps := by
  rw [decodeParametersData]
  by_cases hmulti : selectorOf data ∈ multisend
  · have hbatch : ∃ txs, decodeMultisendData L nested data chainId = .ok txs :=
      decodeMultisendData_returns doc (cond.batch_readable doc hmulti hres hargs) fun b a hb hacc =>
        h (Or.inl hmulti) b (some (.str a)) (fun _ => hacc) fun _ => hb
    obtain ⟨txs,htxs⟩ := hbatch
    rw [if_pos hmulti, htxs, ok_bind, fromExcept_eq]
    cases args with
    | nil => exact absurd hargs (cond.batch_arguments doc hmulti hres _)
    | cons first rest => exact ⟨_,rfl⟩
  · rw [if_neg hmulti]
    by_cases hsel : selectorOf data = execTransactionSelector
    · rw [if_pos hsel]
      rw [hsel] at hres
      have hfour : 4 ≤ data.length := four_le_length hsel rfl
      refine innerCall_returns doc cond hres hthird hargs fun b a hb hacc =>
        h (Or.inr hsel) b a hacc fun hnests => ?_
      have hpart := hb hnests
      rw [List.length_drop] at hpart
      omega
    · rw [if_neg hsel]
      exact ⟨_,rfl⟩

/-- Under the conditions every call returns on a stack deeper than its data is long. -/
theorem returns_of_conditions (n : ℕ) (data : Bytes) (address : Option PyVal)
    (ha : selectorOf data ∈ index → Acceptable L address) (hpos : 0 < n)
    (hn : Nests multisend data → data.length < n) :
    ∃ r, decodedFromTables L db multisend index n data address chainId = .ok r := by
  induction n generalizing data address with
  | zero => omega
  | succ n ih =>
    cases hne : data.isEmpty with
    | true =>
      refine ⟨none,?_⟩
      rw [decodedFromTables, getDataDecodedWith, if_pos hne]
      rfl
    | false =>
      have hresolve : ∃ r, resolve L db index data address chainId = .ok r :=
        resolve_isOk_iff.mpr fun hk => cond.lookupReturns ⟨_,hk⟩ (ha hk)
      obtain ⟨found,hf⟩ := hresolve
      cases found with
      | none => exact ⟨none,getDataDecodedWith_unread (Or.inr (Or.inl hf)) n⟩
      | some f =>
        have hk := mem_index_of_resolve hf
        have hres : Resolvable L db index chainId (selectorOf data) f :=
          ⟨data,address,ha hk,rfl,hf⟩
        rcases decoded_resolved doc hvalid multisend n hne hf (cond.usable _ f hres) with
          ⟨name,args,_,hargs,hrun⟩ | ⟨_,hrun⟩
        · have hparams : ∃ ps, decodeParametersData L multisend
              (decodedFromTables L db multisend index n) data
              (args.map ParameterDecoded.ofArgument) chainId = .ok ps := by
            apply parameters_returned doc cond hthird hres hargs
            intro hnests b a hacc hb
            have hdeep := hn hnests
            have hsome : 0 < data.length :=
              List.length_pos_iff.mpr (List.isEmpty_eq_false_iff.mp hne)
            apply ih b a hacc (by omega)
            intro hinner
            have hlt := hb hinner
            omega
          obtain ⟨ps,hps⟩ := hparams
          refine ⟨some ⟨name,ps⟩,?_⟩
          rw [hrun, hps]
          rfl
        · exact ⟨none,hrun⟩

omit doc hvalid cond hthird in
/-- A batch is decoded entry by entry: what comes before and after an entry is
decoded without it. -/
theorem decodeMultisendData_append
    {nested : Bytes → Option PyVal → Option Int → Except PyError (Option DataDecoded)}
    {before after : List MultiSendTx} {tx : MultiSendTx} (hbatch : K.IsBatch (before ++ tx :: after))
    (h : ∀ t ∈ before ++ tx :: after, ∃ r, nested t.data (some (.str t.toAddress)) chainId = .ok r) :
    ∃ rb ra data r, before.mapM (decodeMultisendTx nested chainId) = .ok rb ∧
      after.mapM (decodeMultisendTx nested chainId) = .ok ra ∧ rb.length = before.length ∧
      decodeMultisendData L nested (K.multiSendData (before ++ tx :: after)) chainId =
        .ok (some (rb ++ ⟨tx.operation,tx.toAddress,strOfInt tx.value,data,r⟩ :: ra)) := by
  have hentry : ∀ t ∈ before ++ tx :: after, ∃ m, decodeMultisendTx nested chainId t = .ok m := by
    intro t ht
    obtain ⟨r,hr⟩ := h t ht
    exact ⟨_,by rw [decodeMultisendTx, hr]; rfl⟩
  have hbefore : ∃ rb, before.mapM (decodeMultisendTx nested chainId) = .ok rb :=
    exists_mapM_eq_ok.mpr fun t ht => hentry t (List.mem_append_left _ ht)
  have hafter : ∃ ra, after.mapM (decodeMultisendTx nested chainId) = .ok ra :=
    exists_mapM_eq_ok.mpr fun t ht =>
      hentry t (List.mem_append_right _ (List.mem_cons_of_mem _ ht))
  obtain ⟨rb,hrb⟩ := hbefore
  obtain ⟨ra,hra⟩ := hafter
  obtain ⟨r,hr⟩ := h tx (List.mem_append_right _ (List.mem_cons_self ..))
  have htx : decodeMultisendTx nested chainId tx = .ok ⟨tx.operation,tx.toAddress,strOfInt tx.value,
      if tx.data.isEmpty then none else some (to0xHexStr tx.data),r⟩ := by
    rw [decodeMultisendTx, hr]
    rfl
  have hall : (before ++ tx :: after).mapM (decodeMultisendTx nested chainId) =
      .ok (rb ++ ⟨tx.operation,tx.toAddress,strOfInt tx.value,
        if tx.data.isEmpty then none else some (to0xHexStr tx.data),r⟩ :: ra) :=
    mapM_eq_ok_iff.mpr
      (List.rel_append (mapM_eq_ok_iff.mp hrb) (List.Forall₂.cons htx (mapM_eq_ok_iff.mp hra)))
  refine ⟨rb,ra,if tx.data.isEmpty then none else some (to0xHexStr tx.data),r,hrb,hra,
    (mapM_eq_ok_iff.mp hrb).length_eq.symm,?_⟩
  rw [decodeMultisendData, fromExcept_eq, K.fromTransactionData_multiSendData hbatch, ok_bind, hall]
  rfl

omit hvalid cond hthird doc in
/-- What the parameters of a call with the selector of `multiSend` become. -/
theorem decodeParametersData_batch_iff
    {nested : Bytes → Option PyVal → Option Int → Except PyError (Option DataDecoded)} {data : Bytes}
    (hmulti : selectorOf data ∈ multisend) {args : List (Json × String × PyVal)}
    {ps : List ParameterDecoded} :
    decodeParametersData L multisend nested data (args.map ParameterDecoded.ofArgument) chainId =
        .ok ps ↔
      ∃ first rest txs, args = first :: rest ∧ decodeMultisendData L nested data chainId = .ok txs ∧
        ps = ⟨first.1,first.2.1,first.2.2,some (.ofTransactions txs)⟩ ::
          rest.map ParameterDecoded.ofArgument := by
  rw [decodeParametersData, if_pos hmulti, bind_eq_ok_iff]
  simp only [fromExcept_eq]
  constructor
  · rintro ⟨txs,htxs,h⟩
    cases args with
    | nil => cases h
    | cons first rest => exact ⟨first,rest,txs,rfl,htxs,(Except.ok.inj h).symm⟩
  · rintro ⟨first,rest,txs,rfl,htxs,rfl⟩
    exact ⟨txs,htxs,rfl⟩

omit doc hvalid cond hthird in
/-- Two batches that differ in one entry, when every entry is decoded and the
function reads the same arguments but for the first. -/
theorem isolated_of_arguments
    {nested : Bytes → Option PyVal → Option Int → Except PyError (Option DataDecoded)}
    (hmulti : K.multiSendSelector ∈ multisend) {i : ℕ} {txs changed : List MultiSendTx}
    (hdiff : DiffersAt i txs changed) (hbatch : K.IsBatch txs) (hbatch' : K.IsBatch changed)
    (h : ∀ t ∈ txs, ∃ r, nested t.data (some (.str t.toAddress)) chainId = .ok r)
    (h' : ∀ t ∈ changed, ∃ r, nested t.data (some (.str t.toAddress)) chainId = .ok r)
    {args args' : List (Json × String × PyVal)} (hsame : SameArguments (.ok args) (.ok args'))
    {ps ps' : List ParameterDecoded}
    (hps : decodeParametersData L multisend nested (K.multiSendData txs)
      (args.map ParameterDecoded.ofArgument) chainId = .ok ps)
    (hps' : decodeParametersData L multisend nested (K.multiSendData changed)
      (args'.map ParameterDecoded.ofArgument) chainId = .ok ps') (name : Json) :
    Isolated i (some ⟨name,ps⟩) (some ⟨name,ps'⟩) := by
  obtain ⟨first,rest,out,rfl,hout,rfl⟩ := (decodeParametersData_batch_iff (selectorOf_batch hmulti txs)).mp hps
  obtain ⟨first',rest',out',rfl,hout',rfl⟩ :=
    (decodeParametersData_batch_iff (selectorOf_batch hmulti changed)).mp hps'
  cases hdiff with
  | mk hposition =>
    obtain ⟨rb,ra,data,inner,hrb,hra,hlen,hall⟩ := decodeMultisendData_append hbatch h
    obtain ⟨rb',ra',data',inner',hrb',hra',_,hall'⟩ := decodeMultisendData_append hbatch' h'
    rw [hrb] at hrb'
    cases hrb'
    rw [hra] at hra'
    cases hra'
    rw [hall] at hout
    cases hout
    rw [hall'] at hout'
    cases hout'
    cases hsame
    exact .decoded (hlen.trans hposition)

/-- The entries of a batch are decoded on the stack below it. -/
theorem entries_returned {n : ℕ} {txs : List MultiSendTx} (hbatch : K.IsBatch txs)
    (hlen : (K.multiSendData txs).length < n + 1) : ∀ t ∈ txs,
    ∃ r, decodedFromTables L db multisend index n t.data (some (.str t.toAddress)) chainId =
      .ok r := by
  intro t ht
  obtain ⟨hshort,b,hto⟩ := doc.batchEntries _ _ (K.fromTransactionData_multiSendData hbatch) t ht
  refine returns_of_conditions doc hvalid cond hthird n t.data _ (fun _ a ha _ => ?_) (by omega)
    fun _ => by omega
  cases ha
  exact ⟨.str t.toAddress,b,rfl,hto⟩

theorem isolated_of_conditions (hmulti : K.multiSendSelector ∈ multisend) {i : ℕ}
    {txs changed : List MultiSendTx} (hdiff : DiffersAt i txs changed) (hbatch : K.IsBatch txs)
    (hbatch' : K.IsBatch changed) {address : Option PyVal} (ha : Acceptable L address) {n : ℕ}
    (hn : (K.multiSendData txs).length < n) (hn' : (K.multiSendData changed).length < n) :
    ∃ r r', decodedFromTables L db multisend index n (K.multiSendData txs) address chainId = .ok r ∧
      decodedFromTables L db multisend index n (K.multiSendData changed) address chainId = .ok r' ∧
      Isolated i r r' := by
  obtain ⟨n,rfl⟩ := Nat.exists_eq_succ_of_ne_zero (by omega : n ≠ 0)
  have hne := K.multiSendData_ne_nil
  obtain ⟨found,hfound⟩ : ∃ r, resolve L db index K.multiSendSelector address chainId = .ok r :=
    resolve_isOk_iff.mpr fun hk => cond.lookupReturns ⟨_,hk⟩ ha
  have hres : ∀ txs, resolve L db index (K.multiSendData txs) address chainId = .ok found :=
    fun txs => (resolve_batch txs address).trans hfound
  have hreturns : ∀ txs, (K.multiSendData txs).length < n + 1 → ∃ r,
      decodedFromTables L db multisend index (n+1) (K.multiSendData txs) address chainId = .ok r :=
    fun txs hlen => returns_of_conditions doc hvalid cond hthird _ _ _ (fun _ => ha) (by omega)
      fun _ => hlen
  obtain ⟨r,hr⟩ := hreturns txs hn
  obtain ⟨r',hr'⟩ := hreturns changed hn'
  refine ⟨r,r',hr,hr',?_⟩
  cases found with
  | none =>
    have hnone : ∀ txs, decodedFromTables L db multisend index (n+1) (K.multiSendData txs) address
        chainId = .ok none := fun txs =>
      getDataDecodedWith_unread (Or.inr (Or.inl (hres txs))) n
    rw [hnone] at hr hr'
    cases hr
    cases hr'
    exact .undecoded
  | some f =>
    have hresolvable : Resolvable L db index chainId K.multiSendSelector f :=
      ⟨K.multiSendData txs,address,ha,K.selectorOf_multiSendData txs,hres txs⟩
    have husable := cond.usable _ f hresolvable
    have hcases := returned_cases doc hvalid (hne txs) (hres txs) husable hr
    have hcases' := returned_cases doc hvalid (hne changed) (hres changed) husable hr'
    rw [drop_multiSendData] at hcases hcases'
    have hsame : ∀ {names : List Json} {types : List String}, readInputs L f = .ok (names,types) →
        SameArguments (decodeArguments L f (K.encode ["bytes"] [.bytes (K.pack txs)]))
          (decodeArguments L f (K.encode ["bytes"] [.bytes (K.pack changed)])) := fun hinputs =>
      (sameArguments_iff doc hinputs).mpr
        (cond.stable f hresolvable _ ⟨_,hinputs⟩ i txs changed hdiff hbatch hbatch')
    -- both readings succeed or none does, as they differ in the first value only
    rcases hcases with ⟨name,args,ps,hname,hargs,hps,rfl⟩ | ⟨hargs,rfl⟩
    · obtain ⟨_,_,⟨_,hinputs⟩,_⟩ := arguments_shown doc hargs
      have hsame := hsame hinputs
      rcases hcases' with ⟨name',args',ps',hname',hargs',hps',rfl⟩ | ⟨hargs',rfl⟩
      · rw [hname] at hname'
        cases hname'
        rw [hargs, hargs'] at hsame
        exact isolated_of_arguments hmulti hdiff hbatch hbatch'
          (entries_returned doc hvalid cond hthird hbatch hn)
          (entries_returned doc hvalid cond hthird hbatch' hn') hsame hps hps' name
      · rw [hargs, hargs'] at hsame
        cases hsame
    · rcases hcases' with ⟨name',args',ps',hname',hargs',hps',rfl⟩ | ⟨hargs',rfl⟩
      · obtain ⟨_,_,⟨_,hinputs⟩,_⟩ := arguments_shown doc hargs'
        have hsame := hsame hinputs
        rw [hargs, hargs'] at hsame
        cases hsame
      · exact .undecoded

end Sufficiency

section Necessity
variable (doc : Documented L)

theorem query_of_contractSelectors {k : AddressKey} {r : Option (Dict Bytes Json)}
    (h : contractSelectors L db k chainId = .ok r) :
    ∃ own, queryContractAbi L db k chainId = .ok own := by
  have hfound : ∃ found, foundAbi L db k chainId = .ok found := by
    rcases contractSelectors_eq_ok_iff.mp h with ⟨hnone,_⟩ | ⟨abi,habi,_⟩
    · exact ⟨none,hnone⟩
    · exact ⟨some abi,habi⟩
  obtain ⟨found,hfound⟩ := hfound
  obtain ⟨own,hown,_⟩ := bind_eq_ok_iff.mp hfound
  exact ⟨own,hown⟩

/-- A lookup returns for no other addresses than the acceptable ones. -/
theorem LookupReturns.acceptable {address : Option PyVal}
    (h : LookupReturns L db chainId address) : Acceptable L address := by
  intro a ha ht
  obtain ⟨k,r,hk,hr⟩ := h a ha ht
  obtain ⟨own,hown⟩ := query_of_contractSelectors hr
  obtain ⟨b,hb,_⟩ := bind_eq_ok_iff.mp hown
  exact ⟨k,b,hk,hb⟩

variable (hvalid : IndexValid L index)
  (hreturns : ∀ data address, Acceptable L address → ∀ n, data.length < n →
    ∃ r, decodedFromTables L db multisend index n data address chainId = .ok r)
include doc hvalid hreturns

theorem lookupReturns_of_returns (hi : ∃ k, k ∈ index) {address : Option PyVal}
    (ha : Acceptable L address) : LookupReturns L db chainId address := by
  obtain ⟨k,hk⟩ := hi
  obtain ⟨f,hf⟩ := Option.isSome_iff_exists.mp (AList.lookup_isSome.mpr hk)
  have hlen := doc.selectorLength f k (hvalid k f hf).2
  have hself : selectorOf k = k := List.take_of_length_le (by omega)
  have hne : k.isEmpty = false := by
    cases k with
    | nil => cases hlen
    | cons x rest => rfl
  obtain ⟨r,hr⟩ := hreturns k address ha (k.length + 1) (by omega)
  apply resolve_isOk_iff.mp (resolve_of_returned doc hne hr)
  rw [hself]
  exact hk

/-- Call data with any parameters is decoded for a function that some call data resolves to. -/
theorem returned_at {k : Bytes} {f : Json} (hres : Resolvable L db index chainId k f) (params : Bytes) :
    ∃ address n r, 0 < n ∧ k.length = 4 ∧ (k ++ params).isEmpty = false ∧
      resolve L db index (k ++ params) address chainId = .ok (some f) ∧
      decodedFromTables L db multisend index (n+1) (k ++ params) address chainId = .ok r := by
  obtain ⟨data,address,ha,rfl,hf⟩ := hres
  have hlen := doc.selectorLength f _ (resolve_function hvalid hf).2
  have hdata : (selectorOf data ++ params).length = 4 + params.length := by
    rw [List.length_append, hlen]
  obtain ⟨r,hr⟩ := hreturns (selectorOf data ++ params) address ha (4 + params.length + 1) (by omega)
  refine ⟨address,4 + params.length,r,by omega,hlen,?_,?_,hr⟩
  · cases hsel : selectorOf data with
    | nil =>
      rw [hsel] at hlen
      cases hlen
    | cons x rest => rfl
  · rw [resolve_selectorOf, selectorOf_append hlen, ← resolve_selectorOf]
    exact hf

/-- Where every call returns, every function that is resolved to is usable. -/
theorem usable_of_returns {k : Bytes} {f : Json} (hres : Resolvable L db index chainId k f) :
    Usable L f := by
  have hraw : ∀ params, decodeArguments L f params = .error .unexpectedProblemDecoding ∨
      ∃ args name, decodeArguments L f params = .ok args ∧ f.getItem "name" = .ok name := by
    intro params
    obtain ⟨address,n,r,_,hlen,hne,hf,hr⟩ := returned_at doc hvalid hreturns hres params
    have h := returned_raw doc hvalid hne hf hr
    rwa [drop_selector hlen] at h
  constructor
  · intro e hinputs
    have herror : decodeArguments L f [] = catchOnly PyError.isDecodingProblem (.error e)
        fun _ => throw .unexpectedProblemDecoding := by
      rw [decodeArguments_eq, hinputs, error_bind]
    cases he : e.isDecodingProblem with
    | true => rfl
    | false =>
      rw [catchOnly_error, he, if_neg Bool.false_ne_true] at herror
      rcases hraw [] with hrefused | ⟨args,_,hargs,_⟩
      · rw [herror] at hrefused
        cases hrefused
        cases doc.inputsError f _ hinputs
      · rw [herror] at hargs
        cases hargs
  · intro types params values htakes hd
    obtain ⟨args,hargs⟩ := arguments_of_values doc htakes hd
    rcases hraw params with hrefused | ⟨_,name,_,hname⟩
    · rw [hargs] at hrefused
      cases hrefused
    · exact ⟨name,hname⟩

theorem returned_parameters {k : Bytes} {f : Json} (hres : Resolvable L db index chainId k f)
    (params : Bytes) {args : List (Json × String × PyVal)}
    (hargs : decodeArguments L f params = .ok args) : ∃ ps n, 0 < n ∧ k.length = 4 ∧
      decodeParametersData L multisend (decodedFromTables L db multisend index n) (k ++ params)
        (args.map ParameterDecoded.ofArgument) chainId = .ok ps := by
  obtain ⟨address,n,r,hn,hlen,hne,hf,hr⟩ := returned_at doc hvalid hreturns hres params
  have hcases := returned_cases doc hvalid hne hf (usable_of_returns doc hvalid hreturns hres) hr
  rw [drop_selector hlen, hargs] at hcases
  rcases hcases with ⟨_,args',ps,_,hargs',hps,_⟩ | ⟨hrefused,_⟩
  · cases hargs'
    exact ⟨ps,n,hn,hlen,hps⟩
  · cases hrefused

variable (K : Codec L) (hmulti : K.multiSendSelector ∈ multisend)
  (hexec : execTransactionSelector ∉ multisend)

include hexec in
theorem innerCall_of_returns {f : Json}
    (hres : Resolvable L db index chainId execTransactionSelector f) {params : Bytes}
    {safeTo second safeData : Json × String × PyVal} {rest : List (Json × String × PyVal)}
    (hargs : decodeArguments L f params = .ok (safeTo :: second :: safeData :: rest)) :
    ∃ b, L.hexBytes safeData.2.2 = .ok b ∧
      (b.isEmpty = false → selectorOf b ∈ index → Acceptable L (some safeTo.2.2)) := by
  obtain ⟨ps,n,hn,_,hps⟩ := returned_parameters doc hvalid hreturns hres params hargs
  rw [decodeParametersData, selectorOf_append rfl, if_neg hexec, if_pos rfl] at hps
  cases hb : L.hexBytes safeData.2.2 with
  | error e =>
    have hraise : decodeInnerTransaction L (decodedFromTables L db multisend index n)
        ((safeTo :: second :: safeData :: rest).map ParameterDecoded.ofArgument) chainId =
          .error e := by
      change fromExcept (L.hexBytes safeData.2.2) >>= _ = _
      rw [hb]
      rfl
    rw [hraise] at hps
    cases hps
  | ok b =>
    refine ⟨b,rfl,fun hne hk => ?_⟩
    have hrun : decodeInnerTransaction L (decodedFromTables L db multisend index n)
        ((safeTo :: second :: safeData :: rest).map ParameterDecoded.ofArgument) chainId = _ :=
      decodeInnerTransaction_of_bytes hb chainId
    rw [hrun, hne, if_neg Bool.false_ne_true] at hps
    obtain ⟨n,rfl⟩ := Nat.exists_eq_succ_of_ne_zero (by omega : n ≠ 0)
    cases hr : decodedFromTables L db multisend index (n+1) b (some safeTo.2.2) chainId with
    | ok r =>
      exact LookupReturns.acceptable (resolve_isOk_iff.mp (resolve_of_returned doc hne hr) hk)
    | error e =>
      change catchOnly PyError.isDataDecoderException (do
        let decoded ← decodedFromTables L db multisend index (n+1) b (some safeTo.2.2) chainId
        setValueDecoded _ 2 (.ofCall decoded)) _ = _ at hps
      rw [hr, error_bind, catchOnly_error, getDataDecodedWith_raises _ (n+1) b _ e hr] at hps
      cases hps

/-- Isolated batches are batches whose arguments differ in the first value only. -/
theorem arguments_of_isolated (hmulti : K.multiSendSelector ∈ multisend) {i : ℕ}
    {txs changed : List MultiSendTx} (h : ∀ address, Acceptable L address → ∀ n,
      (K.multiSendData txs).length < n → (K.multiSendData changed).length < n → ∃ r r',
        decodedFromTables L db multisend index n (K.multiSendData txs) address chainId = .ok r ∧
        decodedFromTables L db multisend index n (K.multiSendData changed) address chainId = .ok r' ∧
        Isolated i r r')
    {f : Json} (hres : Resolvable L db index chainId K.multiSendSelector f) :
    SameArguments (decodeArguments L f (K.encode ["bytes"] [.bytes (K.pack txs)]))
      (decodeArguments L f (K.encode ["bytes"] [.bytes (K.pack changed)])) := by
  have husable := usable_of_returns doc hvalid hreturns hres
  obtain ⟨data,address,ha,hk,hf⟩ := hres
  have hfound : ∀ txs, resolve L db index (K.multiSendData txs) address chainId = .ok (some f) := by
    intro txs
    rw [resolve_batch, ← hk, ← resolve_selectorOf]
    exact hf
  have hread : ∀ {n : ℕ} {txs : List MultiSendTx} {r : Option DataDecoded},
      decodedFromTables L db multisend index (n+1) (K.multiSendData txs) address chainId = .ok r →
      (∃ d, r = some d ∧ decodeArguments L f (K.encode ["bytes"] [.bytes (K.pack txs)]) =
          .ok d.arguments) ∨
        r = none ∧ decodeArguments L f (K.encode ["bytes"] [.bytes (K.pack txs)]) =
          .error .unexpectedProblemDecoding := by
    intro n txs r hr
    have hcases := returned_cases doc hvalid (K.multiSendData_ne_nil txs) (hfound txs) husable hr
    rw [drop_multiSendData] at hcases
    rcases hcases with ⟨name,args,ps,_,hargs,hps,rfl⟩ | ⟨hargs,rfl⟩
    · obtain ⟨first,rest,out,rfl,_,rfl⟩ := (decodeParametersData_batch_iff (selectorOf_batch hmulti txs)).mp hps
      refine Or.inl ⟨_,rfl,?_⟩
      rw [hargs, DataDecoded.arguments, List.map_cons, List.map_map]
      exact congrArg (fun rest => Except.ok (first :: rest)) (List.map_id rest).symm
    · exact Or.inr ⟨rfl,hargs⟩
  obtain ⟨r,r',hr,hr',hiso⟩ := h address ha
    ((K.multiSendData txs).length + (K.multiSendData changed).length + 1) (by omega) (by omega)
  rcases hread hr with ⟨d,rfl,hargs⟩ | ⟨rfl,hargs⟩
  · rcases hread hr' with ⟨d',rfl,hargs'⟩ | ⟨rfl,hargs'⟩
    · rw [hargs, hargs']
      cases hiso with
      | decoded hposition => exact .read
    · cases hiso
  · rcases hread hr' with ⟨d',rfl,hargs'⟩ | ⟨rfl,hargs'⟩
    · cases hiso
    · rw [hargs, hargs']
      exact .refused

include hexec in
/-- Where every call returns and every batch is isolated, the tables meet the conditions. -/
theorem conditions_of_contained (hmulti : K.multiSendSelector ∈ multisend)
    (hisolated : ∀ i txs changed, DiffersAt i txs changed → K.IsBatch txs → K.IsBatch changed →
      ∀ address, Acceptable L address → ∀ n, (K.multiSendData txs).length < n →
        (K.multiSendData changed).length < n → ∃ r r',
          decodedFromTables L db multisend index n (K.multiSendData txs) address chainId = .ok r ∧
          decodedFromTables L db multisend index n (K.multiSendData changed) address chainId =
            .ok r' ∧ Isolated i r r') :
    Conditions K db index multisend chainId where
  chainFits := by
    rintro hi c rfl
    have ha : Acceptable L (some (.bytes [1])) := by
      intro a ha _
      cases ha
      exact ⟨.bytes [1],[1],rfl,rfl⟩
    obtain ⟨k,r,hk,hr⟩ := lookupReturns_of_returns doc hvalid hreturns hi ha _ rfl rfl
    cases hk
    obtain ⟨own,hown⟩ := query_of_contractSelectors hr
    by_contra hfits
    change (if fitsBigInt c then _ else Except.error PyError.dbApiError) = Except.ok own at hown
    rw [if_neg hfits] at hown
    cases hown
  loadable := by
    intro hi a k b abi ht hk hb hfound
    have ha : Acceptable L (some a) := by
      intro a' ha' _
      cases ha'
      exact ⟨k,b,hk,hb⟩
    obtain ⟨k',r,hk',hr⟩ := lookupReturns_of_returns doc hvalid hreturns hi ha a rfl ht
    rw [hk] at hk'
    cases hk'
    rcases contractSelectors_eq_ok_iff.mp hr with ⟨hnone,_⟩ | ⟨abi',habi,hl,_⟩
    · rw [hfound] at hnone
      cases hnone
    · rw [hfound] at habi
      cases habi
      exact hl
  usable := fun k f hres => usable_of_returns doc hvalid hreturns hres
  batchArgument := by
    rintro k hk f hres types htakes rfl
    obtain ⟨args,hargs⟩ := arguments_of_values doc htakes (doc.decodeNothing [])
    obtain ⟨_,_,⟨_,hinputs⟩,_,_,hnone⟩ := arguments_shown doc hargs
    obtain ⟨_,hinputs'⟩ := htakes
    rw [hinputs'] at hinputs
    cases hinputs
    obtain ⟨ps,n,_,hlen,hps⟩ := returned_parameters doc hvalid hreturns hres [] hargs
    have hsel : selectorOf (k ++ []) ∈ multisend := by
      rw [selectorOf_append hlen]
      exact hk
    obtain ⟨first,rest,txs,hnil,_⟩ := (decodeParametersData_batch_iff hsel).mp hps
    rw [hnil] at hnone
    cases hnone
  batchReadable := by
    intro k hk f hres types htakes params values hd e he
    obtain ⟨args,hargs⟩ := arguments_of_values doc htakes hd
    obtain ⟨ps,n,_,hlen,hps⟩ := returned_parameters doc hvalid hreturns hres params hargs
    have hsel : selectorOf (k ++ params) ∈ multisend := by
      rw [selectorOf_append hlen]
      exact hk
    obtain ⟨_,_,txs,_,htxs,_⟩ := (decodeParametersData_batch_iff hsel).mp hps
    rw [decodeMultisendData, fromExcept_eq, he, error_bind, catchOnly_error] at htxs
    by_contra hvalue
    rw [if_neg hvalue] at htxs
    cases htxs
  innerCall := by
    intro f hres types htakes params values safeTo second safeData rest hd hshown
    obtain ⟨names,hinputs⟩ := htakes
    have hnames := doc.inputsLength f names types hinputs
    have hvalues := doc.decodeLength types params values hd
    obtain ⟨shown,hshown',hlen⟩ := doc.shown types params values hd
    rw [hshown] at hshown'
    cases hshown'
    have hargs : decodeArguments L f params =
        .ok (names.zip (types.zip (safeTo :: second :: safeData :: rest))) :=
      (decodeArguments_eq_ok_iff doc).mpr ⟨names,types,values,_,hinputs,hd,hshown,rfl⟩
    simp only [List.length_cons] at hlen
    obtain ⟨n₁,ns,rfl⟩ := List.exists_cons_of_length_pos (l := names) (by omega)
    obtain ⟨t₁,ts,rfl⟩ := List.exists_cons_of_length_pos (l := types) (by omega)
    simp only [List.length_cons] at hnames hvalues
    obtain ⟨n₂,ns,rfl⟩ := List.exists_cons_of_length_pos (l := ns) (by omega)
    obtain ⟨t₂,ts,rfl⟩ := List.exists_cons_of_length_pos (l := ts) (by omega)
    simp only [List.length_cons] at hnames hvalues
    obtain ⟨n₃,ns,rfl⟩ := List.exists_cons_of_length_pos (l := ns) (by omega)
    obtain ⟨t₃,ts,rfl⟩ := List.exists_cons_of_length_pos (l := ts) (by omega)
    exact innerCall_of_returns doc hvalid hreturns hexec hres hargs
  stable := by
    intro f hres types htakes i txs changed hdiff hbatch hbatch'
    obtain ⟨names,hinputs⟩ := htakes
    exact (sameArguments_iff doc hinputs).mp (arguments_of_isolated doc hvalid hreturns K hmulti
      (hisolated i txs changed hdiff hbatch hbatch') hres)

end Necessity

section Service
variable {C : Caches} {K : Codec L} {s : Service C}

/-- A service with current caches returns what its tables give, and nothing else. -/
theorem getDataDecoded_returns_iff (current : s.Coherent L db fun _ => True) {n : ℕ} {data : Bytes}
    {address : Option PyVal} {r : Option DataDecoded} :
    (∃ t, getDataDecoded L db n data address chainId s = .ok r t) ↔
      decodedFromTables L db s.multisendFnSelectorsWithAbis s.fnSelectorsWithAbis n data address
        chainId = .ok r := by
  have hagrees : Agrees True (Service.Steady L db (fun _ => True) s)
      (getDataDecoded L db n data address chainId) (decodedFromTables L db
        s.multisendFnSelectorsWithAbis s.fnSelectorsWithAbis n data address chainId) :=
    getDataDecoded_agrees (fun _ _ => trivial) n data address chainId
  constructor
  · rintro ⟨t,ht⟩
    exact (hagrees.of_ok current.steady ht).2 trivial
  · intro h
    rw [h] at hagrees
    obtain ⟨t,_,ht⟩ := hagrees.ok trivial current.steady
    exact ⟨t,ht⟩

/-- Errors stay inside their calls exactly under the conditions. -/
theorem contained_iff (doc : Documented L) (current : s.Coherent L db fun _ => True)
    (hvalid : IndexValid L s.fnSelectorsWithAbis)
    (hmulti : K.multiSendSelector ∈ s.multisendFnSelectorsWithAbis)
    (hexec : execTransactionSelector ∉ s.multisendFnSelectorsWithAbis)
    (hthird : ThirdIsPart L db s.fnSelectorsWithAbis s.multisendFnSelectorsWithAbis chainId) :
    Contained K db s chainId ↔
      Conditions K db s.fnSelectorsWithAbis s.multisendFnSelectorsWithAbis chainId := by
  constructor
  · intro h
    refine conditions_of_contained doc hvalid ?_ K hexec hmulti ?_
    · intro data address ha n hn
      obtain ⟨r,hr⟩ := h.returns data address ha n hn
      exact ⟨r,(getDataDecoded_returns_iff current).mp hr⟩
    · intro i txs changed hdiff hbatch hbatch' address ha n hn hn'
      obtain ⟨r,r',t,t',hr,hr',hiso⟩ := h.isolated i txs changed hdiff hbatch hbatch' address ha n
        hn hn'
      exact ⟨r,r',(getDataDecoded_returns_iff current).mp ⟨t,hr⟩,
        (getDataDecoded_returns_iff current).mp ⟨t',hr'⟩,hiso⟩
  · intro cond
    constructor
    · intro data address ha n hn
      obtain ⟨r,hr⟩ := returns_of_conditions doc hvalid cond hthird n data address (fun _ => ha)
        (by omega) fun _ => hn
      exact ⟨r,(getDataDecoded_returns_iff current).mpr hr⟩
    · intro i txs changed hdiff hbatch hbatch' address ha n hn hn'
      obtain ⟨r,r',hr,hr',hiso⟩ := isolated_of_conditions doc hvalid cond hthird hmulti hdiff hbatch
        hbatch' ha hn hn'
      obtain ⟨t,ht⟩ := (getDataDecoded_returns_iff current).mpr hr
      obtain ⟨t',ht'⟩ := (getDataDecoded_returns_iff current).mpr hr'
      exact ⟨r,r',t,t',ht,ht',hiso⟩

end Service
section Cases
open Reference

/-- The ABI of a contract has a function without arguments under the selector of `multiSend`. -/
theorem collisionRows_key : (([⟨1,List.replicate 20 0x11,none,none,none,false,none,0,some 1,none,1⟩] :
    List ContractRow).map ContractRow.key).Nodup := by decide

def collisionRows : Db where
  sources := []
  abis := [⟨1,0,.arr [function "fiuYBs10" []],1⟩]
  contracts := [⟨1,List.replicate 20 0x11,none,none,none,false,none,0,some 1,none,1⟩]
  abiIds := by decide
  contractKeys := collisionRows_key

/-- `multiSend` of an empty batch. -/
def emptyBatch : Bytes := [0x8d, 0x80, 0xff, 0x0a] ++ word 32 ++ word 0

theorem decodedFromTables_collision : decodedFromTables packages collisionRows
    batchService.multisendFnSelectorsWithAbis batchService.fnSelectorsWithAbis 69 emptyBatch
    (some (.bytes (List.replicate 20 0x11))) (some 1) = .error .indexError := rfl

theorem not_contained_collision : ¬ Contained codec collisionRows batchService (some 1) := by
  intro h
  have ha : Acceptable packages (some (.bytes (List.replicate 20 0x11))) := by
    intro a ha _
    cases ha
    exact ⟨_,_,rfl,rfl⟩
  obtain ⟨r,t,ht⟩ := h.returns emptyBatch _ ha 69 (by decide)
  have hr := (getDataDecoded_returns_iff (Service.fresh_coherent _ _ _)).mp ⟨t,ht⟩
  cases decodedFromTables_collision.symm.trans hr

/-- The arguments of a function are its decoded values under the names and types of its inputs. -/
theorem decodeArguments_packages {f : Json} {names : List Json} {types : List String}
    (hnames : packages.getAbiInputNames f = .ok names) (htypes : inputTypes f = .ok types)
    {params : Bytes} {args : List (Json × String × PyVal)}
    (h : decodeArguments packages f params = .ok args) : ∃ values,
      List.Forall₂ (fun t v => decodeValue params t.1 t.2 = .ok v) types.zipIdx values ∧
        args = names.zip (types.zip (values.map parseDecodedArguments)) := by
  have htypes' : packages.getAbiInputTypes f = .ok types := htypes
  rw [decodeArguments, hnames, ok_bind, htypes', ok_bind] at h
  cases hd : packages.decodeAbi types params with
  | error e =>
    rw [hd, error_bind, catchOnly_error] at h
    split at h
    · cases h
    · cases h
  | ok values =>
    have hvalues := mapM_eq_ok_iff.mp hd
    have hlen := hvalues.length_eq
    rw [List.length_zipIdx] at hlen
    rw [hd, ok_bind, mapAbiData_normalizer hlen] at h
    exact ⟨values,hvalues,(Except.ok.inj h).symm⟩

theorem foundAbi_noRows {k : AddressKey} {c : Option Int} {abi : Json} :
    foundAbi packages noRows k c ≠ .ok (some abi) := by
  have hquery : ∀ {c : Option Int}, queryContractAbi packages noRows k c ≠ .ok (some abi) := by
    intro c hq
    obtain ⟨b,_,hq⟩ := bind_eq_ok_iff.mp hq
    obtain ⟨r,hr,_⟩ := noRows.getAbiByContractAddress_stored hq
    cases hr
  intro h
  obtain ⟨own,hown,hother⟩ := bind_eq_ok_iff.mp h
  split at hother
  · exact hquery hother
  · cases hother
    exact hquery hown

theorem resolve_noRows {index : Dict Bytes Json} {data : Bytes} {address : Option PyVal}
    {chainId : Option Int} {f : Json}
    (h : resolve packages noRows index data address chainId = .ok (some f)) :
    index.lookup (selectorOf data) = some f := by
  rw [resolve, abiFunctionWith] at h
  cases hg : index.lookup (selectorOf data) with
  | none =>
    rw [hg] at h
    cases h
  | some general =>
    rw [hg] at h
    cases hf : address.filter PyVal.truthy with
    | none =>
      rw [hf] at h
      exact congrArg _ (Option.some.inj (Except.ok.inj h))
    | some a =>
      rw [hf] at h
      simp only [fromExcept_eq, bind_eq_ok_iff] at h
      obtain ⟨k,_,d,hd,h⟩ := h
      rcases contractSelectors_eq_ok_iff.mp hd with ⟨_,rfl⟩ | ⟨abi,hfound,_⟩
      · exact congrArg _ (Option.some.inj (Except.ok.inj h))
      · exact absurd hfound foundAbi_noRows

/-- Every function of the service, by selector. -/
theorem lookup_batchService {k : Bytes} {f : Json}
    (h : batchService.fnSelectorsWithAbis.lookup k = some f) :
    (k = [0x8d, 0x80, 0xff, 0x0a] ∧ f = multiSendFunction) ∨
      (k = execTransactionSelector ∧ f = execTransactionFunction) ∨
        k = [0x09, 0x5e, 0xa7, 0xb3] ∧ f = approveErc20 := by
  have hitems : batchService.fnSelectorsWithAbis.items =
      [([0x8d, 0x80, 0xff, 0x0a],multiSendFunction),
        (execTransactionSelector,execTransactionFunction),
        ([0x09, 0x5e, 0xa7, 0xb3],approveErc20)] := rfl
  have hin : (k,f) ∈ batchService.fnSelectorsWithAbis.items :=
    List.mem_map.mpr ⟨⟨k,f⟩,AList.mem_lookup_iff.mp h,rfl⟩
  rw [hitems] at hin
  simpa using hin

theorem resolvable_batchService {k : Bytes} {f : Json} (h : Resolvable packages noRows
    batchService.fnSelectorsWithAbis (some 1) k f) :
    batchService.fnSelectorsWithAbis.lookup k = some f := by
  obtain ⟨data,address,_,rfl,hf⟩ := h
  exact resolve_noRows hf

theorem execTransaction_arguments {params : Bytes} {first second third : Json × String × PyVal}
    {rest : List (Json × String × PyVal)}
    (h : decodeArguments packages execTransactionFunction params =
      .ok (first :: second :: third :: rest)) :
    (∃ a, first.2.2 = .str (to0xHexStr a)) ∧
      ∃ b, third.2.2 = .str (to0xHexStr b) ∧ b.length ≤ params.length := by
  obtain ⟨values,hvalues,hargs⟩ := decodeArguments_packages (f := execTransactionFunction) rfl rfl h
  cases hvalues with
  | cons hfirst hvalues =>
    cases hvalues with
    | cons hsecond hvalues =>
      cases hvalues with
      | cons hthird hvalues =>
        cases hargs
        constructor
        · obtain ⟨head,_,hfirst⟩ := bind_eq_ok_iff.mp hfirst
          rw [if_neg (by decide), if_neg (by decide), if_pos rfl] at hfirst
          split at hfirst
          · cases hfirst
            exact ⟨_,rfl⟩
          · cases hfirst
        · obtain ⟨b,rfl,hlen⟩ := decodeValue_bytes hthird
          exact ⟨b,rfl,hlen⟩

theorem multi_batchService {k : Bytes} (hk : k ∈ batchService.multisendFnSelectorsWithAbis) :
    k.length = 4 := by
  have hkeys : batchService.multisendFnSelectorsWithAbis.keys = [[0x8d, 0x80, 0xff, 0x0a]] := rfl
  rw [AList.mem_keys, hkeys] at hk
  rw [List.mem_singleton.mp hk]
  rfl

/-- A batch is read by `multiSend` itself. -/
theorem batch_batchService {k : Bytes} (hk : k ∈ batchService.multisendFnSelectorsWithAbis) {f : Json}
    (hres : Resolvable packages noRows batchService.fnSelectorsWithAbis (some 1) k f) :
    f = multiSendFunction := by
  have hkeys : batchService.multisendFnSelectorsWithAbis.keys = [[0x8d, 0x80, 0xff, 0x0a]] := rfl
  rw [AList.mem_keys, hkeys] at hk
  have hmulti := List.mem_singleton.mp hk
  rcases lookup_batchService (resolvable_batchService hres) with ⟨_,rfl⟩ | ⟨rfl,_⟩ | ⟨rfl,_⟩
  · rfl
  · cases hmulti
  · cases hmulti

theorem conditions_batchService : Conditions codec noRows batchService.fnSelectorsWithAbis
    batchService.multisendFnSelectorsWithAbis (some 1) where
  chainFits := by
    rintro _ c hc
    cases hc
    rfl
  loadable := by
    intro _ a k b abi _ _ _ hfound
    exact absurd hfound foundAbi_noRows
  usable := by
    intro k f hres
    rcases lookup_batchService (resolvable_batchService hres) with ⟨_,rfl⟩ | ⟨_,rfl⟩ | ⟨_,rfl⟩
    · exact ⟨fun e he => (by cases he),fun _ _ _ _ _ => ⟨_,rfl⟩⟩
    · exact ⟨fun e he => (by cases he),fun _ _ _ _ _ => ⟨_,rfl⟩⟩
    · exact ⟨fun e he => (by cases he),fun _ _ _ _ _ => ⟨_,rfl⟩⟩
  batchArgument := by
    rintro k hk f hres types ⟨names,hinputs⟩ rfl
    obtain rfl := batch_batchService hk hres
    cases hinputs
  batchReadable := by
    rintro k hk f hres types ⟨names,hinputs⟩ params values hd e he
    obtain rfl := batch_batchService hk hres
    cases hinputs
    have hrefused := (fromTransactionData_error he).2
    rw [drop_selector (multi_batchService hk)] at hrefused
    cases hd.symm.trans hrefused
  innerCall := by
    rintro f hres types ⟨names,hinputs⟩ params values safeTo second safeData rest hd hshown
    rcases lookup_batchService (resolvable_batchService hres) with ⟨hk,_⟩ | ⟨_,rfl⟩ | ⟨hk,_⟩
    · cases hk
    · have hargs : decodeArguments packages execTransactionFunction params =
          .ok (names.zip (types.zip (safeTo :: second :: safeData :: rest))) :=
        (decodeArguments_eq_ok_iff documented_packages).mpr ⟨_,_,_,_,hinputs,hd,hshown,rfl⟩
      cases hinputs
      obtain ⟨⟨a,ha⟩,b,hb,_⟩ := execTransaction_arguments hargs
      refine ⟨b,?_,fun _ _ a' ha' _ => ?_⟩
      · exact (congrArg packages.hexBytes hb).trans (packages_hexstrToBytes b)
      · cases ha'
        exact ⟨.str (to0xHexStr a),a,congrArg Externals.addressKey ha,packages_hexstrToBytes a⟩
    · cases hk
  stable := by
    rintro f hres types ⟨names,hinputs⟩ i txs changed _ hbatch hbatch'
    rcases lookup_batchService (resolvable_batchService hres) with ⟨_,rfl⟩ | ⟨hk,_⟩ | ⟨hk,_⟩
    · cases hinputs
      have hread : ∀ {txs : List MultiSendTx}, codec.IsBatch txs → ∃ v,
          packages.decodeAbi ["bytes"] (codec.encode ["bytes"] [.bytes (codec.pack txs)]) = .ok [v] := by
        intro txs hbatch
        obtain ⟨decoded,hd,_⟩ := codec.decode_encode hbatch.2
        obtain ⟨v,rfl⟩ := List.length_eq_one_iff.mp (length_decodeAbi hd)
        exact ⟨v,hd⟩
      obtain ⟨v,hv⟩ := hread hbatch
      obtain ⟨v',hv'⟩ := hread hbatch'
      have hfirst : packages.decodeAbi ["bytes"]
          (codec.encode ["bytes"] [.bytes (codec.pack txs)]) = _ := hv
      have hsecond : packages.decodeAbi ["bytes"]
          (codec.encode ["bytes"] [.bytes (codec.pack changed)]) = _ := hv'
      change SameButFirst (packages.decodeAbi ["bytes"] _) (packages.decodeAbi ["bytes"] _)
      rw [hfirst, hsecond]
      exact .read
    · cases hk
    · cases hk

/-- The service that knows `multiSend`, `execTransaction` and `approve`. -/
theorem contained_batchService : Contained codec noRows batchService (some 1) := by
  refine (contained_iff documented_packages (Service.fresh_coherent _ _ _) ?_ (by decide) (by decide)
    ?_).mpr conditions_batchService
  · intro k f hf
    rcases lookup_batchService hf with ⟨rfl,rfl⟩ | ⟨rfl,rfl⟩ | ⟨rfl,rfl⟩
    · exact ⟨rfl,rfl⟩
    · exact ⟨rfl,rfl⟩
    · exact ⟨rfl,rfl⟩
  · intro f hres params safeTo second safeData rest b hargs hb _
    rcases lookup_batchService (resolvable_batchService hres) with ⟨hk,_⟩ | ⟨_,rfl⟩ | ⟨hk,_⟩
    · cases hk
    · obtain ⟨_,b',hb',hlen⟩ := execTransaction_arguments hargs
      rw [hb'] at hb
      have hread : packages.hexBytes (.str (to0xHexStr b')) = .ok b' := packages_hexstrToBytes b'
      rw [hread] at hb
      cases hb
      exact hlen
    · cases hk

end Cases
end SafeDecoder.Containment
