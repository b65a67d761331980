import SafeDecoder.Calls.CallTree
import SafeDecoder.Calls.Rendering
import SafeDecoder.Decoder.Endpoint

/-! # The exceptions of the decoder

`get_data_decoded` catches the exceptions of its own package, a batch catches
`ValueError`, and nothing catches an index out of range, an address that is no
address or a third argument that is no byte string. Whether one of these can
happen depends on the functions that selectors resolve to.
-/
namespace SafeDecoder.Containment
open Effects SelectorIndex

section Assumptions

/-- The names and the types of the inputs, as `_decode_data` reads them. -/
def readInputs (L : Externals) (f : Json) : Except PyError (List Json × List String) := do
  let names ← L.getAbiInputNames f
  let types ← L.getAbiInputTypes f
  return (names,types)

/-- The function has inputs of these types. -/
def Takes (L : Externals) (f : Json) (types : List String) : Prop :=
  ∃ names, readInputs L f = .ok (names,types)

/-- Decoded values as they are shown. -/
def shownValues (L : Externals) (types : List String) (values : List PyVal) :
    Except PyError (List PyVal) := do
  let normalized ← L.mapAbiData (addressesChecksummedNormalizer L) types values
  return normalized.map parseDecodedArguments

/-- What the documentation of the packages says about the exceptions they raise
and about what they return. -/
structure Documented (L : Externals) : Prop where
  selectorError : ∀ f, RaisesOnly (fun e => e.isDataDecoderException = false)
    (L.functionAbiTo4byteSelector f)
  selectorLength : ∀ f k, L.functionAbiTo4byteSelector f = .ok k → k.length = 4
  inputsError : ∀ f, RaisesOnly (fun e => e.isDataDecoderException = false) (readInputs L f)
  inputsLength : ∀ f names types, readInputs L f = .ok (names,types) → names.length = types.length
  decodeError : ∀ types params, RaisesOnly (fun e => e.isDecodingProblem) (L.decodeAbi types params)
  decodeLength : ∀ types params values, L.decodeAbi types params = .ok values →
    values.length = types.length
  decodeNothing : ∀ params, L.decodeAbi [] params = .ok []
  shown : ∀ types params values, L.decodeAbi types params = .ok values →
    ∃ shown, shownValues L types values = .ok shown ∧ shown.length = values.length
  /-- Every value is shown by itself, and two values of one type are not shown alike. -/
  shownApart : ∀ types params params' values values' shown shown',
    L.decodeAbi types params = .ok values → L.decodeAbi types params' = .ok values' →
      shownValues L types values = .ok shown → shownValues L types values' = .ok shown' →
        ∀ i : ℕ, shown[i]? = shown'[i]? ↔ values[i]? = values'[i]?
  batchError : ∀ data, RaisesOnly (fun e => e.isDataDecoderException = false)
    (L.fromTransactionData data)
  batchEntries : ∀ data txs, L.fromTransactionData data = .ok txs → ∀ tx ∈ txs,
    tx.data.length < data.length ∧ ∃ b, L.hexstrToBytes tx.toAddress = .ok b
  hexError : ∀ v, RaisesOnly (fun e => e = .valueError ∨ e = .typeError) (L.hexBytes v)

/-- The entry of a function can be used: its inputs are read or refused, and it has a
name if there is call data for it. -/
structure Usable (L : Externals) (f : Json) : Prop where
  readable : RaisesOnly (fun e => e.isDecodingProblem) (readInputs L f)
  named : ∀ types params values, Takes L f types → L.decodeAbi types params = .ok values →
    ∃ name, f.getItem "name" = .ok name

end Assumptions

variable {L : Externals} {db : Db} {index multisend : Dict Bytes Json} {chainId : Option Int}

section Lookups

/-- The contract lookup can use the address, or does not look at it. -/
def Acceptable (L : Externals) (address : Option PyVal) : Prop :=
  ∀ a, address = some a → a.truthy → ∃ k b, Externals.addressKey a = .ok k ∧ L.addressBytes k = .ok b

def LookupReturns (L : Externals) (db : Db) (chainId : Option Int) (address : Option PyVal) : Prop :=
  ∀ a, address = some a → a.truthy →
    ∃ k r, Externals.addressKey a = .ok k ∧ contractSelectors L db k chainId = .ok r

theorem resolve_isOk_iff {data : Bytes} {address : Option PyVal} :
    (∃ r, resolve L db index data address chainId = .ok r) ↔
      (selectorOf data ∈ index → LookupReturns L db chainId address) := by
  rw [resolve, abiFunctionWith]
  cases hg : index.lookup (selectorOf data) with
  | none =>
    have hn : selectorOf data ∉ index := AList.lookup_eq_none.mp hg
    exact ⟨fun _ hk => absurd hk hn,fun _ => ⟨none,rfl⟩⟩
  | some general =>
    have hk : selectorOf data ∈ index := AList.lookup_isSome.mp (Option.isSome_of_eq_some hg)
    cases hf : address.filter PyVal.truthy with
    | none =>
      refine ⟨fun _ _ a ha ht => ?_,fun _ => ⟨some general,rfl⟩⟩
      rw [ha, Option.filter_some, if_pos ht] at hf
      cases hf
    | some a =>
      obtain ⟨rfl,ht⟩ := Option.filter_eq_some_iff.mp hf
      simp only [fromExcept_eq, bind_eq_ok_iff]
      constructor
      · rintro ⟨r,k,hkey,d,hd,_⟩ _ a' ha' _
        cases ha'
        exact ⟨k,d,hkey,hd⟩
      · intro h
        obtain ⟨k,d,hkey,hd⟩ := h hk a rfl ht
        exact ⟨_,k,hkey,d,hd,rfl⟩

theorem selectorOf_selectorOf (data : Bytes) : selectorOf (selectorOf data) = selectorOf data := by
  rw [selectorOf, selectorOf, List.take_take, Nat.min_self]

/-- Only the selector of the data matters for the function. -/
theorem resolve_selectorOf (data : Bytes) (address : Option PyVal) :
    resolve L db index data address chainId =
      resolve L db index (selectorOf data) address chainId := by
  rw [resolve, abiFunctionWith, resolve, abiFunctionWith, selectorOf_selectorOf]

/-- Whatever a selector resolves to is a function with that selector. -/
theorem resolve_function (hvalid : IndexValid L index) {data : Bytes} {address : Option PyVal}
    {f : Json} (h : resolve L db index data address chainId = .ok (some f)) :
    isFunctionEntry f ∧ L.functionAbiTo4byteSelector f = .ok (selectorOf data) := by
  rw [resolve, abiFunctionWith] at h
  cases hg : index.lookup (selectorOf data) with
  | none =>
    rw [hg] at h
    cases h
  | some general =>
    rw [hg] at h
    cases hf : address.filter PyVal.truthy with
    | none =>
      rw [hf] at h
      cases h
      exact hvalid _ _ hg
    | some a =>
      rw [hf] at h
      simp only [fromExcept_eq, bind_eq_ok_iff] at h
      obtain ⟨k,_,d,hd,h⟩ := h
      have hf := Option.some.inj (Except.ok.inj h)
      rcases contractSelectors_eq_ok_iff.mp hd with ⟨_,rfl⟩ | ⟨abi,_,_,rfl⟩
      · rw [← hf]
        exact hvalid _ _ hg
      · rw [Option.bind_some] at hf
        cases hs : (selectors L abi).lookup (selectorOf data) with
        | none =>
          rw [hs] at hf
          rw [← hf]
          exact hvalid _ _ hg
        | some own =>
          rw [hs] at hf
          rw [← hf]
          exact ⟨(selectors_lookup hs).1,(selectors_lookup hs).2.1⟩

theorem truthy_of_isFunctionEntry {f : Json} (h : isFunctionEntry f) : f.truthy := by
  cases f with
  | obj fields =>
    cases fields with
    | nil => cases h
    | cons field rest => rfl
  | _ => cases h

end Lookups

/-- The decoder never raises what it catches. -/
theorem getDataDecodedWith_raises
    (g : Bytes → Option PyVal → Option Int → Except PyError (Option Json)) (n : ℕ) (data : Bytes)
    (address : Option PyVal) : RaisesOnly (fun e => e.isDataDecoderException = false)
      (getDataDecodedWith L multisend g n data address chainId) := by
  cases n with
  | zero => exact RaisesOnly.error rfl
  | succ n =>
    rw [getDataDecodedWith]
    split
    · exact RaisesOnly.ok _
    · exact (RaisesOnly.catchOnly (E := fun _ => True) fun _ _ => trivial).mono fun _ h => h.2

theorem getItem_raises (j : Json) (key : String) :
    RaisesOnly (fun e => e = .keyError ∨ e = .typeError) (j.getItem key) := by
  unfold Json.getItem
  split
  · split
    · exact RaisesOnly.ok _
    · exact RaisesOnly.error (Or.inl rfl)
  · exact RaisesOnly.error (Or.inr rfl)

theorem setValueDecoded_raises (ps : List ParameterDecoded) (i : ℕ) (v : ValueDecoded) :
    RaisesOnly (fun e => e.isDataDecoderException = false) (setValueDecoded ps i v) := by
  unfold setValueDecoded
  split
  · exact RaisesOnly.ok _
  · exact RaisesOnly.error rfl

/-- Subscripting raises no exception of the decoder's own. -/
theorem getItem_raises_plain (j : Json) (key : String) :
    RaisesOnly (fun e => e.isDataDecoderException = false) (j.getItem key) := by
  refine (getItem_raises j key).mono ?_
  rintro e (rfl | rfl)
  · rfl
  · rfl

section Errors
variable (doc : Documented L)
include doc

theorem generateSelectors_raises (abi : Json) :
    RaisesOnly (fun e => e.isDataDecoderException = false)
      (generateSelectorsWithAbisFromAbi L abi) := by
  have hiter : RaisesOnly (fun e => e.isDataDecoderException = false) abi.iter := by
    cases abi with
    | arr elems => exact RaisesOnly.ok _
    | obj fields => exact RaisesOnly.ok _
    | str s => exact RaisesOnly.ok _
    | _ => exact RaisesOnly.error rfl
  have hentries : ∀ entries,
      RaisesOnly (fun e => e.isDataDecoderException = false) (functionEntries entries) := by
    intro entries
    induction entries with
    | nil => exact RaisesOnly.ok _
    | cons entry rest ih =>
      exact (getItem_raises_plain entry "type").bind fun type _ => ih.bind fun fnAbis _ => RaisesOnly.ok _
  refine hiter.bind fun entries _ => (hentries entries).bind fun fnAbis _ => ?_
  split
  · exact RaisesOnly.ok _
  · refine RaisesOnly.bind (RaisesOnly.mapM fun f _ => ?_) fun pairs _ => RaisesOnly.ok _
    exact (doc.selectorError f).bind fun k _ => RaisesOnly.ok _

theorem addressBytes_raises (k : AddressKey) :
    RaisesOnly (fun e => e.isDataDecoderException = false) (L.addressBytes k) := by
  cases k with
  | bytes b => exact RaisesOnly.ok b
  | str s =>
    intro e he
    rcases doc.hexError (.str s) e he with rfl | rfl
    · rfl
    · rfl

/-- No lookup raises an exception that the decoder takes for an undecodable call. -/
theorem resolve_raises (data : Bytes) (address : Option PyVal) :
    RaisesOnly (fun e => e.isDataDecoderException = false)
      (resolve L db index data address chainId) := by
  have hquery : ∀ k c, RaisesOnly (fun e => e.isDataDecoderException = false)
      (queryContractAbi L db k c) := by
    intro k c
    apply (addressBytes_raises doc k).bind
    intro b _
    unfold Db.getAbiByContractAddress
    split
    · split
      · exact RaisesOnly.ok _
      · exact RaisesOnly.error rfl
    · exact RaisesOnly.ok _
  rw [resolve, abiFunctionWith]
  split
  · exact RaisesOnly.ok _
  · split
    · exact RaisesOnly.ok _
    · rename_i a _
      simp only [fromExcept_eq]
      refine RaisesOnly.bind ?_ fun k _ => RaisesOnly.bind ?_ fun d _ => RaisesOnly.ok _
      · cases a with
        | bytes b => exact RaisesOnly.ok _
        | str s => exact RaisesOnly.ok _
        | _ => exact RaisesOnly.error rfl
      · refine (hquery k chainId).bind fun abi _ => RaisesOnly.bind ?_ fun found _ => ?_
        · split
          · exact hquery k none
          · exact RaisesOnly.ok _
        · split
          · rename_i abi' _
            simp only [fromExcept_eq]
            have hgenerate := generateSelectors_raises doc abi'
            cases hr : generateSelectorsWithAbisFromAbi L abi' with
            | ok d => exact RaisesOnly.ok _
            | error e => exact RaisesOnly.error (hgenerate e hr)
          · exact RaisesOnly.ok _

theorem decodeMultisendData_raises
    (g : Bytes → Option PyVal → Option Int → Except PyError (Option Json)) (n : ℕ) (data : Bytes) :
    RaisesOnly (fun e => e.isDataDecoderException = false)
      (decodeMultisendData L (getDataDecodedWith L multisend g n) data chainId) := by
  refine (RaisesOnly.catchOnly (E := fun e => e.isDataDecoderException = false) ?_).mono
    fun _ h => h.1
  rw [fromExcept_eq]
  apply (doc.batchError data).bind
  intro txs _
  have htxs : RaisesOnly (fun e => e.isDataDecoderException = false)
      (txs.mapM (decodeMultisendTx (getDataDecodedWith L multisend g n) chainId)) :=
    RaisesOnly.mapM fun tx _ =>
      (getDataDecodedWith_raises g n tx.data _).bind fun r _ => RaisesOnly.ok _
  cases hr : txs.mapM (decodeMultisendTx (getDataDecodedWith L multisend g n) chainId) with
  | ok r => exact RaisesOnly.ok _
  | error e => exact RaisesOnly.error (htxs e hr)

theorem decodeParametersData_raises
    (g : Bytes → Option PyVal → Option Int → Except PyError (Option Json)) (n : ℕ) (data : Bytes)
    (ps : List ParameterDecoded) : RaisesOnly (fun e => e.isDataDecoderException = false)
      (decodeParametersData L multisend (getDataDecodedWith L multisend g n) data ps chainId) := by
  unfold decodeParametersData
  split
  · apply (decodeMultisendData_raises doc g n data).bind
    intro txs _
    rw [fromExcept_eq]
    exact setValueDecoded_raises ps 0 _
  · split
    · rcases ps with _ | ⟨safeTo,_ | ⟨second,_ | ⟨safeData,rest⟩⟩⟩
      · exact RaisesOnly.ok _
      · exact RaisesOnly.ok _
      · exact RaisesOnly.ok _
      · cases hb : L.hexBytes safeData.value with
        | error e =>
          rw [decodeInnerTransaction, hb]
          rcases doc.hexError _ e hb with rfl | rfl
          · exact RaisesOnly.error rfl
          · exact RaisesOnly.error rfl
        | ok b =>
          rw [decodeInnerTransaction_of_bytes hb]
          split
          · exact RaisesOnly.ok _
          · exact (RaisesOnly.catchOnly (E := fun _ => True) fun _ _ => trivial).mono
              fun _ h => h.2
    · exact RaisesOnly.ok _

omit doc in
theorem decodeArguments_eq (f : Json) (params : Bytes) :
    decodeArguments L f params = catchOnly PyError.isDecodingProblem
      (do
        let inputs ← readInputs L f
        let decoded ← L.decodeAbi inputs.2 params
        let shown ← shownValues L inputs.2 decoded
        return inputs.1.zip (inputs.2.zip shown))
      fun _ => throw .unexpectedProblemDecoding := by
  simp only [decodeArguments, readInputs, shownValues, bind_assoc, pure_bind]

/-- The arguments are decoded or refused, unless the inputs cannot be read. -/
theorem decodeArguments_cases (f : Json) (params : Bytes) :
    (∃ names types values shown, readInputs L f = .ok (names,types) ∧
        L.decodeAbi types params = .ok values ∧ shownValues L types values = .ok shown ∧
        decodeArguments L f params = .ok (names.zip (types.zip shown))) ∨
      decodeArguments L f params = .error .unexpectedProblemDecoding ∨
        ∃ e, readInputs L f = .error e ∧ e.isDecodingProblem = false ∧
          decodeArguments L f params = .error e := by
  rw [decodeArguments_eq]
  cases hinputs : readInputs L f with
  | error e =>
    right
    rw [error_bind, catchOnly_error]
    cases he : e.isDecodingProblem with
    | true => exact .inl rfl
    | false => exact .inr ⟨e,rfl,he,rfl⟩
  | ok inputs =>
    rw [ok_bind]
    cases hd : L.decodeAbi inputs.2 params with
    | error e =>
      right
      left
      rw [error_bind, catchOnly_error, if_pos (doc.decodeError inputs.2 params e hd)]
      rfl
    | ok values =>
      left
      obtain ⟨shown,hshown,_⟩ := doc.shown inputs.2 params values hd
      refine ⟨inputs.1,inputs.2,values,shown,rfl,hd,hshown,?_⟩
      rw [ok_bind, hshown]
      rfl

theorem decodeArguments_eq_ok_iff {f : Json} {params : Bytes} {args : List (Json × String × PyVal)} :
    decodeArguments L f params = .ok args ↔ ∃ names types values shown,
      readInputs L f = .ok (names,types) ∧ L.decodeAbi types params = .ok values ∧
        shownValues L types values = .ok shown ∧ args = names.zip (types.zip shown) := by
  constructor
  · intro h
    rcases decodeArguments_cases doc f params with ⟨names,types,values,shown,hi,hd,hs,hr⟩ | hr | ⟨e,_,_,hr⟩
    · rw [h] at hr
      exact ⟨names,types,values,shown,hi,hd,hs,Except.ok.inj hr⟩
    · rw [h] at hr
      cases hr
    · rw [h] at hr
      cases hr
  · rintro ⟨names,types,values,shown,hinputs,hd,hshown,rfl⟩
    rw [decodeArguments_eq, hinputs, ok_bind, hd, ok_bind, hshown]
    rfl

/-- The values that are shown for the arguments of a call. -/
theorem arguments_shown {f : Json} {params : Bytes} {args : List (Json × String × PyVal)}
    (h : decodeArguments L f params = .ok args) : ∃ types values, Takes L f types ∧
      L.decodeAbi types params = .ok values ∧
        shownValues L types values = .ok (args.map fun a => a.2.2) ∧ args.length = types.length := by
  obtain ⟨names,types,values,shown,hinputs,hd,hshown,rfl⟩ := (decodeArguments_eq_ok_iff doc).mp h
  have hnames := doc.inputsLength f names types hinputs
  have hvalues := doc.decodeLength types params values hd
  obtain ⟨shown',hshown',hlen⟩ := doc.shown types params values hd
  rw [hshown] at hshown'
  cases hshown'
  have hzip : (names.zip (types.zip shown)).map (fun a => a.2.2) = shown := by
    have hsnd : (names.zip (types.zip shown)).map Prod.snd = types.zip shown :=
      List.map_snd_zip (by rw [List.length_zip]; omega)
    have hlast : (types.zip shown).map Prod.snd = shown := List.map_snd_zip (by omega)
    calc (names.zip (types.zip shown)).map (fun a => a.2.2)
        = ((names.zip (types.zip shown)).map Prod.snd).map Prod.snd := List.map_map.symm
      _ = shown := by rw [hsnd, hlast]
  refine ⟨types,values,⟨names,hinputs⟩,hd,hshown.trans (congrArg Except.ok hzip.symm),?_⟩
  rw [List.length_zip, List.length_zip]
  omega

/-- What `eth_abi` reads are the arguments of a call. -/
theorem arguments_of_values {f : Json} {types : List String} (htakes : Takes L f types)
    {params : Bytes} {values : List PyVal} (hd : L.decodeAbi types params = .ok values) :
    ∃ args, decodeArguments L f params = .ok args := by
  obtain ⟨names,hinputs⟩ := htakes
  obtain ⟨shown,hshown,_⟩ := doc.shown types params values hd
  exact ⟨_,(decodeArguments_eq_ok_iff doc).mpr ⟨names,types,values,shown,hinputs,hd,hshown,rfl⟩⟩

/-- The arguments of a usable function are decoded or refused. -/
theorem Usable.decodeArguments {f : Json} (hf : Usable L f) (params : Bytes) :
    (∃ args, decodeArguments L f params = .ok args) ∨
      decodeArguments L f params = .error .unexpectedProblemDecoding := by
  rcases decodeArguments_cases doc f params with ⟨_,_,_,_,_,_,_,hr⟩ | hr | ⟨e,hinputs,he,_⟩
  · exact .inl ⟨_,hr⟩
  · exact .inr hr
  · have hproblem : e.isDecodingProblem = true := hf.readable e hinputs
    rw [he] at hproblem
    cases hproblem

end Errors

section Calls
variable (doc : Documented L) (hvalid : IndexValid L index)
include doc hvalid

/-- A call whose function is found: its parameters are decoded further, or it is
not decoded at all. -/
theorem decoded_resolved (multisend : Dict Bytes Json) (n : ℕ) {data : Bytes} {address : Option PyVal}
    {f : Json} (hne : data.isEmpty = false)
    (hf : resolve L db index data address chainId = .ok (some f)) (husable : Usable L f) :
    (∃ name args, f.getItem "name" = .ok name ∧ decodeArguments L f (data.drop 4) = .ok args ∧
        decodedFromTables L db multisend index (n+1) data address chainId =
          catchOnly PyError.isDataDecoderException
            (do
              let parameters ← decodeParametersData L multisend
                (decodedFromTables L db multisend index n) data
                (args.map ParameterDecoded.ofArgument) chainId
              return some ⟨name,parameters⟩)
            fun _ => .ok none) ∨
      decodeArguments L f (data.drop 4) = .error .unexpectedProblemDecoding ∧
        decodedFromTables L db multisend index (n+1) data address chainId = .ok none := by
  have ht := truthy_of_isFunctionEntry (resolve_function hvalid hf).1
  rcases husable.decodeArguments doc (data.drop 4) with ⟨args,hargs⟩ | hargs
  · obtain ⟨types,values,htakes,hd,_⟩ := arguments_shown doc hargs
    obtain ⟨name,hname⟩ := husable.named types _ values htakes hd
    refine Or.inl ⟨name,args,hname,hargs,?_⟩
    have hraw : decodeDataWith L (resolve L db index) data address chainId = .ok (name,args) :=
      decodeDataWith_eq_ok_iff.mpr ⟨hne,f,hf,ht,hargs,hname⟩
    rw [decodedFromTables, getDataDecodedWith, if_neg (by rw [hne]; exact Bool.false_ne_true),
      decodeTransactionWithTypesWith, hraw, ok_bind]
    simp only [bind_assoc, pure_bind]
    rfl
  · exact Or.inr ⟨hargs,getDataDecodedWith_unread (Or.inr (Or.inr ⟨f,hf,ht,hargs⟩)) n⟩

/-- A call that returned: its parameters were decoded further, or its arguments
were refused. -/
theorem returned_cases {n : ℕ} {data : Bytes} {address : Option PyVal} {f : Json}
    (hne : data.isEmpty = false) (hf : resolve L db index data address chainId = .ok (some f))
    (husable : Usable L f) {r : Option DataDecoded}
    (h : decodedFromTables L db multisend index (n+1) data address chainId = .ok r) :
    (∃ name args ps, f.getItem "name" = .ok name ∧ decodeArguments L f (data.drop 4) = .ok args ∧
        decodeParametersData L multisend (decodedFromTables L db multisend index n) data
          (args.map ParameterDecoded.ofArgument) chainId = .ok ps ∧ r = some ⟨name,ps⟩) ∨
      decodeArguments L f (data.drop 4) = .error .unexpectedProblemDecoding ∧ r = none := by
  rcases decoded_resolved doc hvalid multisend n hne hf husable with
    ⟨name,args,hname,hargs,hrun⟩ | ⟨hargs,hrun⟩
  · rw [hrun] at h
    have hloud : RaisesOnly (fun e => e.isDataDecoderException = false) (do
        let parameters ← decodeParametersData L multisend (decodedFromTables L db multisend index n)
          data (args.map ParameterDecoded.ofArgument) chainId
        return some (DataDecoded.mk name parameters)) :=
      (decodeParametersData_raises doc _ n data _).bind fun ps _ => RaisesOnly.ok _
    obtain ⟨ps,hps,h⟩ := bind_eq_ok_iff.mp (eq_ok_of_catchOnly hloud h)
    exact Or.inl ⟨name,args,ps,hname,hargs,hps,(Except.ok.inj h).symm⟩
  · rw [hrun] at h
    exact Or.inr ⟨hargs,(Except.ok.inj h).symm⟩

/-- A function whose call data has been decoded, or refused, is usable there. -/
theorem returned_raw {n : ℕ} {data : Bytes} {address : Option PyVal} {f : Json}
    (hne : data.isEmpty = false) (hf : resolve L db index data address chainId = .ok (some f))
    {r : Option DataDecoded}
    (h : decodedFromTables L db multisend index (n+1) data address chainId = .ok r) :
    decodeArguments L f (data.drop 4) = .error .unexpectedProblemDecoding ∨
      ∃ args name, decodeArguments L f (data.drop 4) = .ok args ∧ f.getItem "name" = .ok name := by
  have ht := truthy_of_isFunctionEntry (resolve_function hvalid hf).1
  have hnot : ¬data.isEmpty := by rw [hne]; exact Bool.false_ne_true
  have hraise : ∀ {e : PyError}, e.isDataDecoderException = false →
      decodeDataWith L (resolve L db index) data address chainId ≠ .error e := by
    intro e he hraw
    rw [decodedFromTables, getDataDecodedWith, if_neg hnot, decodeTransactionWithTypesWith, hraw,
      error_bind, error_bind, catchOnly_error, he] at h
    cases h
  have hraw : decodeDataWith L (resolve L db index) data address chainId = (do
      let arguments ← decodeArguments L f (data.drop 4)
      let name ← f.getItem "name"
      return (name,arguments)) := by
    rw [decodeDataWith, if_neg hnot, hf, ok_bind, Option.filter_some, if_pos ht]
    simp only [fromExcept_eq]
  rcases decodeArguments_cases doc f (data.drop 4) with ⟨_,_,_,_,_,_,_,hargs⟩ | hargs | ⟨e,hinputs,_,hargs⟩
  · cases hname : f.getItem "name" with
    | ok name => exact .inr ⟨_,name,hargs,rfl⟩
    | error e =>
      rw [hargs, ok_bind, hname] at hraw
      exact absurd hraw (hraise (getItem_raises_plain f "name" e hname))
  · exact .inl hargs
  · rw [hargs] at hraw
    exact absurd hraw (hraise (doc.inputsError f e hinputs))

omit hvalid in
/-- Call data that is not empty returns only when its function can be looked up. -/
theorem resolve_of_returned {n : ℕ} {data : Bytes} {address : Option PyVal}
    (hne : data.isEmpty = false) {r : Option DataDecoded}
    (h : decodedFromTables L db multisend index (n+1) data address chainId = .ok r) :
    ∃ found, resolve L db index data address chainId = .ok found := by
  cases hr : resolve L db index data address chainId with
  | ok found => exact ⟨found,rfl⟩
  | error e =>
    have hnot : ¬ data.isEmpty := by rw [hne]; exact Bool.false_ne_true
    have hraw : decodeDataWith L (resolve L db index) data address chainId = .error e := by
      rw [decodeDataWith, if_neg hnot, hr, error_bind]
    rw [decodedFromTables, getDataDecodedWith, if_neg hnot, decodeTransactionWithTypesWith, hraw,
      error_bind, error_bind, catchOnly_error, resolve_raises doc data address e hr] at h
    cases h

end Calls

section Packages
open Reference

theorem inputs_raises (f : Json) :
    RaisesOnly (fun e => e.isDataDecoderException = false) (inputs f) := by
  unfold inputs
  split
  · split
    · exact RaisesOnly.ok _
    · exact RaisesOnly.error rfl
    · exact RaisesOnly.ok _
  · exact RaisesOnly.error rfl

theorem inputTypes_raises (f : Json) :
    RaisesOnly (fun e => e.isDataDecoderException = false) (inputTypes f) := by
  refine (inputs_raises f).bind fun args _ => RaisesOnly.mapM fun arg _ =>
    (getItem_raises_plain arg "type").bind fun type _ => ?_
  split
  · exact RaisesOnly.ok _
  · exact RaisesOnly.error rfl

theorem selector_raises (f : Json) :
    RaisesOnly (fun e => e.isDataDecoderException = false) (selector f) := by
  have hname : RaisesOnly (fun e => e.isDataDecoderException = false) (nameOrType f) := by
    unfold nameOrType
    split
    · exact RaisesOnly.ok _
    · exact RaisesOnly.error rfl
  refine RaisesOnly.bind (hname.bind fun name _ => ?_) fun text _ => ?_
  · split
    · exact (inputTypes_raises f).bind fun types _ => RaisesOnly.ok _
    · exact RaisesOnly.error rfl
  · split
    · exact RaisesOnly.ok _
    · exact RaisesOnly.error rfl

theorem length_selector {f : Json} {k : Bytes} (h : selector f = .ok k) : k.length = 4 := by
  have hfour : ∀ p ∈ selectorTable, p.2.length = 4 := by decide
  obtain ⟨text,_,h⟩ := bind_eq_ok_iff.mp h
  cases hl : selectorTable.lookup text with
  | none =>
    rw [hl] at h
    cases h
  | some b =>
    rw [hl] at h
    cases h
    obtain ⟨l₁,l₂,hmem,_⟩ := List.lookup_eq_some_iff.mp hl
    exact hfour (text,k) (by rw [hmem]; exact List.mem_append_right _ (List.mem_cons_self ..))

theorem unhexlify_raises (cs : List Char) : RaisesOnly (fun e => e = .valueError) (unhexlify cs) := by
  induction cs using unhexlify.induct with
  | case1 => exact RaisesOnly.ok _
  | case2 => exact RaisesOnly.error rfl
  | case3 a b rest x y hx hy ih =>
    rw [unhexlify, hx, hy]
    exact ih.bind fun tail _ => RaisesOnly.ok _
  | case4 a b rest h =>
    rw [unhexlify]
    split
    · rename_i x y hx hy
      exact absurd hy (h x y hx)
    · exact RaisesOnly.error rfl

theorem hexBytes_raises (v : PyVal) :
    RaisesOnly (fun e => e = .valueError ∨ e = .typeError) (packages.hexBytes v) := by
  cases v with
  | bytes b => exact RaisesOnly.ok _
  | str s => exact (unhexlify_raises _).mono fun _ h => Or.inl h
  | int n =>
    change RaisesOnly _ (intToBytes n)
    unfold intToBytes
    split
    · exact RaisesOnly.error (Or.inl rfl)
    · exact RaisesOnly.ok _
  | bool b => exact RaisesOnly.ok _
  | _ => exact RaisesOnly.error (Or.inr rfl)

theorem takeExact_raises (n : ℕ) (b : Bytes) :
    RaisesOnly (fun e => e.isDecodingProblem) (takeExact n b) := by
  unfold takeExact
  split
  · exact RaisesOnly.ok _
  · exact RaisesOnly.error rfl

theorem decodeTail_raises (stream : Bytes) :
    RaisesOnly (fun e => e.isDecodingProblem) (decodeTail stream) := by
  refine (takeExact_raises 32 stream).bind fun head _ => (takeExact_raises _ _).bind fun padded _ => ?_
  split
  · exact RaisesOnly.ok _
  · exact RaisesOnly.error rfl

theorem decodeValue_raises (params : Bytes) (type : String) (i : ℕ) :
    RaisesOnly (fun e => e.isDecodingProblem) (decodeValue params type i) := by
  apply (takeExact_raises 32 _).bind
  intro head _
  repeat' split
  · exact RaisesOnly.ok _
  · exact RaisesOnly.ok _
  · exact RaisesOnly.error rfl
  · exact RaisesOnly.ok _
  · exact RaisesOnly.error rfl
  · exact (decodeTail_raises _).bind fun b _ => RaisesOnly.ok _
  · refine (decodeTail_raises _).bind fun b _ => RaisesOnly.bind ?_ fun s _ => RaisesOnly.ok _
    unfold decodeText
    split
    · exact RaisesOnly.ok _
    · exact RaisesOnly.error rfl
  · exact RaisesOnly.error rfl

/-- A byte string that is read is a part of the parameters. -/
theorem decodeTail_length {stream b : Bytes} (h : decodeTail stream = .ok b) :
    b.length ≤ stream.length := by
  obtain ⟨head,_,h⟩ := bind_eq_ok_iff.mp h
  obtain ⟨padded,hpadded,h⟩ := bind_eq_ok_iff.mp h
  split at h
  · cases h
    unfold takeExact at hpadded
    split at hpadded
    · cases hpadded
      simp only [List.length_take, List.length_drop] at *
      omega
    · cases hpadded
  · cases h

theorem decodeValue_bytes {params : Bytes} {i : ℕ} {v : PyVal}
    (h : decodeValue params "bytes" i = .ok v) : ∃ b, v = .bytes b ∧ b.length ≤ params.length := by
  obtain ⟨head,_,h⟩ := bind_eq_ok_iff.mp h
  rw [if_neg (by decide), if_neg (by decide), if_neg (by decide), if_pos rfl] at h
  obtain ⟨b,hb,h⟩ := bind_eq_ok_iff.mp h
  cases h
  have hlen := decodeTail_length hb
  rw [List.length_drop] at hlen
  exact ⟨b,rfl,by omega⟩

theorem unpackTxs_entry {n : ℕ} {b : Bytes} {txs : List MultiSendTx} (h : unpackTxs n b = .ok txs)
    {tx : MultiSendTx} (htx : tx ∈ txs) :
    tx.data.length < b.length ∧ ∃ a, tx.toAddress = to0xHexStr a := by
  induction n generalizing b txs with
  | zero =>
    cases b with
    | nil =>
      cases h
      cases htx
    | cons x b => cases h
  | succ n ih =>
    cases b with
    | nil =>
      cases h
      cases htx
    | cons x b =>
      rw [unpackTxs] at h
      · split at h
        · cases h
        · rename_i hgood
          obtain ⟨rest,hrest,h⟩ := bind_eq_ok_iff.mp h
          cases h
          rcases List.mem_cons.mp htx with rfl | htail
          · refine ⟨?_,_,rfl⟩
            simp only [List.length_take, List.length_drop]
            omega
          · obtain ⟨hlen,ha⟩ := ih hrest htail
            rw [List.length_drop] at hlen
            exact ⟨by omega,ha⟩
      · exact List.cons_ne_nil x b

theorem fromTransactionData_entry {data : Bytes} {txs : List MultiSendTx}
    (h : fromTransactionData data = .ok txs) {tx : MultiSendTx} (htx : tx ∈ txs) :
    tx.data.length < data.length ∧ ∃ a, tx.toAddress = to0xHexStr a := by
  rcases fromTransactionData_cases h with rfl | ⟨packed,hpacked,hunpack⟩
  · cases htx
  · obtain ⟨hlen,ha⟩ := unpackTxs_entry hunpack htx
    refine ⟨?_,ha⟩
    cases mapM_eq_ok_iff.mp hpacked with
    | cons hvalue hrest =>
      obtain ⟨b,hb,hpart⟩ := decodeValue_bytes hvalue
      cases hb
      rw [List.length_drop] at hpart
      omega

theorem decodeAbi_eq_ok_iff {types : List String} {params : Bytes} {values : List PyVal} :
    decodeAbi types params = .ok values ↔
      List.Forall₂ (fun t v => decodeValue params t.1 t.2 = .ok v) types.zipIdx values :=
  mapM_eq_ok_iff

theorem length_decodeAbi {types : List String} {params : Bytes} {values : List PyVal}
    (h : decodeAbi types params = .ok values) : values.length = types.length := by
  rw [← (decodeAbi_eq_ok_iff.mp h).length_eq, List.length_zipIdx]

theorem shownValues_packages {types : List String} {params : Bytes} {values : List PyVal}
    (h : decodeAbi types params = .ok values) :
    shownValues packages types values = .ok (values.map parseDecodedArguments) := by
  rw [shownValues, mapAbiData_normalizer (length_decodeAbi h).symm]
  rfl

/-- The kinds of value that are decoded under one type. -/
theorem decodeValue_kind {params params' : Bytes} {type : String} {i j : ℕ} {v v' : PyVal}
    (h : decodeValue params type i = .ok v) (h' : decodeValue params' type j = .ok v') :
    (∃ n n', v = .int n ∧ v' = .int n') ∨ (∃ b b', v = .bytes b ∧ v' = .bytes b') ∨
      ∃ s s', v = .str s ∧ v' = .str s' := by
  obtain ⟨head,_,h⟩ := bind_eq_ok_iff.mp h
  obtain ⟨head',_,h'⟩ := bind_eq_ok_iff.mp h'
  by_cases h₁ : type = "uint256"
  · rw [if_pos h₁] at h h'
    cases h
    cases h'
    exact .inl ⟨_,_,rfl,rfl⟩
  rw [if_neg h₁] at h h'
  by_cases h₂ : type = "uint8"
  · rw [if_pos h₂] at h h'
    split at h
    · split at h'
      · cases h
        cases h'
        exact .inl ⟨_,_,rfl,rfl⟩
      · cases h'
    · cases h
  rw [if_neg h₂] at h h'
  by_cases h₃ : type = "address"
  · rw [if_pos h₃] at h h'
    split at h
    · split at h'
      · cases h
        cases h'
        exact .inr (.inr ⟨_,_,rfl,rfl⟩)
      · cases h'
    · cases h
  rw [if_neg h₃] at h h'
  by_cases h₄ : type = "bytes"
  · rw [if_pos h₄] at h h'
    obtain ⟨b,_,h⟩ := bind_eq_ok_iff.mp h
    obtain ⟨b',_,h'⟩ := bind_eq_ok_iff.mp h'
    cases h
    cases h'
    exact .inr (.inl ⟨_,_,rfl,rfl⟩)
  rw [if_neg h₄] at h h'
  by_cases h₅ : type = "string"
  · rw [if_pos h₅] at h h'
    obtain ⟨b,_,h⟩ := bind_eq_ok_iff.mp h
    obtain ⟨s,_,h⟩ := bind_eq_ok_iff.mp h
    obtain ⟨b',_,h'⟩ := bind_eq_ok_iff.mp h'
    obtain ⟨s',_,h'⟩ := bind_eq_ok_iff.mp h'
    cases h
    cases h'
    exact .inr (.inr ⟨_,_,rfl,rfl⟩)
  · rw [if_neg h₅] at h
    cases h

theorem to0xHexStr_inj {b b' : Bytes} (h : to0xHexStr b = to0xHexStr b') : b = b' := by
  have hread := hexstrToBytes_to0xHexStr b
  rw [h, hexstrToBytes_to0xHexStr] at hread
  exact (Except.ok.inj hread).symm

theorem parse_apart {params params' : Bytes} {type : String} {i j : ℕ} {v v' : PyVal}
    (h : decodeValue params type i = .ok v) (h' : decodeValue params' type j = .ok v')
    (heq : parseDecodedArguments v = parseDecodedArguments v') : v = v' := by
  rcases decodeValue_kind h h' with ⟨n,n',rfl,rfl⟩ | ⟨b,b',rfl,rfl⟩ | ⟨s,s',rfl,rfl⟩
  · have hread := Rendering.intOfDecimal_strOfInt n
    rw [PyVal.str.inj heq, Rendering.intOfDecimal_strOfInt] at hread
    rw [hread]
  · rw [to0xHexStr_inj (PyVal.str.inj heq)]
  · exact heq

theorem shown_apart {types : List String} {params params' : Bytes} {values values' : List PyVal}
    (h : decodeAbi types params = .ok values) (h' : decodeAbi types params' = .ok values') (i : ℕ) :
    (values.map parseDecodedArguments)[i]? = (values'.map parseDecodedArguments)[i]? ↔
      values[i]? = values'[i]? := by
  rw [List.getElem?_map, List.getElem?_map]
  have hlen := (length_decodeAbi h).trans (length_decodeAbi h').symm
  by_cases hi : i < values.length
  · have hi' : i < values'.length := by omega
    have ht : i < types.zipIdx.length := by rw [List.length_zipIdx, ← length_decodeAbi h]; exact hi
    have hv := (List.forall₂_iff_get.mp (decodeAbi_eq_ok_iff.mp h)).2 i ht hi
    have hv' := (List.forall₂_iff_get.mp (decodeAbi_eq_ok_iff.mp h')).2 i ht hi'
    rw [List.getElem?_eq_getElem hi, List.getElem?_eq_getElem hi']
    simp only [Option.map_some, Option.some.injEq]
    constructor
    · exact fun heq => parse_apart hv hv' heq
    · exact congrArg _
  · rw [List.getElem?_eq_none (by omega), List.getElem?_eq_none (by omega)]
    exact Iff.rfl

theorem readInputs_packages {f : Json} {names : List Json} {types : List String}
    (h : readInputs packages f = .ok (names,types)) : names.length = types.length := by
  obtain ⟨names',hnames,h⟩ := bind_eq_ok_iff.mp h
  obtain ⟨types',htypes,h⟩ := bind_eq_ok_iff.mp h
  cases h
  obtain ⟨args,hargs,htypes⟩ := bind_eq_ok_iff.mp htypes
  change List.map inputName <$> inputs f = _ at hnames
  rw [hargs] at hnames
  cases hnames
  rw [List.length_map]
  exact (mapM_eq_ok_iff.mp htypes).length_eq

theorem documented_packages : Documented packages where
  selectorError := selector_raises
  selectorLength := fun f k h => length_selector h
  inputsError := by
    intro f
    refine RaisesOnly.bind ?_ fun names _ => (inputTypes_raises f).bind fun types _ => RaisesOnly.ok _
    change RaisesOnly _ (List.map inputName <$> inputs f)
    rw [← bind_pure_comp]
    exact (inputs_raises f).bind fun args _ => RaisesOnly.ok _
  inputsLength := fun f names types h => readInputs_packages h
  decodeError := fun types params => RaisesOnly.mapM fun t _ => decodeValue_raises params t.1 t.2
  decodeLength := fun types params values h => length_decodeAbi h
  decodeNothing := fun params => rfl
  shown := fun types params values h =>
    ⟨_,shownValues_packages h,List.length_map _⟩
  shownApart := by
    intro types params params' values values' shown shown' h h' hs hs' i
    rw [shownValues_packages h] at hs
    rw [shownValues_packages h'] at hs'
    cases hs
    cases hs'
    exact shown_apart h h' i
  batchError := by
    intro data e he
    have hproblem : e.isDecodingProblem := by
      refine RaisesOnly.mapM (fun t _ => decodeValue_raises (data.drop 4) t.1 t.2) e
        (fromTransactionData_error he).2
    cases e <;> first | rfl | cases hproblem
  batchEntries := by
    intro data txs h tx htx
    obtain ⟨hlen,a,ha⟩ := fromTransactionData_entry h htx
    refine ⟨hlen,a,?_⟩
    rw [ha]
    exact packages_hexstrToBytes a
  hexError := hexBytes_raises

end Packages
end SafeDecoder.Containment
