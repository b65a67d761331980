import SafeDecoder.Calls.Containment
import SafeDecoder.Decoder.Requests
import SafeDecoder.Library.Outcomes

/-! # More functions never show less

The index of a service only grows. Call data that is decoded with a larger index
shows what it showed before, and where a call could not be read its decoding may
have appeared. This holds for any mixture of lookups between two indices, which is
what a decoding gets that runs while ABIs are being loaded.
-/
namespace SafeDecoder.Growth
open Effects SelectorIndex Containment Outcomes
open Requests (IsFailure Extends)
variable {L : Externals} {db : Db} {index larger multisend : Dict Bytes Json} {chainId : Option Int}

section Statements

mutual

/-- The second decoding shows all that the first one shows. -/
inductive Fuller : Option DataDecoded → Option DataDecoded → Prop
  | unread (d : Option DataDecoded) : Fuller none d
  | read {method : Json} {ps qs : List ParameterDecoded} (h : FullerParameters ps qs) :
      Fuller (some ⟨method,ps⟩) (some ⟨method,qs⟩)

inductive FullerParameters : List ParameterDecoded → List ParameterDecoded → Prop
  | nil : FullerParameters [] []
  | cons {name : Json} {type : String} {value : PyVal} {v w : Option ValueDecoded}
      {ps qs : List ParameterDecoded} (h : FullerValue v w) (rest : FullerParameters ps qs) :
      FullerParameters (⟨name,type,value,v⟩ :: ps) (⟨name,type,value,w⟩ :: qs)

inductive FullerValue : Option ValueDecoded → Option ValueDecoded → Prop
  | missing : FullerValue none none
  | null (w : ValueDecoded) : FullerValue (some .null) (some w)
  | call {d e : DataDecoded} (h : Fuller (some d) (some e)) :
      FullerValue (some (.call d)) (some (.call e))
  | transactions {txs txs' : List MultisendDecoded} (h : FullerEntries txs txs') :
      FullerValue (some (.transactions txs)) (some (.transactions txs'))

inductive FullerEntries : List MultisendDecoded → List MultisendDecoded → Prop
  | nil : FullerEntries [] []
  | cons {operation : ℕ} {toAddress value : String} {data : Option String} {d e : Option DataDecoded}
      {txs txs' : List MultisendDecoded} (h : Fuller d e) (rest : FullerEntries txs txs') :
      FullerEntries (⟨operation,toAddress,value,data,d⟩ :: txs)
        (⟨operation,toAddress,value,data,e⟩ :: txs')

end

abbrev Lookups := Bytes → Option PyVal → Option Int → Outcomes PyError (Option Json)

/-- Whatever the lookups find, the index has it. -/
def Within (L : Externals) (db : Db) (index : Dict Bytes Json) (chainId : Option Int) (G : Lookups) :
    Prop :=
  ∀ data address, (selectorOf data ∈ index → Acceptable L address) →
    Returns IsFailure
      (fun found => ∀ f, found = some f → resolve L db index data address chainId = .ok (some f))
      (G data address chainId)

/-- What the first lookups find, the second ones find as well. -/
def Below (L : Externals) (index : Dict Bytes Json) (chainId : Option Int) (G H : Lookups) : Prop :=
  ∀ data address, (selectorOf data ∈ index → Acceptable L address) →
    Related IsFailure (fun found more => found = none ∨ found = more)
      (G data address chainId) (H data address chainId)

end Statements

section Values

theorem fullerParameters_arguments (args : List (Json × String × PyVal)) :
    FullerParameters (args.map ParameterDecoded.ofArgument)
      (args.map ParameterDecoded.ofArgument) := by
  induction args with
  | nil => exact .nil
  | cons a args ih => exact .cons .missing ih

theorem fullerValue_ofCall {d e : Option DataDecoded} (h : Fuller d e) :
    FullerValue (some (.ofCall d)) (some (.ofCall e)) := by
  cases h with
  | unread d => exact .null _
  | read h => exact .call (.read h)

/-- The entries of a batch that are decoded alike but for their calls. -/
def FullerEntry (t t' : MultisendDecoded) : Prop :=
  ∃ operation toAddress value data d e, Fuller d e ∧
    t = ⟨operation,toAddress,value,data,d⟩ ∧ t' = ⟨operation,toAddress,value,data,e⟩

theorem fullerEntries_of_forall₂ {ts ts' : List MultisendDecoded}
    (h : List.Forall₂ FullerEntry ts ts') : FullerEntries ts ts' := by
  induction h with
  | nil => exact .nil
  | cons hentry _ ih =>
    obtain ⟨_,_,_,_,_,_,h,rfl,rfl⟩ := hentry
    exact .cons h ih

end Values

section Found
variable (L multisend chainId) in
/-- The function that a lookup has found, with its arguments. -/
def readFound (data : Bytes) (found : Option Json) :
    Outcomes PyError (Json × List (Json × String × PyVal)) :=
  match found.filter Json.truthy with
  | none => throw .cannotDecode
  | some fnAbi => do
    let arguments ← fromExcept (decodeArguments L fnAbi (data.drop 4))
    let name ← fromExcept (fnAbi.getItem "name")
    return (name,arguments)

variable (L multisend chainId) in
/-- The calls inside the arguments are decoded, and the guard is around them as well. -/
def decodeFurther (G : Lookups) (n : ℕ) (data : Bytes) (raw : Json × List (Json × String × PyVal)) :
    Outcomes PyError (Option DataDecoded) := do
  let parameters ← decodeParametersData L multisend (getDataDecodedWith L multisend G n) data
    (raw.2.map ParameterDecoded.ofArgument) chainId
  return some ⟨raw.1,parameters⟩

variable (L multisend chainId) in
def guarded (x : Outcomes PyError (Option DataDecoded)) : Outcomes PyError (Option DataDecoded) :=
  catchOnly PyError.isDataDecoderException x fun _ => pure none

variable {G : Lookups}

/-- Call data that is not empty, once its function has been looked up. -/
theorem decoded_cases {n : ℕ} {data : Bytes} {address : Option PyVal} (hne : data.isEmpty = false)
    {r : Except PyError (Option DataDecoded)}
    (h : getDataDecodedWith L multisend G (n+1) data address chainId r) :
    (∃ e, G data address chainId (.error e) ∧ guarded (throw e) r) ∨
      ∃ found, G data address chainId (.ok found) ∧
        guarded (readFound L data found >>= decodeFurther L multisend chainId G n data) r := by
  have hnot : ¬data.isEmpty := by rw [hne]; exact Bool.false_ne_true
  rw [getDataDecodedWith, if_neg hnot, decodeTransactionWithTypesWith, decodeDataWith, if_neg hnot] at h
  simp only [bind_assoc, pure_bind] at h
  exact catchOnly_bind_iff.mp h

/-- Nothing is found, and nothing is decoded. -/
theorem guarded_none {n : ℕ} {data : Bytes} {r : Except PyError (Option DataDecoded)}
    (h : guarded (readFound L data none >>= decodeFurther L multisend chainId G n data) r) :
    r = .ok none := by
  rcases catchOnly_bind_iff.mp h with ⟨e,he,h⟩ | ⟨a,ha,_⟩
  · cases Except.error.inj he
    exact catchOnly_throw_iff.mp h
  · cases ha

/-- A function that is found has a name, and its arguments are decoded or refused. -/
theorem guarded_some (doc : Documented L) (hvalid : IndexValid L index) {data : Bytes}
    {address : Option PyVal} {f : Json} (hf : resolve L db index data address chainId = .ok (some f))
    (husable : Usable L f) :
    (∃ name args, decodeArguments L f (data.drop 4) = .ok args ∧
        readFound L data (some f) = pure (name,args)) ∨
      readFound L data (some f) = throw .unexpectedProblemDecoding := by
  obtain ⟨hfn,_⟩ := resolve_function hvalid hf
  rw [readFound, Option.filter_some, if_pos (truthy_of_isFunctionEntry hfn)]
  rcases husable.decodeArguments doc (data.drop 4) with ⟨args,hargs⟩ | hargs
  · obtain ⟨types,values,htakes,hd,_⟩ := arguments_shown doc hargs
    obtain ⟨name,hname⟩ := husable.named types _ values htakes hd
    refine .inl ⟨name,args,hargs,?_⟩
    simp only [hargs, hname, fromExcept, pure_bind]
  · right
    simp only [hargs, fromExcept, throw_bind]

end Found

section Nested
variable {nested nested' : Bytes → Option PyVal → Option Int → Outcomes PyError (Option DataDecoded)}

/-- A batch that cannot be read is given up, whatever decodes its entries. -/
theorem batch_cases {data : Bytes}
    (hbatch : RaisesOnly (fun e => e.isValueError) (L.fromTransactionData data)) :
    (∀ nested, decodeMultisendData L nested data chainId =
        (pure none : Outcomes PyError (Option (List MultisendDecoded)))) ∨
      ∃ txs, L.fromTransactionData data = .ok txs ∧ ∀ nested, decodeMultisendData L nested data chainId =
        (catchOnly PyError.isValueError (some <$> txs.mapM (decodeMultisendTx nested chainId))
          fun _ => pure none : Outcomes PyError (Option (List MultisendDecoded))) := by
  cases htxs : L.fromTransactionData data with
  | error e =>
    left
    intro nested
    simp only [decodeMultisendData, htxs, fromExcept, throw_bind]
    exact catchOnly_throw _ (hbatch e htxs)
  | ok txs =>
    refine .inr ⟨txs,rfl,fun nested => ?_⟩
    simp only [decodeMultisendData, htxs, fromExcept, pure_bind]

theorem acceptable_str {s : String} {b : Bytes} (h : L.hexstrToBytes s = .ok b) :
    Acceptable L (some (.str s)) := by
  intro a ha _
  cases ha
  exact ⟨.str s,b,rfl,h⟩

theorem innerTransaction_of_bytes {safeTo second safeData : ParameterDecoded}
    {rest : List ParameterDecoded} {b : Bytes} (hb : L.hexBytes safeData.value = .ok b) :
    decodeInnerTransaction L nested (safeTo :: second :: safeData :: rest) chainId =
      if b.isEmpty then pure (safeTo :: second :: safeData :: rest)
      else catchOnly PyError.isDataDecoderException (do
        let decoded ← nested b (some safeTo.value) chainId
        pure (safeTo :: second :: { safeData with valueDecoded := some (.ofCall decoded) } :: rest))
        fun _ => pure (safeTo :: second :: safeData :: rest) := by
  simp only [decodeInnerTransaction, hb, fromExcept, pure_bind]
  rfl

theorem batch_compared (doc : Documented L) {data : Bytes}
    (hbatch : RaisesOnly (fun e => e.isValueError) (L.fromTransactionData data))
    (h : ∀ (b : Bytes) (a : String), b.length < data.length → Acceptable L (some (.str a)) →
      Compared IsFailure Fuller (nested b (some (.str a)) chainId) (nested' b (some (.str a)) chainId)) :
    Compared IsFailure (fun txs txs' => FullerValue (some (.ofTransactions txs))
        (some (.ofTransactions txs')))
      (decodeMultisendData L nested data chainId) (decodeMultisendData L nested' data chainId) := by
  rcases batch_cases hbatch with hnone | ⟨txs,htxs,hrun⟩
  · rw [hnone, hnone]
    exact .pure (.null _)
  · have hentries : Compared IsFailure (List.Forall₂ FullerEntry)
        (txs.mapM (decodeMultisendTx nested chainId)) (txs.mapM (decodeMultisendTx nested' chainId)) := by
      apply Compared.mapM
      intro tx htx
      obtain ⟨hlen,b,hto⟩ := doc.batchEntries data txs htxs tx htx
      exact (h tx.data tx.toAddress hlen (acceptable_str hto)).map fun d e hde =>
        ⟨_,_,_,_,d,e,hde,rfl,rfl⟩
    rw [hrun, hrun, ← bind_pure_comp, ← bind_pure_comp]
    apply Compared.catchOnly fun e he => he.1
    exact hentries.map fun ts ts' hts => .transactions (fullerEntries_of_forall₂ hts)

variable {K : Codec L} (cond : Conditions K db index multisend chainId)
  (hthird : ThirdIsPart L db index multisend chainId)
include cond hthird

/-- The call data in the third argument can be read, and its call is decoded at an address
that a lookup can use. -/
theorem inner_readable (doc : Documented L) {f : Json} {params : Bytes}
    {safeTo second safeData : Json × String × PyVal} {rest : List (Json × String × PyVal)}
    (hres : Resolvable L db index chainId execTransactionSelector f)
    (hargs : decodeArguments L f params = .ok (safeTo :: second :: safeData :: rest)) :
    ∃ b, L.hexBytes safeData.2.2 = .ok b ∧
      (b.isEmpty = false → selectorOf b ∈ index → Acceptable L (some safeTo.2.2)) ∧
      (Nests multisend b → b.length ≤ params.length) := by
  obtain ⟨b,hb,haddress⟩ := cond.inner_arguments doc hres hargs
  exact ⟨b,hb,haddress,hthird f hres params safeTo second safeData rest b hargs hb⟩

/-- The calls inside the parameters are decoded when shorter call data is. -/
theorem parameters_compared (doc : Documented L) {f : Json} {data : Bytes}
    (hres : Resolvable L db index chainId (selectorOf data) f)
    {args : List (Json × String × PyVal)} (hargs : decodeArguments L f (data.drop 4) = .ok args)
    (h : Nests multisend data → ∀ b a, (selectorOf b ∈ index → Acceptable L a) →
      (Nests multisend b → b.length < data.length) →
        Compared IsFailure Fuller (nested b a chainId) (nested' b a chainId)) :
    Compared IsFailure FullerParameters
      (decodeParametersData L multisend nested data (args.map ParameterDecoded.ofArgument) chainId)
      (decodeParametersData L multisend nested' data (args.map ParameterDecoded.ofArgument) chainId) := by
  rw [decodeParametersData, decodeParametersData]
  by_cases hmulti : selectorOf data ∈ multisend
  · rw [if_pos hmulti, if_pos hmulti]
    have hbatch := batch_compared doc (cond.batch_readable doc hmulti hres hargs) fun b a hb hacc =>
      h (.inl hmulti) b (some (.str a)) (fun _ => hacc) fun _ => hb
    cases args with
    | nil => exact absurd hargs (cond.batch_arguments doc hmulti hres _)
    | cons first rest =>
      exact hbatch.map fun txs txs' htxs => .cons htxs (fullerParameters_arguments rest)
  · rw [if_neg hmulti, if_neg hmulti]
    by_cases hsel : selectorOf data = execTransactionSelector
    · rw [if_pos hsel, if_pos hsel]
      have hlt : ∀ {b : Bytes}, b.length ≤ (data.drop 4).length → b.length < data.length := by
        intro b hb
        have hfour : 4 ≤ data.length := four_le_length hsel rfl
        rw [List.length_drop] at hb
        omega
      rw [hsel] at hres
      rcases args with _ | ⟨safeTo,_ | ⟨second,_ | ⟨safeData,rest⟩⟩⟩
      · exact .pure .nil
      · exact .pure (fullerParameters_arguments [safeTo])
      · exact .pure (fullerParameters_arguments [safeTo,second])
      · obtain ⟨b,hb,hacc,hlen⟩ := inner_readable cond hthird doc hres hargs
        simp only [List.map_cons]
        rw [innerTransaction_of_bytes hb, innerTransaction_of_bytes hb]
        cases hne : b.isEmpty with
        | true => exact .pure (fullerParameters_arguments (safeTo :: second :: safeData :: rest))
        | false =>
          rw [if_neg Bool.false_ne_true, if_neg Bool.false_ne_true]
          apply Compared.catchOnly fun e he => he.2
          refine (h (.inr hsel) b _ (hacc hne) fun hn => hlt (hlen hn)).map fun d e hde => ?_
          exact .cons .missing (.cons .missing
            (.cons (fullerValue_ofCall hde) (fullerParameters_arguments rest)))
    · rw [if_neg hsel, if_neg hsel]
      exact .pure (fullerParameters_arguments args)

/-- Next to a decoder that decodes no nested call there is nothing to compare. -/
theorem parameters_return (doc : Documented L) {f : Json} {data : Bytes}
    (hres : Resolvable L db index chainId (selectorOf data) f)
    {args : List (Json × String × PyVal)} (hargs : decodeArguments L f (data.drop 4) = .ok args)
    (h : Nests multisend data → ∀ b a, (selectorOf b ∈ index → Acceptable L a) →
      (Nests multisend b → b.length < data.length) →
        Returns IsFailure (fun _ => True) (nested b a chainId)) :
    Returns IsFailure (fun _ => True) (decodeParametersData L multisend nested data
      (args.map ParameterDecoded.ofArgument) chainId) := by
  let undecoded : Bytes → Option PyVal → Option Int → Outcomes PyError (Option DataDecoded) :=
    fun _ _ _ => pure none
  have hnone : Nests multisend data → ∀ b a, (selectorOf b ∈ index → Acceptable L a) →
      (Nests multisend b → b.length < data.length) →
        Compared IsFailure Fuller (undecoded b a chainId) (nested b a chainId) := fun hnests b a hacc hb =>
    .of_returns ((h hnests b a hacc hb).mono fun d _ => .unread d)
  exact (parameters_compared cond hthird doc hres hargs hnone).right

end Nested

section Decoding
variable {K : Codec L} {G H : Lookups} (doc : Documented L) (hvalid : IndexValid L index)
  (cond : Conditions K db index multisend chainId) (hthird : ThirdIsPart L db index multisend chainId)

/-- The calls inside a call are decoded on the stack below it. -/
theorem nested_shallow {n : ℕ} {data b : Bytes} (hne : data.isEmpty = false)
    (hn : Nests multisend data → data.length < n + 1) (hnests : Nests multisend data)
    (hb : Nests multisend b → b.length < data.length) :
    0 < n ∧ (Nests multisend b → b.length < n) := by
  have hdeep := hn hnests
  have hsome : 0 < data.length := List.length_pos_iff.mpr (List.isEmpty_eq_false_iff.mp hne)
  refine ⟨by omega,fun hinner => ?_⟩
  have hlt := hb hinner
  omega

theorem guarded_failed {e : PyError} {r : Except PyError (Option DataDecoded)} (hf : IsFailure e)
    (h : guarded (throw e) r) : r = .error e := by
  rw [guarded, catchOnly_throw_iff, hf.2] at h
  exact h

include doc hvalid cond hthird

/-- Whatever is found in the index, the decoding returns. -/
theorem returned (hG : Within L db index chainId G) (n : ℕ) (data : Bytes) (address : Option PyVal)
    (ha : selectorOf data ∈ index → Acceptable L address) (hpos : 0 < n)
    (hn : Nests multisend data → data.length < n) :
    Returns IsFailure (fun _ => True) (getDataDecodedWith L multisend G n data address chainId) := by
  induction n generalizing data address with
  | zero => omega
  | succ n ih =>
    cases hne : data.isEmpty with
    | true =>
      rw [getDataDecodedWith, if_pos hne]
      exact .pure trivial
    | false =>
      intro r hr
      rcases decoded_cases hne hr with ⟨e,he,hr⟩ | ⟨found,hfound,hr⟩
      · have hf := (hG data address ha).failed he
        exact .inl ⟨e,guarded_failed hf hr,hf⟩
      · cases found with
        | none => exact .inr ⟨none,guarded_none hr,trivial⟩
        | some f =>
          have hf := (hG data address ha).value hfound f rfl
          have hres : Resolvable L db index chainId (selectorOf data) f :=
            ⟨data,address,ha (mem_index_of_resolve hf),rfl,hf⟩
          rcases guarded_some doc hvalid hf (cond.usable _ f hres) with ⟨name,args,hargs,hread⟩ | hread
          · rw [hread, pure_bind] at hr
            have hparams : Returns IsFailure (fun _ => True) (decodeParametersData L multisend
                (getDataDecodedWith L multisend G n) data
                (args.map ParameterDecoded.ofArgument) chainId) := by
              apply parameters_return cond hthird doc hres hargs
              intro hnests b a hacc hb
              obtain ⟨hpos,hlen⟩ := nested_shallow hne hn hnests hb
              exact ih b a hacc hpos hlen
            exact (hparams.bind fun ps _ => .pure trivial).catchOnly (fun e he => he.2) r hr
          · rw [hread, throw_bind, guarded, catchOnly_throw _ rfl] at hr
            exact .inr ⟨none,hr,trivial⟩

/-- The second lookups find more, and the decoding shows more. -/
theorem related (hG : Within L db index chainId G) (hH : Within L db index chainId H)
    (hbelow : Below L index chainId G H) (n : ℕ) (data : Bytes) (address : Option PyVal)
    (ha : selectorOf data ∈ index → Acceptable L address) (hpos : 0 < n)
    (hn : Nests multisend data → data.length < n) :
    Related IsFailure Fuller (getDataDecodedWith L multisend G n data address chainId)
      (getDataDecodedWith L multisend H n data address chainId) := by
  induction n generalizing data address with
  | zero => omega
  | succ n ih =>
    cases hne : data.isEmpty with
    | true =>
      rw [getDataDecodedWith, getDataDecodedWith, if_pos hne, if_pos hne]
      exact .pure (.unread none)
    | false =>
      intro r s hr hs
      have hright := returned doc hvalid cond hthird hH (n+1) data address ha hpos hn s hs
      rcases decoded_cases hne hr with ⟨e,he,hr⟩ | ⟨found,hfound,hr⟩
      · have hf := (hG data address ha).failed he
        exact .inl ⟨e,guarded_failed hf hr,hf⟩
      · cases found with
        | none =>
          rcases hright with hf | ⟨d,rfl,_⟩
          · exact .inr (.inl hf)
          · exact .inr (.inr ⟨none,d,guarded_none hr,rfl,.unread d⟩)
        | some f =>
          have hf := (hG data address ha).value hfound f rfl
          rcases decoded_cases hne hs with ⟨e,he,hs⟩ | ⟨more,hmore,hs⟩
          · have hf := (hH data address ha).failed he
            exact .inr (.inl ⟨e,guarded_failed hf hs,hf⟩)
          · obtain h | rfl := (hbelow data address ha).value hfound hmore
            · cases h
            have hres : Resolvable L db index chainId (selectorOf data) f :=
              ⟨data,address,ha (mem_index_of_resolve hf),rfl,hf⟩
            rcases guarded_some doc hvalid hf (cond.usable _ f hres) with ⟨name,args,hargs,hread⟩ | hread
            · rw [hread, pure_bind] at hr hs
              have hparams : Compared IsFailure FullerParameters
                  (decodeParametersData L multisend (getDataDecodedWith L multisend G n) data
                    (args.map ParameterDecoded.ofArgument) chainId)
                  (decodeParametersData L multisend (getDataDecodedWith L multisend H n) data
                    (args.map ParameterDecoded.ofArgument) chainId) := by
                apply parameters_compared cond hthird doc hres hargs
                intro hnests b a hacc hb
                obtain ⟨hpos,hlen⟩ := nested_shallow hne hn hnests hb
                exact ⟨ih b a hacc hpos hlen,returned doc hvalid cond hthird hG n b a hacc hpos hlen,
                  returned doc hvalid cond hthird hH n b a hacc hpos hlen⟩
              exact ((hparams.map fun ps qs h => .read h).catchOnly fun e he => he.2).related r s hr hs
            · rw [hread, throw_bind, guarded, catchOnly_throw _ rfl] at hr hs
              exact .inr (.inr ⟨none,none,hr,hs,.unread none⟩)

end Decoding

section Extending

/-- What a selector resolves to does not change when others are added. -/
theorem resolve_extends (h : Extends index larger) {data : Bytes} {address : Option PyVal} {f : Json}
    (hf : resolve L db index data address chainId = .ok (some f)) :
    resolve L db larger data address chainId = .ok (some f) := by
  obtain ⟨general,hg⟩ := Option.isSome_iff_exists.mp (AList.lookup_isSome.mpr (mem_index_of_resolve hf))
  rw [resolve, abiFunctionWith, hg] at hf
  rw [resolve, abiFunctionWith, h _ _ hg]
  exact hf

variable (L db) in
/-- What is found while the index grows from one to another. -/
def Between (lower larger : Dict Bytes Json) : Lookups := fun data address chainId r =>
  ∃ mid, Extends lower mid ∧ Extends mid larger ∧
    orFailed IsFailure (resolve L db mid data address chainId) r

variable {lower upper lower' : Dict Bytes Json} {K : Codec L}
  (cond : Conditions K db larger multisend chainId)
include cond

/-- No lookup fails by itself in a part of an index that meets the conditions. -/
theorem resolve_returns (hext : Extends index larger) {data : Bytes} {address : Option PyVal}
    (ha : selectorOf data ∈ larger → Acceptable L address) :
    ∃ found, resolve L db index data address chainId = .ok found :=
  resolve_isOk_iff.mpr fun hk => cond.lookupReturns ⟨_,hext.mem hk⟩ (ha (hext.mem hk))

theorem between_within (hup : Extends upper larger) :
    Within L db larger chainId (Between L db lower upper) := by
  rintro data address ha r ⟨mid,_,hmid,hr | hr⟩
  · obtain ⟨found,hfound⟩ := resolve_returns cond (hmid.trans hup) ha
    refine .inr ⟨found,hr.trans hfound,?_⟩
    rintro f rfl
    exact resolve_extends (hmid.trans hup) hfound
  · exact .inl hr

/-- What is found before an index is reached, is found after it. -/
theorem between_below (hup : Extends upper lower') :
    Below L larger chainId (Between L db lower upper) (Between L db lower' larger) := by
  rintro data address ha r s ⟨mid,_,hmid,hr | hr⟩ ⟨mid',hlow,hmid',hs | hs⟩
  · obtain ⟨found,hfound⟩ := resolve_returns cond ((hmid.trans hup).trans (hlow.trans hmid')) ha
    obtain ⟨more,hmore⟩ := resolve_returns cond hmid' ha
    refine .inr (.inr ⟨found,more,hr.trans hfound,hs.trans hmore,?_⟩)
    cases found with
    | none => exact .inl rfl
    | some f =>
      have hsame := resolve_extends ((hmid.trans hup).trans hlow) hfound
      rw [hmore] at hsame
      exact .inr (Except.ok.inj hsame).symm
  · exact .inr (.inl hs)
  · exact .inl hr
  · exact .inl hr

end Extending
end SafeDecoder.Growth
