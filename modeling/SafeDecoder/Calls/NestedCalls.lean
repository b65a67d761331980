import Mathlib.Algebra.Order.BigOperators.Group.List
import SafeDecoder.Calls.CallTree
import SafeDecoder.Data.ReferenceSizes
import SafeDecoder.Decoder.Endpoint
import SafeDecoder.Library.Logging

/-! # How nested decoding ends

A nested call gets less data than the call around it: three arguments take three
words, and what is rendered for the third one and read again is no longer than
them, not even the digits of an integer. So the recursion ends, and it makes at
most as many calls as the data has bytes.
-/
namespace SafeDecoder.NestedCalls
open Effects

section Levels
variable {m : Type → Type} [Monad m] [MonadExceptOf PyError m] (L : Externals)
  (multisend : Dict Bytes Json) (getAbiFunction : Bytes → Option PyVal → Option Int → m (Option Json))
  (bottom nested : Bytes → Option PyVal → Option Int → m (Option DataDecoded))

/-- The body of `get_data_decoded` over the decoder of nested calls. -/
def oneLevel (data : Bytes) (address : Option PyVal) (chainId : Option Int) :
    m (Option DataDecoded) :=
  if data.isEmpty then pure none
  else catchOnly PyError.isDataDecoderException
    (do
      let decoded ← decodeTransactionWithTypesWith L multisend getAbiFunction nested data address
        chainId
      return some ⟨decoded.1,decoded.2⟩)
    fun _ => pure none

/-- The recursion unrolled `n` times, with anything below. -/
def levels : ℕ → Bytes → Option PyVal → Option Int → m (Option DataDecoded)
  | 0 => bottom
  | n+1 => oneLevel L multisend getAbiFunction (levels n)

theorem levels_getDataDecodedWith (n : ℕ) :
    levels L multisend getAbiFunction (fun _ _ _ => throw .recursionError) n =
      getDataDecodedWith L multisend getAbiFunction n := by
  induction n with
  | zero => rfl
  | succ n ih =>
    funext data address chainId
    rw [levels, ih]
    rfl

end Levels

section Sizes

/-- The value may have been read from parameters of this length. -/
def Fits (length : ℕ) : PyVal → Prop
  | .bytes b => b.length ≤ length
  | .str s => s.length ≤ length ∨ s.length = 42
  | .int n => n.natAbs < 2 ^ 256
  | _ => True

/-- What the packages say about sizes. An argument takes a word of the parameters at
least, a byte string or a text is a part of them, an integer fits a word, two
hexadecimal digits make a byte, and the entries of a batch lie side by side after 85
bytes each. -/
structure Sized (L : Externals) : Prop where
  heads : ∀ types params values, L.decodeAbi types params = .ok values →
    32 * types.length ≤ params.length
  arguments : ∀ types params values normalized, L.decodeAbi types params = .ok values →
    L.mapAbiData (addressesChecksummedNormalizer L) types values = .ok normalized →
      ∀ v ∈ normalized, Fits params.length v
  hexLength : ∀ s b, L.hexstrToBytes s = .ok b → b.length ≤ (s.length + 1) / 2
  entries : ∀ data txs, L.fromTransactionData data = .ok txs →
    (txs.map fun tx => tx.data.length + 85).sum ≤ data.length

variable {L : Externals}

/-- The digits of a word, with a sign. -/
theorem length_strOfInt {n : Int} (h : n.natAbs < 2 ^ 256) : (strOfInt n).length ≤ 79 := by
  have hdigits : (Nat.toDigits 10 n.natAbs).length ≤ 78 := by
    rw [Nat.length_toDigits_le_iff (by decide) (by decide)]
    exact h.trans (by norm_num)
  rw [← String.length_toList, toList_strOfInt]
  split
  · rw [List.length_cons]
    omega
  · omega

/-- The values that arguments are rendered from. -/
theorem exists_values {fnAbi : Json} {params : Bytes} {arguments : List (Json × String × PyVal)}
    (h : decodeArguments L fnAbi params = .ok arguments) :
    ∃ (names : List Json) (types : List String) (values normalized : List PyVal),
      L.decodeAbi types params = .ok values ∧
      L.mapAbiData (addressesChecksummedNormalizer L) types values = .ok normalized ∧
        arguments = names.zip (types.zip (normalized.map parseDecodedArguments)) := by
  rw [decodeArguments] at h
  generalize hbody : (do
    let names ← L.getAbiInputNames fnAbi
    let types ← L.getAbiInputTypes fnAbi
    let decoded ← L.decodeAbi types params
    let normalized ← L.mapAbiData (addressesChecksummedNormalizer L) types decoded
    return names.zip (types.zip (normalized.map parseDecodedArguments)) :
      Except PyError (List (Json × String × PyVal))) = body at h
  cases body with
  | ok r =>
    cases h
    obtain ⟨names,_,hbody⟩ := bind_eq_ok_iff.mp hbody
    obtain ⟨types,_,hbody⟩ := bind_eq_ok_iff.mp hbody
    obtain ⟨values,hvalues,hbody⟩ := bind_eq_ok_iff.mp hbody
    obtain ⟨normalized,hnormalized,hbody⟩ := bind_eq_ok_iff.mp hbody
    exact ⟨names,types,values,normalized,hvalues,hnormalized,(Except.ok.inj hbody).symm⟩
  | error e =>
    rw [catchOnly_error] at h
    split at h
    · cases h
    · cases h

variable (hsized : Sized L)
include hsized

/-- Reading a rendered value again, where there are words for three arguments. -/
theorem length_of_rendered {k : ℕ} (hk : 96 ≤ k) {v : PyVal} {b : Bytes} (hv : Fits k v)
    (hb : L.hexBytes (parseDecodedArguments v) = .ok b) : b.length < k + 4 := by
  cases v with
  | bytes c =>
    have hle := hsized.hexLength _ _ hb
    rw [length_to0xHexStr] at hle
    have hc : c.length ≤ k := hv
    omega
  | str s =>
    have hle := hsized.hexLength _ _ hb
    rcases hv with hs | hs
    · omega
    · omega
  | int n =>
    have hle := hsized.hexLength _ _ hb
    have hlen := length_strOfInt hv
    omega
  | bool c =>
    have hle := hsized.hexLength _ _ hb
    have hlen : (strOfBool c).length ≤ 5 := by cases c <;> decide
    omega
  | decimal n scale => cases hb
  | tuple elems => cases hb
  | list elems => cases hb

theorem shorter_of_third {fnAbi : Json} {data b : Bytes} (hdata : 4 ≤ data.length)
    {first second third : Json × String × PyVal} {rest : List (Json × String × PyVal)}
    (h : decodeArguments L fnAbi (data.drop 4) = .ok (first :: second :: third :: rest))
    (hb : L.hexBytes third.2.2 = .ok b) : b.length < data.length := by
  obtain ⟨names,types,values,normalized,hvalues,hnormalized,harguments⟩ := exists_values h
  have hheads := hsized.heads _ _ _ hvalues
  have hthree : 3 ≤ types.length := by
    have hlength := congrArg List.length harguments
    simp only [List.length_cons, List.length_zip] at hlength
    omega
  have hmem : third ∈ names.zip (types.zip (normalized.map parseDecodedArguments)) := by
    rw [← harguments]
    exact List.mem_cons_of_mem _ (List.mem_cons_of_mem _ (List.mem_cons_self ..))
  obtain ⟨v,hv,heq⟩ := List.mem_map.mp (List.of_mem_zip (List.of_mem_zip hmem).2).2
  rw [← heq] at hb
  have hfits := hsized.arguments _ _ _ _ hvalues hnormalized v hv
  have hlt := length_of_rendered hsized (by omega) hfits hb
  rw [List.length_drop] at hlt
  omega

theorem length_of_entry {data : Bytes} {txs : List MultiSendTx}
    (h : L.fromTransactionData data = .ok txs) {tx : MultiSendTx} (hmem : tx ∈ txs) :
    tx.data.length + 85 ≤ data.length :=
  (List.le_sum_of_mem (List.mem_map_of_mem hmem)).trans (hsized.entries data txs h)

end Sizes

section Runs
variable {σ : Type} {L : Externals} {multisend : Dict Bytes Json}
  {g : Bytes → Option PyVal → Option Int → EStateM PyError σ (Option Json)}

/-- What the parameters of a call have been decoded from. -/
theorem decodeDataWith_arguments (data : Bytes) (address : Option PyVal) (chainId : Option Int) :
    Triple (fun _ => True) (decodeDataWith L g data address chainId)
      (fun raw => ∃ fnAbi, decodeArguments L fnAbi (data.drop 4) = .ok raw.2) fun _ => True := by
  refine Triple.ite (Triple.throw trivial) ((Triple.trivial _).bind fun found _ => ?_)
  cases found.filter Json.truthy with
  | none => exact Triple.throw trivial
  | some fnAbi =>
    have hargs : Triple (fun _ : σ => True) (fromExcept (decodeArguments L fnAbi (data.drop 4)))
        (fun arguments => decodeArguments L fnAbi (data.drop 4) = .ok arguments) fun _ => True :=
      Triple.lift (fun _ h => h) fun _ _ => trivial
    refine hargs.bind fun arguments h => (Triple.trivial _).bind fun name _ => ?_
    exact Triple.pure ⟨fnAbi,h⟩

/-- The third parameter is read again as less than the data. -/
def Fit (L : Externals) (data : Bytes) (parameters : List ParameterDecoded) : Prop :=
  ∀ safeTo second safeData rest, parameters = safeTo :: second :: safeData :: rest →
    ∀ b, L.hexBytes safeData.value = .ok b → b.length < data.length

theorem fit_of_arguments (hsized : Sized L) {data : Bytes}
    (hsel : selectorOf data = execTransactionSelector) {fnAbi : Json}
    {arguments : List (Json × String × PyVal)}
    (h : decodeArguments L fnAbi (data.drop 4) = .ok arguments) :
    Fit L data (arguments.map ParameterDecoded.ofArgument) := by
  rintro safeTo second safeData rest hparameters b hb
  rcases arguments with _ | ⟨first,_ | ⟨next,_ | ⟨third,more⟩⟩⟩
  · cases hparameters
  · cases hparameters
  · cases hparameters
  · cases hparameters
    exact shorter_of_third hsized (four_le_length hsel rfl) h hb

end Runs

section Congruence
variable {σ : Type} {L : Externals} {multisend : Dict Bytes Json}
  {g : Bytes → Option PyVal → Option Int → EStateM PyError σ (Option Json)}
  {nested nested' : Bytes → Option PyVal → Option Int → EStateM PyError σ (Option DataDecoded)}
  {data : Bytes} {chainId : Option Int}

theorem decodeMultisendData_congr (hsized : Sized L)
    (h : ∀ d, d.length < data.length → ∀ a, nested d a chainId = nested' d a chainId) :
    decodeMultisendData L nested data chainId = decodeMultisendData L nested' data chainId := by
  have hbody : (fromExcept (L.fromTransactionData data) >>= fun txs =>
      some <$> txs.mapM (decodeMultisendTx nested chainId) :
        EStateM PyError σ (Option (List MultisendDecoded))) =
      fromExcept (L.fromTransactionData data) >>= fun txs =>
        some <$> txs.mapM (decodeMultisendTx nested' chainId) := by
    cases htxs : L.fromTransactionData data with
    | error e => rfl
    | ok txs =>
      have hentries : ∀ tx ∈ txs, decodeMultisendTx nested chainId tx =
          decodeMultisendTx nested' chainId tx := by
        intro tx hmem
        have hlen := length_of_entry hsized htxs hmem
        rw [decodeMultisendTx, h tx.data (by omega)]
        rfl
      have hall : txs.mapM (decodeMultisendTx nested chainId) =
          txs.mapM (decodeMultisendTx nested' chainId) := by
        clear htxs
        induction txs with
        | nil => rfl
        | cons tx rest ih =>
          rw [List.mapM_cons, List.mapM_cons, hentries tx (List.mem_cons_self ..),
            ih fun t ht => hentries t (List.mem_cons_of_mem _ ht)]
      simp only [fromExcept, pure_bind, hall]
  rw [decodeMultisendData, hbody]
  rfl

theorem decodeInnerTransaction_congr {parameters : List ParameterDecoded}
    (hfit : Fit L data parameters)
    (h : ∀ d, d.length < data.length → ∀ a, nested d a chainId = nested' d a chainId) :
    decodeInnerTransaction L nested parameters chainId =
      decodeInnerTransaction L nested' parameters chainId := by
  rcases parameters with _ | ⟨safeTo,_ | ⟨second,_ | ⟨safeData,rest⟩⟩⟩
  · rfl
  · rfl
  · rfl
  · rw [decodeInnerTransaction, decodeInnerTransaction]
    cases hb : L.hexBytes safeData.value with
    | error e => rfl
    | ok b =>
      simp only [fromExcept, pure_bind, h b (hfit _ _ _ _ rfl b hb)]

theorem oneLevel_congr (hsized : Sized L)
    (h : ∀ d, d.length < data.length → ∀ a, nested d a chainId = nested' d a chainId)
    (address : Option PyVal) :
    oneLevel L multisend g nested data address chainId =
      oneLevel L multisend g nested' data address chainId := by
  have hparameters : ∀ raw : Json × List (Json × String × PyVal),
      (∃ fnAbi, decodeArguments L fnAbi (data.drop 4) = .ok raw.2) →
        decodeParametersData L multisend nested data (raw.2.map ParameterDecoded.ofArgument) chainId =
          decodeParametersData L multisend nested' data (raw.2.map ParameterDecoded.ofArgument)
            chainId := by
    rintro raw ⟨fnAbi,hargs⟩
    rw [decodeParametersData, decodeParametersData,
      decodeMultisendData_congr hsized h]
    by_cases hexec : selectorOf data = execTransactionSelector
    · rw [decodeInnerTransaction_congr (fit_of_arguments hsized hexec hargs) h]
    · simp only [if_neg hexec]
  have hbody : decodeTransactionWithTypesWith L multisend g nested data address chainId =
      decodeTransactionWithTypesWith L multisend g nested' data address chainId := by
    funext s
    rw [decodeTransactionWithTypesWith, decodeTransactionWithTypesWith]
    cases hr : decodeDataWith L g data address chainId s with
    | ok raw t =>
      have hraw := ((decodeDataWith_arguments data address chainId s trivial).1 raw t hr).2
      rw [run_bind_ok hr, run_bind_ok hr, hparameters raw hraw]
    | error e t => rw [run_bind_error hr, run_bind_error hr]
  rw [oneLevel, hbody]
  rfl

/-- What lies below more levels than the data has bytes is never reached. -/
theorem levels_bottom (hsized : Sized L) (bottom bottom' : Bytes → Option PyVal → Option Int →
    EStateM PyError σ (Option DataDecoded)) (n : ℕ) (data : Bytes) (address : Option PyVal)
    (h : data.length < n) :
    levels L multisend g bottom n data address chainId =
      levels L multisend g bottom' n data address chainId := by
  induction n generalizing data address with
  | zero => omega
  | succ n ih =>
    exact oneLevel_congr hsized (fun d hd a => ih d a (by omega)) address

end Congruence

section Traces
variable {σ : Type} (L : Externals) (multisend : Dict Bytes Json)
  (g : Bytes → Option PyVal → Option Int → EStateM PyError σ (Option Json))

/-- `get_data_decoded` with a log of the nested calls. An entry has the data of the
call and of all the calls around it, innermost first. -/
def traced : ℕ → List Bytes → Bytes → Option PyVal → Option Int →
    EStateM PyError (σ × List (List Bytes)) (Option DataDecoded)
  | 0, _, _, _, _ => throw .recursionError
  | n+1, around, data, address, chainId =>
    oneLevel L multisend (fun d a c => silent (g d a c))
      (fun d a c => do
        record (d :: data :: around)
        traced n (data :: around) d a c)
      data address chainId

/-- Every call has less data than all those around it. -/
def Descends (calls : List Bytes) : Prop := calls.Pairwise fun a b => a.length < b.length

/-- The entries that the decoding of `data` may add. -/
def Entry (around : List Bytes) (data : Bytes) (entry : List Bytes) : Prop :=
  ∃ calls, entry = calls ++ data :: around ∧ Descends (calls ++ [data])

variable {L multisend g} {chainId : Option Int} {data : Bytes} {around : List Bytes}

theorem descends_concat {calls : List Bytes} {outer : Bytes} (h : Descends (calls ++ [data]))
    (hlt : data.length < outer.length) : Descends (calls ++ [data] ++ [outer]) := by
  refine List.pairwise_append.mpr ⟨h,List.pairwise_singleton _ _,?_⟩
  intro a ha b hb
  rw [List.mem_singleton.mp hb]
  rcases List.mem_append.mp ha with ha | ha
  · have hlast := (List.pairwise_append.mp h).2.2 a ha data (List.mem_singleton_self _)
    exact hlast.trans hlt
  · rw [List.mem_singleton.mp ha]
    exact hlt

theorem Entry.mono {d : Bytes} {entry : List Bytes} (hlt : d.length < data.length)
    (h : Entry (data :: around) d entry) : Entry around data entry := by
  obtain ⟨calls,rfl,hdescends⟩ := h
  exact ⟨calls ++ [d],by simp,descends_concat hdescends hlt⟩

theorem entry_record {d : Bytes} (h : d.length < data.length) :
    Entry around data (d :: data :: around) := by
  refine ⟨[d],rfl,List.pairwise_pair.mpr h⟩

section Bounds
variable {R : List Bytes → Prop} {nested : Bytes → Option PyVal → Option Int →
  EStateM PyError (σ × List (List Bytes)) (Option DataDecoded)}

theorem decodeDataWith_adds (data : Bytes) (address : Option PyVal) (chainId : Option Int) :
    Adds 0 R (decodeDataWith L (fun d a c => silent (g d a c)) data address chainId :
      EStateM PyError (σ × List (List Bytes)) _) := by
  refine Adds.ite (fun _ => .throw _) fun _ => (Adds.silent _).after fun found => ?_
  cases found.filter Json.truthy with
  | none => exact .throw _
  | some fnAbi => exact (Adds.lift _).after fun arguments => (Adds.lift _).after fun name => .pure _

theorem decodeMultisendData_adds (hsized : Sized L)
    (h : ∀ d, d.length < data.length → ∀ a, Adds (d.length + 1) R (nested d a chainId)) :
    Adds data.length R (decodeMultisendData L nested data chainId) := by
  refine Adds.catchOnly (Adds.lift_bind fun txs htxs => ?_) fun _ => .pure _
  have hentries : ∀ tx ∈ txs, Adds (tx.data.length + 85) R (decodeMultisendTx nested chainId tx) := by
    intro tx hmem
    have hlen := length_of_entry hsized htxs hmem
    have hcall := h tx.data (by omega) (some (.str tx.toAddress))
    exact (hcall.bind fun decoded => .pure _).mono (by omega) fun _ hp => hp
  have hall := (Adds.mapM hentries).mono (hsized.entries _ _ htxs) fun _ hp => hp
  rw [← bind_pure_comp]
  exact hall.bind fun txs => .pure _

theorem decodeInnerTransaction_adds {parameters : List ParameterDecoded}
    (hfit : Fit L data parameters)
    (h : ∀ d, d.length < data.length → ∀ a, Adds (d.length + 1) R (nested d a chainId)) :
    Adds data.length R (decodeInnerTransaction L nested parameters chainId) := by
  have hnone : ∀ ps, Adds data.length R (pure ps : EStateM PyError (σ × List (List Bytes))
      (List ParameterDecoded)) := fun ps => (Adds.pure ps).mono (Nat.zero_le _) fun _ hp => hp
  rcases parameters with _ | ⟨safeTo,_ | ⟨second,_ | ⟨safeData,rest⟩⟩⟩
  · exact hnone _
  · exact hnone _
  · exact hnone _
  · refine Adds.lift_bind fun b hb => Adds.ite (fun _ => hnone _) fun _ => ?_
    have hlt : b.length < data.length := hfit _ _ _ _ rfl b hb
    have hcall := (h b hlt (some safeTo.value)).bind fun decoded =>
      Adds.lift (setValueDecoded (safeTo :: second :: safeData :: rest) 2 (.ofCall decoded))
    exact Adds.catchOnly (hcall.mono (by omega) fun _ hp => hp) fun _ => .pure _

theorem oneLevel_adds (hsized : Sized L)
    (h : ∀ d, d.length < data.length → ∀ a, Adds (d.length + 1) R (nested d a chainId))
    (address : Option PyVal) :
    Adds data.length R (oneLevel L multisend (fun d a c => silent (g d a c)) nested data address
      chainId) := by
  apply Adds.ite (fun _ => (Adds.pure _).mono (Nat.zero_le _) fun _ hp => hp)
  intro _
  refine Adds.catchOnly ?_ fun _ => .pure _
  have hdecoded : Adds data.length R (decodeTransactionWithTypesWith L multisend
      (fun d a c => silent (g d a c)) nested data address chainId) := by
    refine (decodeDataWith_adds data address chainId).after_of
      (decodeDataWith_arguments data address chainId) ?_
    rintro raw ⟨fnAbi,hargs⟩
    refine (Adds.ite (fun _ => ?_) fun _ => Adds.ite (fun hexec => ?_) fun _ => ?_).bind
      fun parameters => .pure _
    · exact (decodeMultisendData_adds hsized h).bind fun txs => .lift _
    · exact decodeInnerTransaction_adds (fit_of_arguments hsized hexec hargs) h
    · exact (Adds.pure _).mono (Nat.zero_le _) fun _ hp => hp
  exact hdecoded.bind fun decoded => .pure _

end Bounds

/-- By induction on the stack: a nested call is shorter and leaves room for its own calls. -/
theorem traced_adds (hsized : Sized L) (n : ℕ) (around : List Bytes) (data : Bytes)
    (address : Option PyVal) :
    Adds data.length (Entry around data) (traced L multisend g n around data address chainId) := by
  induction n generalizing around data address with
  | zero => exact (Adds.throw _).mono (Nat.zero_le _) fun _ hp => hp
  | succ n ih =>
    refine oneLevel_adds hsized (fun d hd a => ?_) address
    have hrest := (ih (data :: around) d a).mono (Nat.le_refl _) fun _ hp => hp.mono hd
    rw [Nat.add_comm]
    exact (Adds.record (entry_record hd)).bind fun _ => hrest

end Traces

section Erasure
variable {σ : Type} (L : Externals) (multisend : Dict Bytes Json)
  (g : Bytes → Option PyVal → Option Int → EStateM PyError σ (Option Json))

/-- Without the log it is the decoder. -/
theorem traced_erases (n : ℕ) (around : List Bytes) (data : Bytes) (address : Option PyVal)
    (chainId : Option Int) :
    Erases (traced L multisend g n around data address chainId)
      (getDataDecodedWith L multisend g n data address chainId) := by
  induction n generalizing around data address chainId with
  | zero => exact fun _ => rfl
  | succ n ih =>
    let R := erasesRel PyError σ (List Bytes)
    have hlookup : ∀ d a c, R.Rel (silent (g d a c)) (g d a c) := fun d a c s => erase_silent _ s
    have hnested : ∀ d a c, R.Rel
        (do
          record (d :: data :: around)
          traced L multisend g n (data :: around) d a c)
        (getDataDecodedWith L multisend g n d a c) := fun d a c => (ih _ _ _ _).record
    refine R.ite (R.pure none) (R.catchOnly _ ?_ fun _ => R.pure none)
    refine R.bind ?_ fun decoded => R.pure _
    apply R.bind (decodeDataWith_rel R hlookup data address chainId)
    intro raw
    exact R.bind (decodeParametersData_rel R hnested data _ chainId) fun parameters => R.pure _

end Erasure

section Statement
variable {σ : Type} (L : Externals) (multisend : Dict Bytes Json)
  (g : Bytes → Option PyVal → Option Int → EStateM PyError σ (Option Json))

/-- The nested calls of a run on a stack that holds `n` of them. -/
def nestedCalls (n : ℕ) (data : Bytes) (address : Option PyVal) (chainId : Option Int) (s : σ) :
    List (List Bytes) :=
  (finalState (traced L multisend g n [] data address chainId (s,[]))).2

/-- The recursion ends and is linear: whatever the size of the stack, a nested call has
less data than every call around it, there are at most as many as there are bytes, and
a stack that is deeper than the data is long is never used up. -/
structure EndsLinearly (data : Bytes) (address : Option PyVal) (chainId : Option Int) (s : σ) :
    Prop where
  traces : ∀ n, erase (traced L multisend g n [] data address chainId (s,[])) =
    getDataDecodedWith L multisend g n data address chainId s
  descends : ∀ n, ∀ calls ∈ nestedCalls L multisend g n data address chainId s, Descends calls
  total : ∀ n, (nestedCalls L multisend g n data address chainId s).length ≤ data.length
  ends : ∀ n bottom, data.length < n → levels L multisend g bottom n data address chainId s =
    getDataDecodedWith L multisend g n data address chainId s

variable {L multisend g}

theorem endsLinearly (hsized : Sized L) (data : Bytes) (address : Option PyVal)
    (chainId : Option Int) (s : σ) : EndsLinearly L multisend g data address chainId s := by
  have hcalls : ∀ n, (nestedCalls L multisend g n data address chainId s).length ≤ data.length ∧
      ∀ calls ∈ nestedCalls L multisend g n data address chainId s, Entry [] data calls := by
    intro n
    have hadds : Adds data.length (Entry [] data)
        (traced L multisend g n [] data address chainId) :=
      traced_adds hsized n [] data address
    obtain ⟨l,hfinal,hlen,hentries⟩ := hadds (s,[])
    rw [List.nil_append] at hfinal
    rw [nestedCalls, hfinal]
    exact ⟨hlen,hentries⟩
  refine ⟨fun n => traced_erases L multisend g n [] data address chainId (s,[]),?_,
    fun n => (hcalls n).1,?_⟩
  · intro n calls hmem
    obtain ⟨inner,rfl,hdescends⟩ := (hcalls n).2 calls hmem
    exact hdescends
  · intro n bottom hn
    rw [levels_bottom hsized bottom (fun _ _ _ => throw .recursionError) n data address hn,
      levels_getDataDecodedWith]

end Statement

section Batches
open Reference

theorem fits_decodeValue {params : Bytes} {type : String} {i : ℕ} {v : PyVal}
    (h : decodeValue params type i = .ok v) : Fits params.length v := by
  obtain ⟨_,⟨n,hn,rfl⟩ | ⟨s,rfl,hs⟩ | ⟨b,rfl,hb⟩⟩ := decodeValue_cases h
  · exact hn
  · exact hs.symm
  · exact hb

theorem sized_packages : Sized packages where
  heads := fun _ _ _ h => length_decodeAbi_heads h
  arguments := by
    intro types params values normalized hvalues hnormalized v hv
    have hlength : types.length = values.length := by
      rw [← (mapM_eq_ok_iff.mp hvalues).length_eq, List.length_zipIdx]
    rw [mapAbiData_normalizer hlength] at hnormalized
    cases hnormalized
    obtain ⟨t,_,ht⟩ := (mem_mapM hvalues).mp hv
    exact fits_decodeValue ht
  hexLength := fun _ _ h => length_hexstrToBytes h
  entries := fun _ _ h => fromTransactionData_sum h

def batchCalls : List (List Bytes) :=
  nestedCalls packages batchService.multisendFnSelectorsWithAbis (getAbiFunction packages noRows) 4
    (batchTree.encode codec) none (some 1) batchService

/-- A batch with two entries, and a call that a Safe executes in the first one. -/
theorem endsLinearly_batch :
    EndsLinearly packages batchService.multisendFnSelectorsWithAbis (getAbiFunction packages noRows)
        (batchTree.encode codec) none (some 1) batchService ∧
      batchCalls.map (List.map List.length) = [[516,772],[68,516,772],[0,772]] :=
  ⟨endsLinearly sized_packages _ none (some 1) batchService,by decide +kernel⟩

end Batches
end SafeDecoder.NestedCalls
