import SafeDecoder.Calls.ReferenceCodec

/-! # Nested calls, their encoding and their rendering

A call tree is a call whose arguments hold further calls: the inner transaction
of a Safe, or the entries of a MultiSend batch. Encoding it gives call data, and
decoding that renders the tree again.
-/
namespace SafeDecoder
open Effects

mutual

/-- A nested call that is empty is the empty payload. -/
inductive CallTree where
  | payload (data : Bytes)
  | call (fn : AbiFunction) (selector : Bytes) (args : List PyVal)
  | execTransaction (safeTo : String) (value : PyVal) (inner : CallTree) (rest : List PyVal)
  | multiSend (entries : List EntryTree)

structure EntryTree where
  operation : ℕ
  toAddress : String
  value : ℕ
  call : CallTree

end

def execTransactionAbi : AbiFunction where
  name := .str "execTransaction"
  inputs := [(.str "to","address"), (.str "value","uint256"), (.str "data","bytes"),
    (.str "operation","uint8"), (.str "safeTxGas","uint256"), (.str "baseGas","uint256"),
    (.str "gasPrice","uint256"), (.str "gasToken","address"), (.str "refundReceiver","address"),
    (.str "signatures","bytes")]

def multiSendAbi : AbiFunction where
  name := .str "multiSend"
  inputs := [(.str "transactions","bytes")]

section Encoding
variable {L : Externals} (K : Codec L)

mutual

def CallTree.encode : CallTree → Bytes
  | .payload data => data
  | .call fn selector args => selector ++ K.encode fn.types args
  | .execTransaction safeTo value inner rest =>
    execTransactionSelector ++
      K.encode execTransactionAbi.types (.str safeTo :: value :: .bytes inner.encode :: rest)
  | .multiSend entries => K.multiSendData (encodeEntries entries)

def encodeEntries : List EntryTree → List MultiSendTx
  | [] => []
  | ⟨operation,toAddress,value,call⟩ :: rest =>
    ⟨operation,toAddress,value,call.encode⟩ :: encodeEntries rest

end

/-- The arguments of the call to the Safe. -/
def execTransactionArgs (safeTo : String) (value : PyVal) (inner : CallTree) (rest : List PyVal) :
    List PyVal := .str safeTo :: value :: .bytes (inner.encode K) :: rest

mutual

/-- What the decoder shows: nothing for a payload, and a call inside a parameter
under the key `value_decoded` of that parameter. -/
def CallTree.render : CallTree → Option DataDecoded
  | .payload _ => none
  | .call fn _ args => some ⟨fn.name,fn.parameters args⟩
  | .execTransaction safeTo value inner rest =>
    some ⟨execTransactionAbi.name,
      (execTransactionAbi.parameters (execTransactionArgs K safeTo value inner rest)).modify 2
        fun p => { p with valueDecoded :=
          if (inner.encode K).isEmpty then none else some (.ofCall inner.render) }⟩
  | .multiSend entries =>
    some ⟨multiSendAbi.name,
      (multiSendAbi.parameters [.bytes (K.pack (encodeEntries K entries))]).modify 0
        fun p => { p with valueDecoded := some (.transactions (renderEntries entries)) }⟩

def renderEntries : List EntryTree → List MultisendDecoded
  | [] => []
  | ⟨operation,toAddress,value,call⟩ :: rest =>
    ⟨operation,toAddress,strOfInt value,
      if (call.encode K).isEmpty then none else some (to0xHexStr (call.encode K)),call.render⟩ ::
        renderEntries rest

end

mutual

def CallTree.depth : CallTree → ℕ
  | .payload _ => 0
  | .call _ _ _ => 0
  | .execTransaction _ _ inner _ => inner.depth + 1
  | .multiSend entries => depthEntries entries + 1

def depthEntries : List EntryTree → ℕ
  | [] => 0
  | ⟨_,_,_,call⟩ :: rest => max call.depth (depthEntries rest)

end

end Encoding

section WellFormedness
variable {L : Externals}

/-- Nothing decodes the payload when it is sent to the address. -/
def Opaque (L : Externals) (g : Bytes → Option PyVal → Option Int → Except PyError (Option Json))
    (chainId : Option Int) (address : Option PyVal) (data : Bytes) : Prop :=
  data = [] ∨ g data address chainId = .ok none ∨
    ∃ fnAbi, g data address chainId = .ok (some fnAbi) ∧ fnAbi.truthy ∧
      decodeArguments L fnAbi (data.drop 4) = .error .unexpectedProblemDecoding

/-- Every selector of the tree resolves, at the address its call is sent to, to
the function the tree has there, and the values fit their types. -/
inductive WellFormed (K : Codec L) (multisend : Dict Bytes Json)
    (g : Bytes → Option PyVal → Option Int → Except PyError (Option Json)) (chainId : Option Int) :
    Option PyVal → CallTree → Prop
  | payload {address : Option PyVal} {data : Bytes} (unread : Opaque L g chainId address data) :
      WellFormed K multisend g chainId address (.payload data)
  | call {address : Option PyVal} {fn : AbiFunction} {selector : Bytes} {args : List PyVal}
      {fnAbi : Json} (four : selector.length = 4) (other : selector ≠ execTransactionSelector)
      (single : selector ∉ multisend)
      (resolves : g (selector ++ K.encode fn.types args) address chainId = .ok (some fnAbi))
      (describes : Describes L fnAbi fn) (encodable : K.Encodable fn.types args) :
      WellFormed K multisend g chainId address (.call fn selector args)
  | execTransaction {address : Option PyVal} {safeTo : String} {value : PyVal} {inner : CallTree}
      {rest : List PyVal} {fnAbi : Json}
      (resolves : g (CallTree.encode K (.execTransaction safeTo value inner rest)) address chainId =
        .ok (some fnAbi))
      (describes : Describes L fnAbi execTransactionAbi)
      (encodable : K.Encodable execTransactionAbi.types
        (execTransactionArgs K safeTo value inner rest))
      (nested : WellFormed K multisend g chainId (some (.str safeTo)) inner) :
      WellFormed K multisend g chainId address (.execTransaction safeTo value inner rest)
  | multiSend {address : Option PyVal} {entries : List EntryTree} {fnAbi : Json}
      (resolves : g (CallTree.encode K (.multiSend entries)) address chainId = .ok (some fnAbi))
      (describes : Describes L fnAbi multiSendAbi) (batch : K.IsBatch (encodeEntries K entries))
      (nested : ∀ e ∈ entries,
        WellFormed K multisend g chainId (some (.str e.toAddress)) e.call) :
      WellFormed K multisend g chainId address (.multiSend entries)

end WellFormedness

section Entries
variable {L : Externals} (K : Codec L)

theorem encodeEntries_eq_map (entries : List EntryTree) : encodeEntries K entries =
    entries.map fun e => ⟨e.operation,e.toAddress,e.value,e.call.encode K⟩ := by
  induction entries with
  | nil => rfl
  | cons e rest ih =>
    obtain ⟨operation,toAddress,value,call⟩ := e
    rw [encodeEntries, List.map_cons, ih]

theorem renderEntries_eq_map (entries : List EntryTree) : renderEntries K entries =
    entries.map fun e => ⟨e.operation,e.toAddress,strOfInt e.value,
      if (e.call.encode K).isEmpty then none else some (to0xHexStr (e.call.encode K)),
      e.call.render K⟩ := by
  induction entries with
  | nil => rfl
  | cons e rest ih =>
    obtain ⟨operation,toAddress,value,call⟩ := e
    rw [renderEntries, List.map_cons, ih]

theorem depth_le_of_mem {entries : List EntryTree} {e : EntryTree} (h : e ∈ entries) :
    e.call.depth ≤ depthEntries entries := by
  induction entries with
  | nil => cases h
  | cons first rest ih =>
    obtain ⟨operation,toAddress,value,call⟩ := first
    rw [depthEntries]
    rcases List.mem_cons.mp h with rfl | hrest
    · exact le_max_left _ _
    · exact (ih hrest).trans (le_max_right _ _)

end Entries

section Decoding
variable {L : Externals} {K : Codec L} {multisend : Dict Bytes Json}
  {g : Bytes → Option PyVal → Option Int → Except PyError (Option Json)} {chainId : Option Int}

theorem setValueDecoded_eq_modify {ps : List ParameterDecoded} {i : ℕ} (h : i < ps.length)
    (v : ValueDecoded) :
    setValueDecoded ps i v = .ok (ps.modify i fun p => { p with valueDecoded := some v }) := by
  rw [setValueDecoded, List.getElem?_eq_getElem h]
  simp only [List.modify_eq_set_get _ h]
  rfl

theorem getDataDecodedWith_unread {address : Option PyVal} {data : Bytes}
    (h : Opaque L g chainId address data) (n : ℕ) :
    getDataDecodedWith L multisend g (n+1) data address chainId = .ok none := by
  rw [getDataDecodedWith]
  split
  · rfl
  · rename_i hne
    have hraise : ∃ e, e.isDataDecoderException = true ∧
        decodeDataWith L g data address chainId = .error e := by
      rw [decodeDataWith, if_neg hne]
      rcases h with rfl | hnone | ⟨fnAbi,hf,ht,hargs⟩
      · exact absurd rfl hne
      · exact ⟨.cannotDecode,rfl,by rw [hnone]; rfl⟩
      · refine ⟨.unexpectedProblemDecoding,rfl,?_⟩
        rw [hf, ok_bind, Option.filter_some, if_pos ht]
        simp only [fromExcept_eq, hargs, error_bind]
    obtain ⟨e,he,hd⟩ := hraise
    rw [decodeTransactionWithTypesWith, hd, error_bind, error_bind, catchOnly_error, if_pos he]
    rfl

/-- Call data of a function that is described, once its parameters are decoded further. -/
theorem getDataDecodedWith_described {address : Option PyVal} {fn : AbiFunction} {selector : Bytes}
    {args : List PyVal} {fnAbi : Json} {ps : List ParameterDecoded} {n : ℕ}
    (hlen : selector.length = 4)
    (hf : g (selector ++ K.encode fn.types args) address chainId = .ok (some fnAbi))
    (hd : Describes L fnAbi fn) (ha : K.Encodable fn.types args)
    (hps : decodeParametersData L multisend (getDataDecodedWith L multisend g n)
      (selector ++ K.encode fn.types args) (fn.parameters args) chainId = .ok ps) :
    getDataDecodedWith L multisend g (n+1) (selector ++ K.encode fn.types args) address chainId =
      .ok (some ⟨fn.name,ps⟩) := by
  obtain ⟨arguments,harguments,hparameters⟩ := hd.decodeArguments K ha
  have hne : (selector ++ K.encode fn.types args).isEmpty = false := by
    cases selector with
    | nil => cases hlen
    | cons x rest => rfl
  have hraw : decodeDataWith L g (selector ++ K.encode fn.types args) address chainId =
      .ok (fn.name,arguments) := by
    refine decodeDataWith_eq_ok_iff.mpr ⟨hne,fnAbi,hf,hd.truthy,?_,hd.name⟩
    rwa [drop_selector hlen]
  refine getDataDecodedWith_eq_some_iff.mpr ⟨hne,?_⟩
  rw [decodeTransactionWithTypesWith, hraw, ok_bind, hparameters, hps]
  rfl

/-- The inner transaction of a Safe is decoded at its own address. -/
theorem decodeInnerTransaction_encoded
    {nested : Bytes → Option PyVal → Option Int → Except PyError (Option DataDecoded)}
    {safeTo : String} {value : PyVal} {inner : CallTree} {rest : List PyVal}
    {r : Option DataDecoded} (h : nested (inner.encode K) (some (.str safeTo)) chainId = .ok r) :
    decodeInnerTransaction L nested
        (execTransactionAbi.parameters (execTransactionArgs K safeTo value inner rest)) chainId =
      .ok ((execTransactionAbi.parameters (execTransactionArgs K safeTo value inner rest)).modify 2
        fun p => { p with valueDecoded :=
          if (inner.encode K).isEmpty then none else some (.ofCall r) }) := by
  have hhex : L.hexBytes (parseDecodedArguments (.bytes (inner.encode K))) =
      .ok (inner.encode K) := K.hexstrToBytes_text _
  apply (decodeInnerTransaction_of_bytes hhex chainId).trans
  cases he : (inner.encode K).isEmpty with
  | true => rfl
  | false =>
    change catchOnly PyError.isDataDecoderException (do
      let decoded ← nested (inner.encode K) (some (.str safeTo)) chainId
      setValueDecoded _ 2 (.ofCall decoded)) _ = _
    rw [h, ok_bind, setValueDecoded_eq_modify (by simp)]
    rfl

/-- Every entry of a batch is decoded at its own address, in order. -/
theorem decodeMultisendData_encoded
    {nested : Bytes → Option PyVal → Option Int → Except PyError (Option DataDecoded)}
    {entries : List EntryTree} (hbatch : K.IsBatch (encodeEntries K entries))
    (h : ∀ e ∈ entries, nested (e.call.encode K) (some (.str e.toAddress)) chainId =
      .ok (e.call.render K)) :
    decodeMultisendData L nested (K.multiSendData (encodeEntries K entries)) chainId =
      .ok (some (renderEntries K entries)) := by
  have hentries : (encodeEntries K entries).mapM (decodeMultisendTx nested chainId) =
      .ok (renderEntries K entries) := by
    rw [encodeEntries_eq_map, renderEntries_eq_map, mapM_eq_ok_iff, List.forall₂_map_left_iff,
      List.forall₂_map_right_iff, List.forall₂_same]
    intro e he
    rw [decodeMultisendTx, h e he]
    rfl
  rw [decodeMultisendData, K.fromTransactionData_multiSendData hbatch, fromExcept_eq, ok_bind,
    hentries]
  rfl

variable (hmulti : K.multiSendSelector ∈ multisend) (hexec : execTransactionSelector ∉ multisend)
include hmulti hexec

/-- With a stack deeper than the tree, decoding its call data renders the tree. -/
theorem getDataDecodedWith_encode {address : Option PyVal} {tree : CallTree}
    (wf : WellFormed K multisend g chainId address tree) {n : ℕ} (deep : tree.depth < n) :
    getDataDecodedWith L multisend g n (tree.encode K) address chainId = .ok (tree.render K) := by
  induction wf generalizing n with
  | payload hopaque =>
    obtain ⟨n,rfl⟩ := Nat.exists_eq_succ_of_ne_zero (Nat.ne_of_gt deep)
    exact getDataDecodedWith_unread hopaque n
  | @call address fn selector args fnAbi hlen hother hsingle hf hd ha =>
    obtain ⟨n,rfl⟩ := Nat.exists_eq_succ_of_ne_zero (Nat.ne_of_gt deep)
    apply getDataDecodedWith_described hlen hf hd ha
    rw [decodeParametersData, selectorOf_append hlen, if_neg hsingle, if_neg hother]
    rfl
  | @execTransaction address safeTo value inner rest fnAbi hf hd ha hn ih =>
    rw [CallTree.depth] at deep
    obtain ⟨n,rfl⟩ := Nat.exists_eq_succ_of_ne_zero (by omega : n ≠ 0)
    apply getDataDecodedWith_described rfl hf hd ha
    have hinner := ih (n := n) (by omega)
    rw [decodeParametersData, selectorOf_append rfl, if_neg hexec, if_pos rfl]
    exact decodeInnerTransaction_encoded hinner
  | @multiSend address entries fnAbi hf hd hbatch hn ih =>
    rw [CallTree.depth] at deep
    obtain ⟨n,rfl⟩ := Nat.exists_eq_succ_of_ne_zero (by omega : n ≠ 0)
    apply getDataDecodedWith_described K.length_multiSendSelector hf hd hbatch.2
    have hentries : ∀ e ∈ entries, getDataDecodedWith L multisend g n (e.call.encode K)
        (some (.str e.toAddress)) chainId = .ok (e.call.render K) := by
      intro e he
      have hdepth := depth_le_of_mem he
      exact ih e he (by omega)
    rw [decodeParametersData, selectorOf_append K.length_multiSendSelector, if_pos hmulti]
    change (do
      let txs ← decodeMultisendData L (getDataDecodedWith L multisend g n)
        (K.multiSendData (encodeEntries K entries)) chainId
      fromExcept (setValueDecoded (multiSendAbi.parameters
        [.bytes (K.pack (encodeEntries K entries))]) 0 (.ofTransactions txs))) = _
    rw [decodeMultisendData_encoded hbatch hentries]
    rfl

end Decoding

section Service
variable {L : Externals} {C : Caches} {db : Db}

/-- In every state with current caches, `get_data_decoded` of the call data of a
tree renders that tree, each call resolved at its own address on the given chain. The
stack has to be deeper than the tree: CPython has room for about 330 nested calls. -/
theorem getDataDecoded_encode (K : Codec L) {s : Service C} (current : s.Coherent L db fun _ => True)
    (hmulti : K.multiSendSelector ∈ s.multisendFnSelectorsWithAbis)
    (hexec : execTransactionSelector ∉ s.multisendFnSelectorsWithAbis) {address : Option PyVal}
    {chainId : Option Int} {tree : CallTree}
    (wf : WellFormed K s.multisendFnSelectorsWithAbis (resolve L db s.fnSelectorsWithAbis) chainId
      address tree) {n : ℕ} (deep : tree.depth < n) :
    ∃ t, getDataDecoded L db n (tree.encode K) address chainId s = .ok (tree.render K) t := by
  have hagrees : Agrees True (Service.Steady L db (fun _ => True) s)
      (getDataDecoded L db n (tree.encode K) address chainId) (.ok (tree.render K)) := by
    rw [← getDataDecodedWith_encode hmulti hexec wf deep]
    exact getDataDecoded_agrees (fun _ _ => trivial) n _ address chainId
  obtain ⟨t,_,ht⟩ := hagrees.ok trivial current.steady
  exact ⟨t,ht⟩

end Service

section Batches
open Reference SelectorIndex

def approveAbi : AbiFunction := ⟨.str "approve",[(.str "spender","address"), (.str "value","uint256")]⟩

/-- The address written with one digit, twice for each of its bytes. -/
def digits (x : UInt8) : String := to0xHexStr (List.replicate 20 x)

def approveCall : CallTree := .call approveAbi [0x09, 0x5e, 0xa7, 0xb3] [.str (digits 0x33), .int 7]

def safeArgs : List PyVal :=
  [.int 0, .int 0, .int 0, .int 0, .str (digits 0x44), .str (digits 0x44), .bytes [1]]

/-- A batch whose first entry is an approval that a Safe executes, and whose second is empty. -/
def batchTree : CallTree :=
  .multiSend [⟨0,digits 0x11,0,.execTransaction (digits 0x22) (.int 5) approveCall safeArgs⟩,
    ⟨1,digits 0x22,3,.payload []⟩]

/-- A service that knows the three functions, and no contract. -/
def batchService : Service Caches.leastRecentlyUsed :=
  Service.fresh (Dict.mergeLast (selectors packages) ∅
      [.arr [multiSendFunction, execTransactionFunction, approveErc20]])
    (Dict.mergeLast (selectors packages) ∅ [packages.multiSendAbi]) none

def noRows : Db := ⟨[],[],[],List.nodup_nil,contractKeys_nil⟩

theorem wellFormed_batch : WellFormed codec batchService.multisendFnSelectorsWithAbis
    (resolve packages noRows batchService.fnSelectorsWithAbis) (some 1) none batchTree := by
  have hword : ∀ {n : ℕ}, n < 256 → FitsType "uint256" (.int n) := fun h =>
    .uint256 (h.trans (by decide))
  have haddress : ∀ x, FitsType "address" (.str (digits x)) := fun x =>
    .address List.length_replicate
  have happrove : WellFormed codec batchService.multisendFnSelectorsWithAbis
      (resolve packages noRows batchService.fnSelectorsWithAbis) (some 1)
      (some (.str (digits 0x22))) approveCall := by
    have hresolve : resolve packages noRows batchService.fnSelectorsWithAbis
        (approveCall.encode codec) (some (.str (digits 0x22))) (some 1) =
          .ok (some approveErc20) := rfl
    refine .call rfl (by decide) (by decide) hresolve ⟨rfl,rfl,rfl,rfl⟩ ⟨?_,by decide +kernel⟩
    exact .cons (haddress 0x33) (.cons (hword (by decide : 7 < 256)) .nil)
  have hexec : WellFormed codec batchService.multisendFnSelectorsWithAbis
      (resolve packages noRows batchService.fnSelectorsWithAbis) (some 1)
      (some (.str (digits 0x11)))
      (.execTransaction (digits 0x22) (.int 5) approveCall safeArgs) := by
    have hresolve : resolve packages noRows batchService.fnSelectorsWithAbis
        ((CallTree.execTransaction (digits 0x22) (.int 5) approveCall safeArgs).encode codec)
        (some (.str (digits 0x11))) (some 1) = .ok (some execTransactionFunction) := rfl
    refine .execTransaction hresolve ⟨rfl,rfl,rfl,rfl⟩ ⟨?_,by decide +kernel⟩ happrove
    have hzero : FitsType "uint256" (.int 0) := hword (by decide : 0 < 256)
    have hrest : List.Forall₂ FitsType ["uint256", "uint256", "uint256", "address", "address", "bytes"]
        [.int 0, .int 0, .int 0, .str (digits 0x44), .str (digits 0x44), .bytes [1]] :=
      .cons hzero (.cons hzero (.cons hzero
        (.cons (haddress 0x44) (.cons (haddress 0x44) (.cons (.bytes [1]) .nil)))))
    exact .cons (haddress 0x22) (.cons (hword (by decide : 5 < 256)) (.cons (.bytes _)
      (.cons (.uint8 (by decide : 0 < 256)) hrest)))
  have hresolve : resolve packages noRows batchService.fnSelectorsWithAbis
      (batchTree.encode codec) none (some 1) = .ok (some multiSendFunction) := rfl
  refine .multiSend hresolve ⟨rfl,rfl,rfl,rfl⟩
    ⟨?_,.cons (.bytes _) .nil,by decide +kernel⟩ ?_
  · intro tx htx
    rcases List.mem_pair.mp htx with rfl | rfl
    · exact ⟨by decide,⟨_,List.length_replicate,rfl⟩,by decide,by decide +kernel⟩
    · exact ⟨by decide,⟨_,List.length_replicate,rfl⟩,by decide,by decide⟩
  · intro e he
    rcases List.mem_pair.mp he with rfl | rfl
    · exact hexec
    · exact .payload (Or.inl rfl)

theorem getDataDecoded_encode_batch :
    ∃ t, getDataDecoded packages noRows 3 (batchTree.encode codec) none (some 1) batchService =
      .ok (batchTree.render codec) t :=
  getDataDecoded_encode codec (Service.fresh_coherent _ _ _) (by decide) (by decide)
    wellFormed_batch (by decide)

end Batches
end SafeDecoder
