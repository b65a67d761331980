import SafeDecoder.Data.Externals

/-! # A small executable version of the packages

`Reference.packages` computes on words, addresses, byte strings and texts what
the packages compute on them, so runs of the decoder can be evaluated. Selectors
come from a table of the signatures used, and addresses are kept to those
written with decimal digits, where the checksum changes no letter.
-/
namespace SafeDecoder.Reference

section Functions

def inputs (fnAbi : Json) : Except PyError (List Json) :=
  match fnAbi with
  | .obj fields =>
    match fields.lookup "inputs" with
    | some (.arr args) => .ok args
    | some _ => .error .typeError
    | none => .ok []
  | _ => .error .typeError

def inputName : Json → Json
  | .obj fields => (fields.lookup "name").getD .null
  | _ => .null

def inputType (arg : Json) : Except PyError String := do
  match ← arg.getItem "type" with
  | .str type => return type
  | _ => throw .typeError

def inputTypes (fnAbi : Json) : Except PyError (List String) := do
  (← inputs fnAbi).mapM inputType

/-- `abi.get("name", abi["type"])` -/
def nameOrType : Json → Except PyError Json
  | .obj fields => .ok ((fields.lookup "name").getD ((fields.lookup "type").getD .null))
  | _ => .error .typeError

/-- `name(type,…)` -/
def signature (fnAbi : Json) : Except PyError String := do
  match ← nameOrType fnAbi with
  | .str name => return name ++ "(" ++ ",".intercalate (← inputTypes fnAbi) ++ ")"
  | _ => throw .typeError

def selectorTable : List (String × Bytes) :=
  [("multiSend(bytes)",[0x8d, 0x80, 0xff, 0x0a]),
   ("fiuYBs10()",[0x8d, 0x80, 0xff, 0x0a]),
   ("execTransaction(address,uint256,bytes,uint8,uint256,uint256,uint256,address,address,bytes)",
     [0x6a, 0x76, 0x12, 0x02]),
   ("eVWVAl00(address,uint256,string)",[0x6a, 0x76, 0x12, 0x02]),
   ("approve(address,uint256)",[0x09, 0x5e, 0xa7, 0xb3]),
   ("transfer(address,uint256)",[0xa9, 0x05, 0x9c, 0xbb]),
   ("function()",[0x9d, 0x96, 0xe2, 0xdf]),
   ("pause()",[0x84, 0x56, 0xcb, 0x59]),
   ("unpause()",[0x3f, 0x4b, 0xa8, 0x3a])]

def selector (fnAbi : Json) : Except PyError Bytes := do
  match selectorTable.lookup (← signature fnAbi) with
  | some b => return b
  | none => throw .valueError

end Functions

section Words

def bytesToNat (b : Bytes) : ℕ := b.foldl (fun n x => n * 256 + x.toNat) 0

/-- The last `size` base-256 digits, most significant first. -/
def natToBytes : ℕ → ℕ → Bytes
  | 0, _ => []
  | size+1, n => natToBytes size (n / 256) ++ [UInt8.ofNat (n % 256)]

def word (n : ℕ) : Bytes := natToBytes 32 n

def pad (b : Bytes) : Bytes := b ++ List.replicate ((32 - b.length % 32) % 32) 0

def hexValue (c : Char) : Option ℕ :=
  if '0' ≤ c ∧ c ≤ '9' then some (c.toNat - '0'.toNat)
  else if 'a' ≤ c ∧ c ≤ 'f' then some (c.toNat - 'a'.toNat + 10)
  else if 'A' ≤ c ∧ c ≤ 'F' then some (c.toNat - 'A'.toNat + 10)
  else none

def unhexlify : List Char → Except PyError Bytes
  | [] => .ok []
  | [_] => .error .valueError
  | a :: b :: rest =>
    match hexValue a, hexValue b with
    | some x, some y => do
      let tail ← unhexlify rest
      return UInt8.ofNat (16 * x + y) :: tail
    | _, _ => .error .valueError

/-- `hexstr_to_bytes`: the prefix is optional and an odd text is padded on the left. -/
def hexstrToBytes (s : String) : Except PyError Bytes :=
  let digits := match s.toList with
    | '0' :: 'x' :: rest | '0' :: 'X' :: rest => rest
    | all => all
  unhexlify (if digits.length % 2 = 1 then '0' :: digits else digits)

theorem hexValue_hexDigit : ∀ n < 16, hexValue (hexDigit n) = some n := by decide

theorem unhexlify_digits (b : Bytes) : unhexlify (b.flatMap hexDigits) = .ok b := by
  induction b with
  | nil => rfl
  | cons x b ih =>
    have hlt : x.toNat < 256 := x.toNat_lt
    have hhigh := hexValue_hexDigit (x.toNat / 16) (by omega)
    have hlow := hexValue_hexDigit (x.toNat % 16) (by omega)
    have hbyte : UInt8.ofNat (16 * (x.toNat / 16) + x.toNat % 16) = x := by
      rw [Nat.div_add_mod, UInt8.ofNat_toNat]
    rw [List.flatMap_cons, hexDigits, List.cons_append, List.cons_append, List.nil_append, unhexlify,
      hhigh, hlow, ih]
    change Except.ok (UInt8.ofNat (16 * (x.toNat / 16) + x.toNat % 16) :: b) = _
    rw [hbyte]

/-- Reading back the text of a byte string. -/
theorem hexstrToBytes_to0xHexStr (b : Bytes) : hexstrToBytes (to0xHexStr b) = .ok b := by
  have heven : (b.flatMap hexDigits).length % 2 = 0 := by
    rw [length_flatMap_hexDigits]
    omega
  rw [hexstrToBytes, toList_to0xHexStr]
  simp only [heven]
  exact unhexlify_digits b

def intToBytes (n : Int) : Except PyError Bytes :=
  if n < 0 then .error .valueError else .ok (natToBytes (n.toNat.log2 / 8 + 1) n.toNat)

end Words

section Decoding

def takeExact (n : ℕ) (b : Bytes) : Except PyError Bytes :=
  if n ≤ b.length then .ok (b.take n) else .error .decodingError

/-- A length word and the padded bytes after it. -/
def decodeTail (stream : Bytes) : Except PyError Bytes := do
  let length := bytesToNat (← takeExact 32 stream)
  let padded ← takeExact ((length + 31) / 32 * 32) (stream.drop 32)
  if (padded.drop length).all (· == 0) then return padded.take length
  else throw .decodingError

def decodeText (b : Bytes) : Except PyError String :=
  if b.all (· < 128) then .ok (String.ofList (b.map fun x => Char.ofNat x.toNat))
  else .error .valueError

def decodeValue (params : Bytes) (type : String) (i : ℕ) : Except PyError PyVal := do
  let head ← takeExact 32 (params.drop (32 * i))
  if type = "uint256" then return .int (bytesToNat head)
  else if type = "uint8" then
    if bytesToNat head < 256 then return .int (bytesToNat head) else throw .decodingError
  else if type = "address" then
    if (head.take 12).all (· == 0) then return .str (to0xHexStr (head.drop 12))
    else throw .decodingError
  else if type = "bytes" then return .bytes (← decodeTail (params.drop (bytesToNat head)))
  else if type = "string" then
    return .str (← decodeText (← decodeTail (params.drop (bytesToNat head))))
  else throw .valueError

/-- `eth_abi.decode` -/
def decodeAbi (types : List String) (params : Bytes) : Except PyError (List PyVal) :=
  types.zipIdx.mapM fun t => decodeValue params t.1 t.2

/-- Encoded heads, then tails: `offset` is where the next tail starts. -/
def encodeParts : ℕ → List PyVal → Bytes × Bytes
  | _, [] => ([],[])
  | offset, value :: rest =>
    match value with
    | .int n =>
      let parts := encodeParts offset rest
      (word n.toNat ++ parts.1,parts.2)
    | .str s =>
      let parts := encodeParts offset rest
      (List.replicate 12 0 ++ (hexstrToBytes s).toOption.getD [] ++ parts.1,parts.2)
    | .bytes b =>
      let tail := word b.length ++ pad b
      let parts := encodeParts (offset + tail.length) rest
      (word offset ++ parts.1,tail ++ parts.2)
    | _ => encodeParts offset rest

/-- `eth_abi.encode` for integers, addresses and byte strings -/
def encodeAbi (args : List PyVal) : Bytes :=
  let parts := encodeParts (32 * args.length) args
  parts.1 ++ parts.2

end Decoding

section Batches

/-- The packed form of one entry: operation, address, value, length and data. -/
def packTx (tx : MultiSendTx) : Bytes :=
  natToBytes 1 tx.operation ++ (hexstrToBytes tx.toAddress).toOption.getD [] ++ word tx.value ++
    word tx.data.length ++ tx.data

/-- Unpack at most `n` entries. -/
def unpackTxs : ℕ → Bytes → Except PyError (List MultiSendTx)
  | _, [] => .ok []
  | 0, _ => .error .valueError
  | n+1, b => do
    let operation := bytesToNat (b.take 1)
    let toAddress := to0xHexStr ((b.drop 1).take 20)
    let value := bytesToNat ((b.drop 21).take 32)
    let length := bytesToNat ((b.drop 53).take 32)
    if b.length < 85 + length ∨ 1 < operation then throw .valueError
    else
      let rest ← unpackTxs n (b.drop (85 + length))
      return ⟨operation,toAddress,value,(b.drop 85).take length⟩ :: rest

/-- `MultiSend.from_transaction_data`: a `ValueError` gives no entries, and other
exceptions of `eth_abi` are not caught. -/
def fromTransactionData (data : Bytes) : Except PyError (List MultiSendTx) :=
  if selectorOf data = [0x8d, 0x80, 0xff, 0x0a] then
    match decodeAbi ["bytes"] (data.drop 4) with
    | .ok [.bytes packed] =>
      match unpackTxs packed.length packed with
      | .ok txs => .ok txs
      | .error _ => .ok []
    | .ok _ => .ok []
    | .error e => if e.isValueError then .ok [] else .error e
  else .ok []

/-- Entries come from a packed batch. -/
theorem fromTransactionData_cases {data : Bytes} {txs : List MultiSendTx}
    (h : fromTransactionData data = .ok txs) : txs = [] ∨ ∃ packed,
      decodeAbi ["bytes"] (data.drop 4) = .ok [.bytes packed] ∧
        unpackTxs packed.length packed = .ok txs := by
  unfold fromTransactionData at h
  split at h
  · split at h
    · rename_i packed hpacked
      split at h
      · rename_i txs' hunpack
        cases h
        exact .inr ⟨packed,hpacked,hunpack⟩
      · cases h
        exact .inl rfl
    · cases h
      exact .inl rfl
    · split at h
      · cases h
        exact .inl rfl
      · cases h
  · cases h
    exact .inl rfl

/-- Only what `eth_abi` refuses makes the reading of a batch raise. -/
theorem fromTransactionData_error {data : Bytes} {e : PyError} (h : fromTransactionData data = .error e) :
    e.isValueError = false ∧ decodeAbi ["bytes"] (data.drop 4) = .error e := by
  unfold fromTransactionData at h
  split at h
  · split at h
    · split at h
      · cases h
      · cases h
    · cases h
    · rename_i e' hrefused
      split at h
      · cases h
      · rename_i hvalue
        cases h
        exact ⟨Bool.eq_false_iff.mpr hvalue,hrefused⟩
  · cases h

end Batches

section Documents

def arg (name type : String) : Json := .obj [("name",.str name), ("type",.str type)]

def function (name : String) (args : List Json) : Json :=
  .obj [("type",.str "function"), ("name",.str name), ("inputs",.arr args)]

def multiSendFunction : Json := function "multiSend" [arg "transactions" "bytes"]

def execTransactionFunction : Json :=
  function "execTransaction"
    [arg "to" "address", arg "value" "uint256", arg "data" "bytes", arg "operation" "uint8",
      arg "safeTxGas" "uint256", arg "baseGas" "uint256", arg "gasPrice" "uint256",
      arg "gasToken" "address", arg "refundReceiver" "address", arg "signatures" "bytes"]

/-- The same selector under the argument names of two token standards. -/
def approveErc20 : Json := function "approve" [arg "spender" "address", arg "value" "uint256"]
def approveErc721 : Json := function "approve" [arg "to" "address", arg "tokenId" "uint256"]

theorem approveErc721_ne : approveErc721 ≠ approveErc20 := by
  intro h
  simp [approveErc721, approveErc20, function, arg] at h

def transferFunction : Json := function "transfer" [arg "to" "address", arg "value" "uint256"]

def pauseFunction : Json := function "pause" []
def unpauseFunction : Json := function "unpause" []

end Documents

def packages : Externals where
  functionAbiTo4byteSelector := selector
  getAbiInputNames fnAbi := (List.map inputName) <$> inputs fnAbi
  getAbiInputTypes := inputTypes
  decodeAbi := decodeAbi
  mapAbiData normalizer types values :=
    (types.zip values).mapM fun t => Prod.snd <$> normalizer t.1 t.2
  fastToChecksumAddress := fun value => .ok value
  fromTransactionData := fromTransactionData
  hexstrToBytes := hexstrToBytes
  intToBytes := intToBytes
  multiSendAbi := .arr [multiSendFunction]

@[simp] theorem packages_fromTransactionData (data : Bytes) :
    packages.fromTransactionData data = fromTransactionData data := rfl

@[simp] theorem packages_hexstrToBytes (b : Bytes) :
    packages.hexstrToBytes (to0xHexStr b) = .ok b := hexstrToBytes_to0xHexStr b

end SafeDecoder.Reference
