import SafeDecoder.Data.Json

/-! # The packages the decoder is built on

Every function of another package that the decoder calls is a field of
`Externals`. Nothing is assumed of them here: a result that relies on documented
behaviour states it as a hypothesis.
-/
namespace SafeDecoder

/-- An entry of a MultiSend batch. -/
structure MultiSendTx where
  operation : ℕ
  toAddress : String
  value : ℕ
  data : Bytes

structure Externals where
  /-- `eth_utils.function_abi_to_4byte_selector` -/
  functionAbiTo4byteSelector : Json → Except PyError Bytes
  /-- `get_abi_input_names` and `get_abi_input_types` of web3 -/
  getAbiInputNames : Json → Except PyError (List Json)
  getAbiInputTypes : Json → Except PyError (List String)
  /-- `eth_abi.decode` -/
  decodeAbi : List String → Bytes → Except PyError (List PyVal)
  /-- `map_abi_data` of web3 with one normalizer -/
  mapAbiData : (String → PyVal → Except PyError (String × PyVal)) → List String → List PyVal →
    Except PyError (List PyVal)
  /-- `safe_eth.eth.utils.fast_to_checksum_address` -/
  fastToChecksumAddress : PyVal → Except PyError PyVal
  /-- `MultiSend.from_transaction_data` -/
  fromTransactionData : Bytes → Except PyError (List MultiSendTx)
  /-- `HexBytes` on a text and on an integer -/
  hexstrToBytes : String → Except PyError Bytes
  intToBytes : Int → Except PyError Bytes
  /-- `get_multi_send_contract(w3).abi` -/
  multiSendAbi : Json

/-- An address argument that the per-contract caches can use as a key. -/
inductive AddressKey
  | bytes (b : Bytes)
  | str (s : String)
  deriving DecidableEq, Repr

namespace Externals
variable (L : Externals)

/-- `HexBytes(value)` -/
def hexBytes : PyVal → Except PyError Bytes
  | .bytes b => .ok b
  | .str s => L.hexstrToBytes s
  | .int n => L.intToBytes n
  | .bool b => .ok [if b then 1 else 0]
  | _ => .error .typeError

/-- A list cannot be hashed for a cache key and `HexBytes` refuses the other
values that are no text: both raise `TypeError`. -/
def addressKey : PyVal → Except PyError AddressKey
  | .bytes b => .ok (.bytes b)
  | .str s => .ok (.str s)
  | _ => .error .typeError

/-- `HexBytes(address)` -/
def addressBytes : AddressKey → Except PyError Bytes
  | .bytes b => .ok b
  | .str s => L.hexstrToBytes s

end Externals
end SafeDecoder
