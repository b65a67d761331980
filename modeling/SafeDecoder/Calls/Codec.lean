import SafeDecoder.Decoder.CallData

/-! # Encoders that the decoding packages invert

A codec is a choice of encoders together with what the documentation of the
decoding packages says about them: `eth_abi` reads back what it wrote, up to the
case of addresses, and `MultiSend` unpacks what was packed.
-/
namespace SafeDecoder
open Effects

/-- `eth_abi.encode` and the packing of `MultiSend`, on the values that they accept. -/
structure Codec (L : Externals) where
  encode : List String → List PyVal → Bytes
  Encodable : List String → List PyVal → Prop
  length_eq : ∀ {types args}, Encodable types args → args.length = types.length
  /-- The checksum normalizer restores the addresses, which `eth_abi` returns in lower case. -/
  decode_encode : ∀ {types args}, Encodable types args → ∃ decoded,
    L.decodeAbi types (encode types args) = .ok decoded ∧
      L.mapAbiData (addressesChecksummedNormalizer L) types decoded = .ok args
  hexstrToBytes_text : ∀ b, L.hexstrToBytes (to0xHexStr b) = .ok b
  multiSendSelector : Bytes
  length_multiSendSelector : multiSendSelector.length = 4
  pack : List MultiSendTx → Bytes
  Packable : List MultiSendTx → Prop
  fromTransactionData_pack : ∀ {txs}, Packable txs → Encodable ["bytes"] [.bytes (pack txs)] →
    L.fromTransactionData (multiSendSelector ++ encode ["bytes"] [.bytes (pack txs)]) = .ok txs

namespace Codec
variable {L : Externals} (K : Codec L)

/-- The call data of `multiSend(pack(txs))`. -/
def multiSendData (txs : List MultiSendTx) : Bytes :=
  K.multiSendSelector ++ K.encode ["bytes"] [.bytes (K.pack txs)]

/-- The batch fits the packed format and the `bytes` argument. -/
def IsBatch (txs : List MultiSendTx) : Prop :=
  K.Packable txs ∧ K.Encodable ["bytes"] [.bytes (K.pack txs)]

theorem fromTransactionData_multiSendData {txs : List MultiSendTx} (h : K.IsBatch txs) :
    L.fromTransactionData (K.multiSendData txs) = .ok txs :=
  K.fromTransactionData_pack h.1 h.2

theorem selectorOf_multiSendData (txs : List MultiSendTx) :
    selectorOf (K.multiSendData txs) = K.multiSendSelector :=
  selectorOf_append K.length_multiSendSelector

theorem multiSendData_ne_nil (txs : List MultiSendTx) : (K.multiSendData txs).isEmpty = false := by
  have hlen := K.length_multiSendSelector
  rw [multiSendData]
  cases hsel : K.multiSendSelector with
  | nil =>
    rw [hsel] at hlen
    cases hlen
  | cons x rest => rfl

end Codec

/-- A function of an ABI as the decoder reads it: its name, and the name and type
of each input. -/
structure AbiFunction where
  name : Json
  inputs : List (Json × String)

def AbiFunction.types (fn : AbiFunction) : List String := fn.inputs.map Prod.snd

/-- The parameters that a call with these arguments shows. -/
def AbiFunction.parameters (fn : AbiFunction) (args : List PyVal) : List ParameterDecoded :=
  List.zipWith (fun input value => ⟨input.1,input.2,parseDecodedArguments value,none⟩) fn.inputs args

/-- The entry of an ABI describes the function. -/
structure Describes (L : Externals) (fnAbi : Json) (fn : AbiFunction) : Prop where
  truthy : fnAbi.truthy
  name : fnAbi.getItem "name" = .ok fn.name
  inputNames : L.getAbiInputNames fnAbi = .ok (fn.inputs.map Prod.fst)
  inputTypes : L.getAbiInputTypes fnAbi = .ok fn.types

variable {L : Externals} {fnAbi : Json} {fn : AbiFunction} {args : List PyVal}

theorem map_ofArgument_zip (inputs : List (Json × String)) (args : List PyVal) :
    ((inputs.map Prod.fst).zip ((inputs.map Prod.snd).zip (args.map parseDecodedArguments))).map
        ParameterDecoded.ofArgument =
      List.zipWith (fun input value => ⟨input.1,input.2,parseDecodedArguments value,none⟩) inputs
        args := by
  induction inputs generalizing args with
  | nil => rfl
  | cons input inputs ih =>
    cases args with
    | nil => rfl
    | cons value args =>
      have htail := ih args
      simp only [List.map_cons, List.zip_cons_cons, List.zipWith_cons_cons, htail]
      rfl

/-- Encoded arguments are read back as the parameters of the call. -/
theorem Describes.decodeArguments (h : Describes L fnAbi fn) (K : Codec L)
    (hargs : K.Encodable fn.types args) : ∃ arguments,
      decodeArguments L fnAbi (K.encode fn.types args) = .ok arguments ∧
        arguments.map ParameterDecoded.ofArgument = fn.parameters args := by
  obtain ⟨decoded,hdecoded,hnormalized⟩ := K.decode_encode hargs
  refine ⟨_,?_,map_ofArgument_zip fn.inputs args⟩
  rw [SafeDecoder.decodeArguments, h.inputNames, ok_bind, h.inputTypes, ok_bind, hdecoded, ok_bind,
    hnormalized, ok_bind]
  rfl

end SafeDecoder
