import SafeDecoder.Calls.Codec
import SafeDecoder.Data.ReferencePackages

/-! # The executable packages have a codec

`unpackTxs` reads back every batch whose fields fit their widths, and `decodeAbi`
every list of words, addresses and byte strings that fit theirs.
-/
namespace SafeDecoder.Reference
open Effects

section Words

@[simp] theorem length_natToBytes (size n : ℕ) : (natToBytes size n).length = size := by
  induction size generalizing n with
  | zero => rfl
  | succ size ih => simp [natToBytes, ih]

theorem bytesToNat_append (b : Bytes) (x : UInt8) :
    bytesToNat (b ++ [x]) = bytesToNat b * 256 + x.toNat := by
  simp [bytesToNat, List.foldl_append]

theorem bytesToNat_natToBytes {size n : ℕ} (h : n < 256 ^ size) :
    bytesToNat (natToBytes size n) = n := by
  induction size generalizing n with
  | zero =>
    have hn : n = 0 := by omega
    subst hn
    rfl
  | succ size ih =>
    have hdiv : n / 256 < 256 ^ size := by
      rw [Nat.pow_succ] at h
      omega
    have hlast : (UInt8.ofNat (n % 256)).toNat = n % 256 := by
      simp
    rw [natToBytes, bytesToNat_append, ih hdiv, hlast]
    omega

end Words

section Arguments

/-- The value is one that the encoder writes for the type. -/
inductive FitsType : String → PyVal → Prop
  | uint256 {n : ℕ} (h : n < 256 ^ 32) : FitsType "uint256" (.int n)
  | uint8 {n : ℕ} (h : n < 256) : FitsType "uint8" (.int n)
  | address {b : Bytes} (h : b.length = 20) : FitsType "address" (.str (to0xHexStr b))
  | bytes (b : Bytes) : FitsType "bytes" (.bytes b)

theorem length_word (n : ℕ) : (word n).length = 32 := length_natToBytes 32 n

theorem takeExact_append {xs ys b : Bytes} {n : ℕ} (hb : b = xs ++ ys) (h : xs.length = n) :
    takeExact n b = .ok xs := by
  subst hb
  rw [takeExact, if_pos (by rw [List.length_append]; omega), List.take_left' h]

theorem length_pad (b : Bytes) : (pad b).length = (b.length + 31) / 32 * 32 := by
  rw [pad, List.length_append, List.length_replicate]
  omega

theorem decodeTail_pad {b rest : Bytes} (h : b.length < 256 ^ 32) :
    decodeTail (word b.length ++ (pad b ++ rest)) = .ok b := by
  have hlen : bytesToNat (word b.length) = b.length := bytesToNat_natToBytes h
  have hzeros : ((pad b).drop b.length).all (· == 0) = true := by
    rw [pad, List.drop_left, List.all_replicate]
    simp
  rw [decodeTail, takeExact_append rfl (length_word _), ok_bind, List.drop_left' (length_word _), hlen]
  dsimp only
  rw [takeExact_append rfl (length_pad b), ok_bind, if_pos hzeros, pad, List.take_left]
  rfl

/-- The part of the parameters from `n` on starts with `b`. -/
def StartsAt (params : Bytes) (n : ℕ) (b : Bytes) : Prop := ∃ rest, params.drop n = b ++ rest

theorem StartsAt.left {params b b' : Bytes} {n : ℕ} (h : StartsAt params n (b ++ b')) :
    StartsAt params n b := by
  obtain ⟨rest,hrest⟩ := h
  exact ⟨b' ++ rest,by rw [hrest, List.append_assoc]⟩

theorem StartsAt.right {params b b' : Bytes} {n : ℕ} (h : StartsAt params n (b ++ b')) :
    StartsAt params (n + b.length) b' := by
  obtain ⟨rest,hrest⟩ := h
  refine ⟨rest,?_⟩
  rw [← List.drop_drop, hrest, List.append_assoc, List.drop_left]

theorem StartsAt.takeExact {params b : Bytes} {n k : ℕ} (h : StartsAt params n b)
    (hk : b.length = k) : takeExact k (params.drop n) = .ok b := by
  obtain ⟨rest,hrest⟩ := h
  exact takeExact_append hrest hk

theorem StartsAt.length_le {params b : Bytes} {n : ℕ} (h : StartsAt params n b) (hb : b ≠ []) :
    n + b.length ≤ params.length := by
  obtain ⟨rest,hrest⟩ := h
  have hlen := congrArg List.length hrest
  have hpos := List.length_pos_of_ne_nil hb
  rw [List.length_drop, List.length_append] at hlen
  omega

theorem encodeParts_int (offset n : ℕ) (args : List PyVal) :
    encodeParts offset (.int n :: args) =
      (word n ++ (encodeParts offset args).1,(encodeParts offset args).2) := by
  rw [encodeParts]
  rfl

theorem encodeParts_address (offset : ℕ) (b : Bytes) (args : List PyVal) :
    encodeParts offset (.str (to0xHexStr b) :: args) =
      (List.replicate 12 0 ++ b ++ (encodeParts offset args).1,(encodeParts offset args).2) := by
  rw [encodeParts]
  simp only [hexstrToBytes_to0xHexStr]
  rfl

theorem encodeParts_bytes (offset : ℕ) (b : Bytes) (args : List PyVal) :
    encodeParts offset (.bytes b :: args) =
      (word offset ++ (encodeParts (offset + (word b.length ++ pad b).length) args).1,
        word b.length ++ pad b ++
          (encodeParts (offset + (word b.length ++ pad b).length) args).2) := by
  rw [encodeParts]

/-- Every argument has one head of 32 bytes. -/
theorem length_heads {types : List String} {args : List PyVal}
    (hfits : List.Forall₂ FitsType types args) (offset : ℕ) :
    (encodeParts offset args).1.length = 32 * args.length := by
  induction hfits generalizing offset with
  | nil => rfl
  | cons htype hrest ih =>
    cases htype with
    | uint256 h =>
      rw [encodeParts_int, List.length_append, length_word, ih, List.length_cons]
      omega
    | uint8 h =>
      rw [encodeParts_int, List.length_append, length_word, ih, List.length_cons]
      omega
    | address h =>
      rw [encodeParts_address, List.length_append, List.length_append, List.length_replicate, h, ih,
        List.length_cons]
      omega
    | bytes b =>
      rw [encodeParts_bytes, List.length_append, length_word, ih, List.length_cons]
      omega

/-- The next value, and where the rest of the arguments stand. -/
theorem decodeValue_encodeParts {params : Bytes} (hparams : params.length < 256 ^ 32)
    {type : String} {value : PyVal} (htype : FitsType type value) {args : List PyVal}
    {i offset : ℕ} (hheads : StartsAt params (32 * i) (encodeParts offset (value :: args)).1)
    (htails : StartsAt params offset (encodeParts offset (value :: args)).2) :
    decodeValue params type i = .ok value ∧ ∃ next,
      StartsAt params (32 * (i+1)) (encodeParts next args).1 ∧
        StartsAt params next (encodeParts next args).2 := by
  have hnext : ∀ {head heads : Bytes}, head.length = 32 →
      StartsAt params (32 * i) (head ++ heads) → StartsAt params (32 * (i+1)) heads := by
    intro head heads hlen h
    have hright := h.right
    rwa [hlen] at hright
  cases htype with
  | @uint256 n h =>
    rw [encodeParts_int] at hheads htails
    refine ⟨?_,offset,hnext (length_word n) hheads,htails⟩
    rw [decodeValue, hheads.left.takeExact (length_word n), ok_bind, if_pos rfl, word,
      bytesToNat_natToBytes h]
    rfl
  | @uint8 n h =>
    rw [encodeParts_int] at hheads htails
    refine ⟨?_,offset,hnext (length_word n) hheads,htails⟩
    rw [decodeValue, hheads.left.takeExact (length_word n), ok_bind, if_neg (by decide), if_pos rfl,
      word, bytesToNat_natToBytes (by omega), if_pos h]
    rfl
  | @address b h =>
    rw [encodeParts_address] at hheads htails
    have hlen : (List.replicate 12 0 ++ b).length = 32 := by
      rw [List.length_append, List.length_replicate, h]
    have hzeros : (List.replicate 12 (0 : UInt8)).all (· == 0) = true := by decide
    refine ⟨?_,offset,hnext hlen hheads,htails⟩
    rw [decodeValue, hheads.left.takeExact hlen, ok_bind, if_neg (by decide), if_neg (by decide),
      if_pos rfl, List.take_left' List.length_replicate, if_pos hzeros,
      List.drop_left' List.length_replicate]
    rfl
  | bytes b =>
    let tail := word b.length ++ pad b
    rw [encodeParts_bytes] at hheads htails
    have htail : offset + tail.length ≤ params.length := by
      apply htails.left.length_le
      intro hnil
      have hlen := congrArg List.length hnil
      rw [List.length_append, length_word, List.length_nil] at hlen
      omega
    have hlen : tail.length = 32 + (b.length + 31) / 32 * 32 := by
      rw [List.length_append, length_word, length_pad]
    refine ⟨?_,offset + tail.length,hnext (length_word offset) hheads,htails.right⟩
    obtain ⟨rest,hrest⟩ := htails.left
    rw [decodeValue, hheads.left.takeExact (length_word offset), ok_bind, if_neg (by decide),
      if_neg (by decide), if_neg (by decide), if_pos rfl, word, bytesToNat_natToBytes (by omega),
      hrest, List.append_assoc, decodeTail_pad (by omega)]
    rfl

/-- Arguments laid out from head `i` on, with tails from `offset` on, are read back. -/
theorem decodeValues_encodeParts {params : Bytes} (hparams : params.length < 256 ^ 32)
    {types : List String} {args : List PyVal} (hfits : List.Forall₂ FitsType types args)
    {i offset : ℕ} (hheads : StartsAt params (32 * i) (encodeParts offset args).1)
    (htails : StartsAt params offset (encodeParts offset args).2) :
    (types.zipIdx i).mapM (fun t => decodeValue params t.1 t.2) = .ok args := by
  induction hfits generalizing i offset with
  | nil => rfl
  | @cons type value types args htype hrest ih =>
    have hvalue : decodeValue params type i = .ok value ∧ ∃ next,
        StartsAt params (32 * (i+1)) (encodeParts next args).1 ∧
          StartsAt params next (encodeParts next args).2 :=
      decodeValue_encodeParts hparams htype hheads htails
    obtain ⟨hdecoded,next,hheads',htails'⟩ := hvalue
    rw [List.zipIdx_cons, List.mapM_cons, hdecoded, ok_bind, ih hheads' htails', ok_bind]
    rfl

/-- `eth_abi.decode` reads back what `eth_abi.encode` wrote. -/
theorem decodeAbi_encodeAbi {types : List String} {args : List PyVal}
    (hfits : List.Forall₂ FitsType types args) (hlen : (encodeAbi args).length < 256 ^ 32) :
    decodeAbi types (encodeAbi args) = .ok args := by
  refine decodeValues_encodeParts hlen hfits ⟨_,rfl⟩ ⟨[],?_⟩
  rw [encodeAbi, List.append_nil, List.drop_left' (length_heads hfits _)]

end Arguments

section Batches

/-- The fields of an entry fit their widths in the packed format. -/
structure FitsEntry (tx : MultiSendTx) : Prop where
  operation : tx.operation ≤ 1
  toAddress : ∃ b : Bytes, b.length = 20 ∧ tx.toAddress = to0xHexStr b
  value : tx.value < 256 ^ 32
  data : tx.data.length < 256 ^ 32

def pack (txs : List MultiSendTx) : Bytes := txs.flatMap packTx

theorem drop_add_append {xs ys : Bytes} {n : ℕ} (h : xs.length = n) (l : Bytes) {k : ℕ}
    (hl : l.drop k = xs ++ ys) : l.drop (k + n) = ys := by
  rw [← List.drop_drop, hl, List.drop_left' h]

theorem unpackTxs_packTx {tx : MultiSendTx} (h : FitsEntry tx) (n : ℕ) (rest : Bytes) :
    unpackTxs (n+1) (packTx tx ++ rest) = (tx :: ·) <$> unpackTxs n rest := by
  obtain ⟨address,haddress,hto⟩ := h.toAddress
  have hop : (natToBytes 1 tx.operation).length = 1 := length_natToBytes 1 _
  have hword : ∀ m, (word m).length = 32 := length_natToBytes 32
  have hpacked : packTx tx ++ rest = natToBytes 1 tx.operation ++ (address ++ (word tx.value ++
      (word tx.data.length ++ (tx.data ++ rest)))) := by
    rw [packTx, hto, hexstrToBytes_to0xHexStr]
    simp [Except.toOption]
  generalize hb : packTx tx ++ rest = b at hpacked ⊢
  have h0 : b.drop 0 = natToBytes 1 tx.operation ++ (address ++ (word tx.value ++
      (word tx.data.length ++ (tx.data ++ rest)))) := hpacked
  have h1 : b.drop 1 = address ++ (word tx.value ++ (word tx.data.length ++ (tx.data ++ rest))) :=
    drop_add_append hop b h0
  have h21 : b.drop 21 = word tx.value ++ (word tx.data.length ++ (tx.data ++ rest)) :=
    drop_add_append haddress b h1
  have h53 : b.drop 53 = word tx.data.length ++ (tx.data ++ rest) :=
    drop_add_append (hword _) b h21
  have h85 : b.drop 85 = tx.data ++ rest := drop_add_append (hword _) b h53
  have hrest : b.drop (85 + tx.data.length) = rest := drop_add_append rfl b h85
  have hlength : 85 + tx.data.length ≤ b.length := by
    rw [hpacked]
    simp only [List.length_append, hop, haddress, hword]
    omega
  have hoperation : bytesToNat (b.take 1) = tx.operation := by
    have hle := h.operation
    rw [hpacked, List.take_left' hop, bytesToNat_natToBytes (by omega)]
  have hlen : bytesToNat ((b.drop 53).take 32) = tx.data.length := by
    rw [h53, List.take_left' (hword _), word, bytesToNat_natToBytes h.data]
  have hvalue : bytesToNat ((b.drop 21).take 32) = tx.value := by
    rw [h21, List.take_left' (hword _), word, bytesToNat_natToBytes h.value]
  rw [unpackTxs]
  · simp only [hoperation, hlen, hvalue]
    rw [if_neg (by have hle := h.operation; omega), hrest, h1, List.take_left' haddress, h85,
      List.take_left, ← hto]
    cases unpackTxs n rest with
    | ok txs => rfl
    | error e => rfl
  · rintro rfl
    rw [List.length_nil] at hlength
    omega

theorem unpackTxs_pack {txs : List MultiSendTx} (h : ∀ tx ∈ txs, FitsEntry tx) {n : ℕ}
    (hn : txs.length ≤ n) : unpackTxs n (pack txs) = .ok txs := by
  induction txs generalizing n with
  | nil =>
    cases n with
    | zero => rfl
    | succ n => rfl
  | cons tx txs ih =>
    rw [List.length_cons] at hn
    obtain ⟨n,rfl⟩ := Nat.exists_eq_succ_of_ne_zero (by omega : n ≠ 0)
    have htail := ih (fun t ht => h t (List.mem_cons_of_mem _ ht)) (n := n) (by omega)
    have hcons : pack (tx :: txs) = packTx tx ++ pack txs := List.flatMap_cons ..
    rw [hcons, unpackTxs_packTx (h tx (List.mem_cons_self ..)), htail]
    rfl

theorem length_le_pack (txs : List MultiSendTx) : txs.length ≤ (pack txs).length := by
  induction txs with
  | nil => exact le_rfl
  | cons tx txs ih =>
    have hcons : pack (tx :: txs) = packTx tx ++ pack txs := List.flatMap_cons ..
    have hpos : 1 ≤ (packTx tx).length := by
      simp only [packTx, List.length_append, length_natToBytes]
      omega
    rw [hcons, List.length_append, List.length_cons]
    omega

end Batches

section Codec

theorem mapAbiData_normalizer {types : List String} {args : List PyVal}
    (h : types.length = args.length) :
    packages.mapAbiData (addressesChecksummedNormalizer packages) types args = .ok args := by
  have hnormal : ∀ t ∈ types.zip args,
      Prod.snd <$> addressesChecksummedNormalizer packages t.1 t.2 = .ok t.2 := by
    intro t _
    unfold addressesChecksummedNormalizer
    split
    · rfl
    · rfl
  have hmap : (types.zip args).map Prod.snd = args := List.map_snd_zip (by omega)
  exact (mapM_eq_ok hnormal).trans (congrArg Except.ok hmap)

theorem fromTransactionData_pack {txs : List MultiSendTx} (h : ∀ tx ∈ txs, FitsEntry tx)
    (hdata : decodeAbi ["bytes"] (encodeAbi [.bytes (pack txs)]) = .ok [.bytes (pack txs)]) :
    fromTransactionData ([0x8d, 0x80, 0xff, 0x0a] ++ encodeAbi [.bytes (pack txs)]) = .ok txs := by
  rw [fromTransactionData, selectorOf_append rfl, if_pos rfl, drop_selector rfl, hdata]
  dsimp only
  rw [unpackTxs_pack h (length_le_pack txs)]

/-- The values fit their types, and the offsets of the encoding fit a word. -/
structure IsEncodable (types : List String) (args : List PyVal) : Prop where
  fits : List.Forall₂ FitsType types args
  length : (encodeAbi args).length < 256 ^ 32

theorem IsEncodable.decodeAbi {types : List String} {args : List PyVal}
    (h : IsEncodable types args) : decodeAbi types (encodeAbi args) = .ok args :=
  decodeAbi_encodeAbi h.fits h.length

def codec : Codec packages where
  encode _ args := encodeAbi args
  Encodable := IsEncodable
  length_eq h := h.fits.length_eq.symm
  decode_encode h := ⟨_,h.decodeAbi,mapAbiData_normalizer h.fits.length_eq⟩
  hexstrToBytes_text := packages_hexstrToBytes
  multiSendSelector := [0x8d, 0x80, 0xff, 0x0a]
  length_multiSendSelector := rfl
  pack := pack
  Packable txs := ∀ tx ∈ txs, FitsEntry tx
  fromTransactionData_pack := by
    intro txs h hdata
    have hread : fromTransactionData ([0x8d, 0x80, 0xff, 0x0a] ++ encodeAbi [.bytes (pack txs)]) =
        .ok txs := fromTransactionData_pack h hdata.decodeAbi
    rw [packages_fromTransactionData]
    exact hread

end Codec
end SafeDecoder.Reference
