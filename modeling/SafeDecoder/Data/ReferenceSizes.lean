import SafeDecoder.Data.Digits
import SafeDecoder.Library.Effects

/-! # How much the executable packages read and return

A decoded byte string or text is no longer than the bytes it is read from, two
hexadecimal digits give one byte, and the entries of a batch lie one after another.
-/
namespace SafeDecoder.Reference
open Effects

section Reading
variable {b r stream params : Bytes} {n : ℕ}

theorem takeExact_eq_ok_iff : takeExact n b = .ok r ↔ n ≤ b.length ∧ r = b.take n := by
  unfold takeExact
  split
  · rename_i h
    simp [h, eq_comm]
  · rename_i h
    simp [h]

theorem length_takeExact (h : takeExact n b = .ok r) : r.length = n := by
  obtain ⟨hle,rfl⟩ := takeExact_eq_ok_iff.mp h
  rw [List.length_take]
  omega

/-- A word and what follows it. -/
theorem length_decodeTail (h : decodeTail stream = .ok r) : r.length + 32 ≤ stream.length := by
  obtain ⟨head,hhead,h⟩ := bind_eq_ok_iff.mp h
  obtain ⟨padded,hpadded,h⟩ := bind_eq_ok_iff.mp h
  have hword := (takeExact_eq_ok_iff.mp hhead).1
  obtain ⟨_,hp⟩ := takeExact_eq_ok_iff.mp hpadded
  have hle : padded.length ≤ (stream.drop 32).length := by
    rw [hp]
    exact List.length_take_le' ..
  rw [List.length_drop] at hle
  split at h
  · cases h
    have htake : (padded.take (bytesToNat head)).length ≤ padded.length := List.length_take_le' ..
    omega
  · cases h

theorem length_decodeText {s : String} (h : decodeText b = .ok s) : s.length = b.length := by
  unfold decodeText at h
  split at h
  · cases h
    rw [← String.length_toList, String.toList_ofList, List.length_map]
  · cases h

theorem bytesToNat_lt (b : Bytes) : bytesToNat b < 256 ^ b.length := by
  have hstep : ∀ (b : Bytes) (acc k : ℕ), acc < 256 ^ k →
      b.foldl (fun n x => n * 256 + x.toNat) acc < 256 ^ (k + b.length) := by
    intro b
    induction b with
    | nil => exact fun acc k h => h
    | cons x rest ih =>
      intro acc k h
      have hx : x.toNat < 256 := x.toNat_lt
      have hnext := ih (acc * 256 + x.toNat) (k + 1) (by rw [Nat.pow_succ]; omega)
      rw [List.foldl_cons, List.length_cons, Nat.add_comm rest.length, ← Nat.add_assoc]
      exact hnext
  have h := hstep b 0 0 (by decide)
  rwa [Nat.zero_add] at h

/-- What one value takes of the parameters. -/
theorem decodeValue_cases {type : String} {i : ℕ} {v : PyVal} (h : decodeValue params type i = .ok v) :
    32 * i + 32 ≤ params.length ∧
      ((∃ n : ℕ, n < 2 ^ 256 ∧ v = .int n) ∨ (∃ s, v = .str s ∧ (s.length = 42 ∨ s.length ≤ params.length)) ∨
        ∃ b, v = .bytes b ∧ b.length ≤ params.length) := by
  obtain ⟨head,hhead,h⟩ := bind_eq_ok_iff.mp h
  have hlen := length_takeExact hhead
  have hword := (takeExact_eq_ok_iff.mp hhead).1
  rw [List.length_drop] at hword
  have hnat : bytesToNat head < 2 ^ 256 := by
    have hlt := bytesToNat_lt head
    rw [hlen] at hlt
    exact hlt.trans_eq (by norm_num)
  have hdrop : ∀ k, (params.drop k).length ≤ params.length := fun k => by
    rw [List.length_drop]
    omega
  refine ⟨by omega,?_⟩
  split at h
  · cases h
    exact .inl ⟨_,hnat,rfl⟩
  split at h
  · split at h
    · cases h
      exact .inl ⟨_,hnat,rfl⟩
    · cases h
  split at h
  · split at h
    · cases h
      have hlength : (head.drop 12).length = 20 := by rw [List.length_drop, hlen]
      exact .inr (.inl ⟨_,rfl,.inl (by rw [length_to0xHexStr, hlength])⟩)
    · cases h
  split at h
  · obtain ⟨b,hb,h⟩ := bind_eq_ok_iff.mp h
    cases h
    have htail := length_decodeTail hb
    have hle := hdrop (bytesToNat head)
    exact .inr (.inr ⟨b,rfl,by omega⟩)
  split at h
  · obtain ⟨b,hb,h⟩ := bind_eq_ok_iff.mp h
    obtain ⟨s,hs,h⟩ := bind_eq_ok_iff.mp h
    cases h
    have htail := length_decodeTail hb
    have hle := hdrop (bytesToNat head)
    have htext := length_decodeText hs
    exact .inr (.inl ⟨s,rfl,.inr (by omega)⟩)
  · cases h

/-- Every value has a word of its own. -/
theorem length_decodeAbi_heads {types : List String} {values : List PyVal}
    (h : decodeAbi types params = .ok values) : 32 * types.length ≤ params.length := by
  rcases Nat.eq_zero_or_pos types.length with hnone | hpos
  · omega
  · have hlast : (types[types.length - 1],types.length - 1) ∈ types.zipIdx :=
      List.mk_mem_zipIdx_iff_getElem?.mpr (List.getElem?_eq_getElem _)
    obtain ⟨v,hv⟩ : ∃ v, decodeValue params types[types.length - 1] (types.length - 1) = .ok v := by
      obtain ⟨i,hi,hget⟩ := List.getElem_of_mem hlast
      have hall := List.forall₂_iff_get.mp (mapM_eq_ok_iff.mp h)
      have hvalue := hall.2 i hi (by rw [← hall.1]; exact hi)
      rw [List.get_eq_getElem, hget] at hvalue
      exact ⟨_,hvalue⟩
    have hword := (decodeValue_cases hv).1
    omega

end Reading

section Digits

theorem length_unhexlify {digits : List Char} {b : Bytes} (h : unhexlify digits = .ok b) :
    2 * b.length = digits.length := by
  induction digits using unhexlify.induct generalizing b with
  | case1 =>
    cases h
    rfl
  | case2 a => cases h
  | case3 a c rest y x hy hx ih =>
    rw [unhexlify, hx, hy] at h
    obtain ⟨tail,htail,h⟩ := bind_eq_ok_iff.mp h
    cases h
    have hlen := ih htail
    simp only [List.length_cons]
    omega
  | case4 a c rest hnone =>
    rw [unhexlify] at h
    split at h
    · rename_i x y hx hy
      exact absurd hy (hnone x y hx)
    · cases h

theorem length_hexstrToBytes {s : String} {b : Bytes} (h : hexstrToBytes s = .ok b) :
    b.length ≤ (s.length + 1) / 2 := by
  have hpad : ∀ digits : List Char, digits.length ≤ s.length →
      unhexlify (if digits.length % 2 = 1 then '0' :: digits else digits) = .ok b →
        b.length ≤ (s.length + 1) / 2 := by
    intro digits hle hb
    have hlen := length_unhexlify hb
    split at hlen
    · rw [List.length_cons] at hlen
      omega
    · omega
  rw [hexstrToBytes] at h
  refine hpad _ ?_ h
  rw [← String.length_toList]
  split
  · rename_i heq
    simp only [heq, List.length_cons]
    omega
  · rename_i heq
    simp only [heq, List.length_cons]
    omega
  · exact le_rfl

end Digits

section Batches

theorem unpackTxs_sum {n : ℕ} {b : Bytes} {txs : List MultiSendTx} (h : unpackTxs n b = .ok txs) :
    (txs.map fun tx => tx.data.length + 85).sum ≤ b.length := by
  induction n generalizing b txs with
  | zero =>
    cases b with
    | nil =>
      cases h
      exact le_rfl
    | cons x b => cases h
  | succ n ih =>
    cases b with
    | nil =>
      cases h
      exact le_rfl
    | cons x b =>
      rw [unpackTxs] at h
      · split at h
        · cases h
        · rename_i hlong
          obtain ⟨rest,hrest,h⟩ := bind_eq_ok_iff.mp h
          cases h
          have hsum := ih hrest
          rw [List.length_drop] at hsum
          have hentry : ((List.drop 85 (x :: b)).take
              (bytesToNat ((List.drop 53 (x :: b)).take 32))).length ≤
                bytesToNat ((List.drop 53 (x :: b)).take 32) := List.length_take_le ..
          rw [List.map_cons, List.sum_cons]
          dsimp only at hentry ⊢
          omega
      · simp

theorem fromTransactionData_sum {data : Bytes} {txs : List MultiSendTx}
    (h : fromTransactionData data = .ok txs) :
    (txs.map fun tx => tx.data.length + 85).sum ≤ data.length := by
  rcases fromTransactionData_cases h with rfl | ⟨packed,hpacked,hunpack⟩
  · exact Nat.zero_le _
  · have hlen : packed.length ≤ data.length := by
      have hvalue : decodeValue (data.drop 4) "bytes" 0 = .ok (.bytes packed) := by
        cases hv : decodeValue (data.drop 4) "bytes" 0 with
        | ok v =>
          have hone : v = .bytes packed := by simpa [decodeAbi, hv] using hpacked
          rw [hone]
        | error e => simp [decodeAbi, hv] at hpacked
      obtain ⟨_,⟨n,_,hv⟩ | ⟨t,hv,_⟩ | ⟨b,hv,hle⟩⟩ := decodeValue_cases hvalue
      · cases hv
      · cases hv
      · cases hv
        rw [List.length_drop] at hle
        omega
    exact (unpackTxs_sum hunpack).trans hlen

end Batches
end SafeDecoder.Reference
