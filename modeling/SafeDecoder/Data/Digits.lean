import Mathlib.Data.Nat.Digits.Defs
import SafeDecoder.Data.ReferencePackages

/-! # Digits in texts

`str.isdigit` accepts every character that Unicode calls a digit, `int` reads the
decimal ones, of any script, and `HexBytes` the hexadecimal ones of ASCII. The
tables are those of Unicode 15.1, which Python 3.13 goes by.
-/
namespace SafeDecoder

section Decimal

/-- The decimal zeros; the digits up to nine follow each of them. -/
def decimalZeros : List ℕ :=
  [0x30, 0x660, 0x6F0, 0x7C0, 0x966, 0x9E6, 0xA66, 0xAE6, 0xB66, 0xBE6, 0xC66, 0xCE6, 0xD66, 0xDE6,
   0xE50, 0xED0, 0xF20, 0x1040, 0x1090, 0x17E0, 0x1810, 0x1946, 0x19D0, 0x1A80, 0x1A90, 0x1B50,
   0x1BB0, 0x1C40, 0x1C50, 0xA620, 0xA8D0, 0xA900, 0xA9D0, 0xA9F0, 0xAA50, 0xABF0, 0xFF10, 0x104A0,
   0x10D30, 0x11066, 0x110F0, 0x11136, 0x111D0, 0x112F0, 0x11450, 0x114D0, 0x11650, 0x116C0,
   0x11730, 0x118E0, 0x11950, 0x11C50, 0x11D50, 0x11DA0, 0x11F50, 0x16A60, 0x16AC0, 0x16B50,
   0x1D7CE, 0x1D7D8, 0x1D7E2, 0x1D7EC, 0x1D7F6, 0x1E140, 0x1E2F0, 0x1E4F0, 0x1E950, 0x1FBF0]

/-- The ranges of the digits that are not decimal. -/
def otherDigits : List (ℕ × ℕ) :=
  [(0xB2,0xB3), (0xB9,0xB9), (0x1369,0x1371), (0x19DA,0x19DA), (0x2070,0x2070), (0x2074,0x2079),
   (0x2080,0x2089), (0x2460,0x2468), (0x2474,0x247C), (0x2488,0x2490), (0x24EA,0x24EA),
   (0x24F5,0x24FD), (0x24FF,0x24FF), (0x2776,0x277E), (0x2780,0x2788), (0x278A,0x2792),
   (0x10A40,0x10A43), (0x10E60,0x10E68), (0x11052,0x1105A), (0x1F100,0x1F10A)]

def decimalValue (c : Char) : Option ℕ :=
  (decimalZeros.find? fun z => z ≤ c.toNat && c.toNat < z + 10).map fun z => c.toNat - z

def isOtherDigit (c : Char) : Bool := otherDigits.any fun r => r.1 ≤ c.toNat && c.toNat ≤ r.2

/-- `text.isdigit()` -/
def isDigit (text : String) : Bool :=
  text ≠ "" && text.toList.all fun c => (decimalValue c).isSome || isOtherDigit c

/-- `text.isdecimal()` -/
def isDecimal (text : String) : Bool :=
  text ≠ "" && text.toList.all fun c => (decimalValue c).isSome

/-- The number that the decimal digits of a text write. -/
def decimalNumber (text : String) : ℕ :=
  Nat.ofDigits 10 (text.toList.filterMap decimalValue).reverse

/-- `sys.int_info.default_max_str_digits` -/
def maxStrDigits : ℕ := 4300

/-- `int(text)` where the text has no sign, blank or underscore, as no digit is one. -/
def intOfText (text : String) : Except PyError Int :=
  if isDecimal text && text.length ≤ maxStrDigits then .ok (decimalNumber text)
  else .error .valueError

theorem intOfText_eq_ok_iff {text : String} {n : Int} :
    intOfText text = .ok n ↔
      isDecimal text ∧ text.length ≤ maxStrDigits ∧ n = decimalNumber text := by
  unfold intOfText
  split
  · rename_i h
    rw [Bool.and_eq_true, decide_eq_true_eq] at h
    simp [h.1, h.2, eq_comm]
  · rename_i h
    rw [Bool.and_eq_true, decide_eq_true_eq] at h
    constructor
    · intro hn
      cases hn
    · exact fun hn => absurd ⟨hn.1,hn.2.1⟩ h

end Decimal

section Hexadecimal

def isHexDigit (c : Char) : Bool :=
  ('0' ≤ c && c ≤ '9') || ('a' ≤ c && c ≤ 'f') || ('A' ≤ c && c ≤ 'F')

/-- A text that `HexBytes` reads. The prefix is optional, the number of digits may be odd. -/
def readableAsHex (text : String) : Bool :=
  (match text.toList with
  | '0' :: 'x' :: rest | '0' :: 'X' :: rest => rest
  | all => all).all isHexDigit

/-- What `HexBytes` does with texts: it reads hexadecimal ones and refuses all others. -/
def ReadsHexTexts (L : Externals) : Prop :=
  ∀ text, (∃ b, L.hexstrToBytes text = .ok b) ↔ readableAsHex text

end Hexadecimal

namespace Reference

theorem hexValue_isSome (c : Char) : (hexValue c).isSome = isHexDigit c := by
  unfold hexValue isHexDigit
  split_ifs with h0 ha hA
  · simp [h0]
  · simp [ha]
  · simp [hA]
  · simp only [Option.isSome_none]
    grind

theorem unhexlify_isOk (digits : List Char) :
    (∃ b, unhexlify digits = .ok b) ↔ digits.length % 2 = 0 ∧ digits.all isHexDigit := by
  induction digits using unhexlify.induct with
  | case1 => simp [unhexlify]
  | case2 a => simp [unhexlify]
  | case3 a b rest y x hy hx ih =>
    have ha : isHexDigit a := by rw [← hexValue_isSome, hx]; rfl
    have hb : isHexDigit b := by rw [← hexValue_isSome, hy]; rfl
    have hrest : (∃ r, unhexlify (a :: b :: rest) = .ok r) ↔ ∃ r, unhexlify rest = .ok r := by
      rw [unhexlify, hx, hy]
      cases unhexlify rest with
      | ok r => exact Iff.intro (fun _ => ⟨r,rfl⟩) fun _ => ⟨_,rfl⟩
      | error e =>
        constructor
        · rintro ⟨_,h⟩
          cases h
        · rintro ⟨_,h⟩
          cases h
    have hlen : (rest.length + 1 + 1) % 2 = 0 ↔ rest.length % 2 = 0 := by omega
    rw [hrest, ih]
    simp only [List.length_cons, List.all_cons, ha, hb, Bool.true_and, hlen]
  | case4 a b rest hnone =>
    have hdigit : ¬(isHexDigit a ∧ isHexDigit b) := by
      rw [← hexValue_isSome, ← hexValue_isSome]
      rintro ⟨ha,hb⟩
      obtain ⟨x,hx⟩ := Option.isSome_iff_exists.mp ha
      obtain ⟨y,hy⟩ := Option.isSome_iff_exists.mp hb
      exact hnone x y hx hy
    constructor
    · rintro ⟨r,h⟩
      rw [unhexlify] at h
      split at h
      · rename_i x y hx hy
        exact absurd hy (hnone x y hx)
      · cases h
    · rintro ⟨_,h⟩
      simp only [List.all_cons, Bool.and_eq_true] at h
      exact absurd ⟨h.1,h.2.1⟩ hdigit

theorem readsHexTexts : ReadsHexTexts packages := by
  intro text
  have hpad : ∀ digits : List Char,
      (∃ b, unhexlify (if digits.length % 2 = 1 then '0' :: digits else digits) = .ok b) ↔
        digits.all isHexDigit := by
    intro digits
    rw [unhexlify_isOk]
    split
    · have hlen : (digits.length + 1) % 2 = 0 := by omega
      have hzero : isHexDigit '0' := rfl
      simp [hlen, hzero]
    · have hlen : digits.length % 2 = 0 := by omega
      simp [hlen]
  change (∃ b, hexstrToBytes text = .ok b) ↔ readableAsHex text
  rw [hexstrToBytes, readableAsHex]
  exact hpad _

end Reference
end SafeDecoder
