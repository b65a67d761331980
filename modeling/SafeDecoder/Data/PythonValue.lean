import Mathlib.Algebra.Group.Int.Defs
import Mathlib.Algebra.Group.Nat.Defs
import Mathlib.Data.List.Basic

/-! # Byte strings, decoded values and exceptions

The values that the decoder handles at run time, with the parts of their Python
behaviour it relies on: truthiness, slices of bytes, hexadecimal and decimal
text, and the classes that an `except` clause tells apart.
-/
namespace SafeDecoder

abbrev Bytes := List UInt8

instance : LawfulBEq Bytes := inferInstance

/-- Exceptions by class. `valueError` stands for every subclass of `ValueError`. -/
inductive PyError
  | valueError | typeError | keyError | indexError
  | decodingError | arithmeticError
  | cannotDecode | unexpectedProblemDecoding
  | timeoutError | cancelledError | recursionError | dbApiError
  | other (className : String)
  deriving DecidableEq, Repr

namespace PyError

/-- `except ValueError` -/
def isValueError : PyError → Bool
  | valueError => true
  | _ => false

/-- `except (ValueError, DecodingError, ArithmeticError)` -/
def isDecodingProblem : PyError → Bool
  | valueError | decodingError | arithmeticError => true
  | _ => false

/-- `except DataDecoderException` -/
def isDataDecoderException : PyError → Bool
  | cannotDecode | unexpectedProblemDecoding => true
  | _ => false

/-- `except TimeoutError` -/
def isTimeoutError : PyError → Bool
  | timeoutError => true
  | _ => false

end PyError

/-- A value decoded from call data, before or after its text rendering. A
fixed-point number is `unscaled · 10 ^ (-scale)`. -/
inductive PyVal
  | int (n : Int)
  | bool (b : Bool)
  | bytes (b : Bytes)
  | str (s : String)
  | decimal (unscaled : Int) (scale : ℕ)
  | tuple (elems : List PyVal)
  | list (elems : List PyVal)

/-- Python's `bool(value)`. -/
def PyVal.truthy : PyVal → Bool
  | int n => n ≠ 0
  | bool b => b
  | bytes b => !b.isEmpty
  | str s => s ≠ ""
  | decimal n _ => n ≠ 0
  | tuple elems => !elems.isEmpty
  | list elems => !elems.isEmpty

def hexDigit (n : ℕ) : Char := "0123456789abcdef".toList.getD n '0'

def hexDigits (x : UInt8) : List Char := [hexDigit (x.toNat / 16), hexDigit (x.toNat % 16)]

/-- `to_0x_hex_str`: two lower-case digits for each byte after `0x`. -/
def to0xHexStr (b : Bytes) : String := "0x" ++ String.ofList (b.flatMap hexDigits)

theorem toList_to0xHexStr (b : Bytes) :
    (to0xHexStr b).toList = '0' :: 'x' :: b.flatMap hexDigits := by
  simp only [to0xHexStr, String.toList_append, String.toList_ofList]
  rfl

theorem length_flatMap_hexDigits (b : Bytes) : (b.flatMap hexDigits).length = 2 * b.length := by
  induction b with
  | nil => rfl
  | cons x b ih =>
    have htwo : (hexDigits x).length = 2 := rfl
    rw [List.flatMap_cons, List.length_append, ih, htwo, List.length_cons]
    omega

theorem length_to0xHexStr (b : Bytes) : (to0xHexStr b).length = 2 * b.length + 2 := by
  rw [← String.length_toList, toList_to0xHexStr, List.length_cons, List.length_cons,
    length_flatMap_hexDigits]

/-- Every digit of the text is the digit of a number below 16. -/
theorem mem_hexDigits {b : Bytes} {c : Char} (h : c ∈ b.flatMap hexDigits) :
    ∃ n < 16, c = hexDigit n := by
  obtain ⟨x,_,hx⟩ := List.mem_flatMap.mp h
  have hlt : x.toNat < 256 := x.toNat_lt
  rcases List.mem_pair.mp hx with rfl | rfl
  · exact ⟨x.toNat / 16,by omega,rfl⟩
  · exact ⟨x.toNat % 16,by omega,rfl⟩

/-- `str` of an integer or of a truth value, which Python counts as an integer. -/
def strOfInt (n : Int) : String := toString n
def strOfBool (b : Bool) : String := if b then "True" else "False"

theorem toList_strOfInt (n : Int) : (strOfInt n).toList =
    if n < 0 then '-' :: Nat.toDigits 10 n.natAbs else Nat.toDigits 10 n.natAbs := by
  rw [strOfInt, Int.toString_eq_repr, Int.repr_eq_if]
  by_cases hn : n < 0
  · have habs : (-n).toNat = n.natAbs := by omega
    rw [if_pos hn, if_neg (Int.not_le.mpr hn), String.toList_append, habs, Nat.repr_eq_ofList_toDigits]
    simp
  · have habs : n.toNat = n.natAbs := by omega
    rw [if_neg hn, if_pos (Int.not_lt.mp hn), Nat.repr_eq_ofList_toDigits, String.toList_ofList, habs]

/-- The first four bytes, or fewer when the data is shorter: `data[:4]`. -/
def selectorOf (data : Bytes) : Bytes := data.take 4

@[simp] theorem selectorOf_append {selector rest : Bytes} (h : selector.length = 4) :
    selectorOf (selector ++ rest) = selector := by
  rw [selectorOf, ← h, List.take_left]

theorem four_le_length {data selector : Bytes} (h : selectorOf data = selector)
    (hlength : selector.length = 4) : 4 ≤ data.length := by
  have hle : (selectorOf data).length ≤ data.length := List.length_take_le' ..
  rw [h] at hle
  omega

@[simp] theorem drop_selector {selector rest : Bytes} (h : selector.length = 4) :
    (selector ++ rest).drop 4 = rest := by
  rw [← h, List.drop_left]

end SafeDecoder
