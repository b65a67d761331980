import SafeDecoder.Data.Digits
import SafeDecoder.Decoder.CallData

/-! # Rendering decoded values

A decoded value keeps its tuples and lists and has a text in place of each leaf.
The type tells how to read the texts again, so no two values of one type are
rendered alike.
-/
namespace SafeDecoder.Rendering
open Effects

section Types

/-- The types of the contract ABI, with the size of the integers in bits and that
of the fixed byte strings in bytes. -/
inductive AbiType
  | address | bool | bytes | string
  | uint (bits : ℕ)
  | int (bits : ℕ)
  | bytesN (size : ℕ)
  | tuple (components : List AbiType)
  | array (element : AbiType)
  | fixedArray (element : AbiType) (size : ℕ)

/-- What holds the elements of an array: a tuple for `eth_abi`, a list once they are
normalized. -/
inductive Container
  | tuple
  | list

def Container.wrap : Container → List PyVal → PyVal
  | tuple, values => .tuple values
  | list, values => .list values

/-- The values that are decoded at a type. -/
inductive Decoded : AbiType → PyVal → Prop
  | address (s : String) : Decoded .address (.str s)
  | bool (b : Bool) : Decoded .bool (.bool b)
  | bytes (b : Bytes) : Decoded .bytes (.bytes b)
  | string (s : String) : Decoded .string (.str s)
  | uint {bits : ℕ} {n : Int} (nonneg : 0 ≤ n) (lt : n < 2 ^ bits) : Decoded (.uint bits) (.int n)
  | int {bits : ℕ} {n : Int} (ge : -2 ^ (bits - 1) ≤ n) (lt : n < 2 ^ (bits - 1)) :
      Decoded (.int bits) (.int n)
  | bytesN {size : ℕ} {b : Bytes} (length : b.length = size) : Decoded (.bytesN size) (.bytes b)
  | tuple {types : List AbiType} {values : List PyVal} (length : types.length = values.length)
      (components : ∀ t ∈ types.zip values, Decoded t.1 t.2) :
      Decoded (.tuple types) (.tuple values)
  | array {type : AbiType} {values : List PyVal} (c : Container)
      (elements : ∀ v ∈ values, Decoded type v) : Decoded (.array type) (c.wrap values)
  | fixedArray {type : AbiType} {values : List PyVal} {size : ℕ} (c : Container)
      (length : values.length = size) (elements : ∀ v ∈ values, Decoded type v) :
      Decoded (.fixedArray type size) (c.wrap values)

end Types

section Shapes

/-- The tuples and lists of a value. -/
inductive Shape
  | leaf
  | tuple (elems : List Shape)
  | list (elems : List Shape)

mutual

def shape : PyVal → Shape
  | .tuple elems => .tuple (shapes elems)
  | .list elems => .list (shapes elems)
  | _ => .leaf

def shapes : List PyVal → List Shape
  | [] => []
  | value :: rest => shape value :: shapes rest

end

mutual

/-- The leaves of a value from left to right. -/
def leaves : PyVal → List PyVal
  | .tuple elems => allLeaves elems
  | .list elems => allLeaves elems
  | value => [value]

def allLeaves : List PyVal → List PyVal
  | [] => []
  | value :: rest => leaves value ++ allLeaves rest

end

/-- The text that stands for a leaf. -/
inductive Rendered : PyVal → PyVal → Prop
  | str (s : String) : Rendered (.str s) (.str s)
  | bool (b : Bool) : Rendered (.bool b) (.str (if b then "True" else "False"))
  | bytes {b : Bytes} {s : String} {digits : List Char} (text : s.toList = '0' :: 'x' :: digits)
      (twice : digits.length = 2 * b.length) (hex : ∀ c ∈ digits, isHexDigit c) :
      Rendered (.bytes b) (.str s)
  | int {n : Int} {s : String} {digits : List Char}
      (text : s.toList = if n < 0 then '-' :: digits else digits)
      (decimal : ∀ c ∈ digits, c.isDigit) (value : Nat.ofDigitChars 10 digits 0 = n.natAbs) :
      Rendered (.int n) (.str s)

end Shapes

section Reading

/-- `int(text)` for the text of an integer. -/
def intOfDecimal (text : String) : Int :=
  match text.toList with
  | '-' :: digits => -(Nat.ofDigitChars 10 digits 0 : ℕ)
  | digits => (Nat.ofDigitChars 10 digits 0 : ℕ)

mutual

/-- Read a rendered value again. -/
def recover : AbiType → PyVal → Option PyVal
  | .address, .str s => some (.str s)
  | .bool, .str s => some (.bool (s = "True"))
  | .bytes, .str s => PyVal.bytes <$> (Reference.hexstrToBytes s).toOption
  | .string, .str s => some (.str s)
  | .uint _, .str s => some (.int (intOfDecimal s))
  | .int _, .str s => some (.int (intOfDecimal s))
  | .bytesN _, .str s => PyVal.bytes <$> (Reference.hexstrToBytes s).toOption
  | .tuple types, .tuple values => PyVal.tuple <$> recoverAll types values
  | .array type, .tuple values => PyVal.tuple <$> values.mapM (recover type)
  | .array type, .list values => PyVal.list <$> values.mapM (recover type)
  | .fixedArray type _, .tuple values => PyVal.tuple <$> values.mapM (recover type)
  | .fixedArray type _, .list values => PyVal.list <$> values.mapM (recover type)
  | _, _ => none

def recoverAll : List AbiType → List PyVal → Option (List PyVal)
  | [], [] => some []
  | type :: types, value :: values => do
    let head ← recover type value
    let tail ← recoverAll types values
    return head :: tail
  | _, _ => none

end

end Reading

/-- The rendering has the shape of the value, a text for each of its leaves, and gives
the value back. -/
structure Lossless (type : AbiType) (value : PyVal) : Prop where
  shape : shape (parseDecodedArguments value) = shape value
  leaves : List.Forall₂ Rendered (leaves value) (leaves (parseDecodedArguments value))
  recovered : recover type (parseDecodedArguments value) = some value
  unique : ∀ other, Decoded type other →
    parseDecodedArguments other = parseDecodedArguments value → other = value

section Leaves

theorem rendered_bytes (b : Bytes) : Rendered (.bytes b) (.str (to0xHexStr b)) := by
  refine .bytes (toList_to0xHexStr b) (length_flatMap_hexDigits b) fun c hc => ?_
  obtain ⟨n,hn,rfl⟩ := mem_hexDigits hc
  rw [← Reference.hexValue_isSome, Reference.hexValue_hexDigit n hn]
  rfl

theorem rendered_int (n : Int) : Rendered (.int n) (.str (strOfInt n)) :=
  .int (toList_strOfInt n) (fun _ hc => Nat.isDigit_of_mem_toDigits (by decide) (by decide) hc)
    Nat.ofDigitChars_ten_toDigits

theorem intOfDecimal_strOfInt (n : Int) : intOfDecimal (strOfInt n) = n := by
  rw [intOfDecimal, toList_strOfInt]
  by_cases hn : n < 0
  · rw [if_pos hn]
    change -((Nat.ofDigitChars 10 (Nat.toDigits 10 n.natAbs) 0 : ℕ) : Int) = n
    rw [Nat.ofDigitChars_ten_toDigits]
    omega
  · rw [if_neg hn]
    split
    · -- no digit is a sign
      rename_i digits heq
      have hmem : '-' ∈ Nat.toDigits 10 n.natAbs := by
        rw [heq]
        exact List.mem_cons_self ..
      have hsign : '-'.isDigit := Nat.isDigit_of_mem_toDigits (by decide) (by decide) hmem
      cases hsign
    · rw [Nat.ofDigitChars_ten_toDigits]
      omega

theorem hexstrToBytes_parse (b : Bytes) :
    PyVal.bytes <$> (Reference.hexstrToBytes (to0xHexStr b)).toOption = some (.bytes b) := by
  rw [Reference.hexstrToBytes_to0xHexStr]
  rfl

end Leaves

section Containers

theorem parseDecodedElements_eq_map (values : List PyVal) :
    parseDecodedElements values = values.map parseDecodedArguments := by
  induction values with
  | nil => rfl
  | cons v rest ih => rw [parseDecodedElements, ih, List.map_cons]

theorem parse_wrap (c : Container) (values : List PyVal) :
    parseDecodedArguments (c.wrap values) = c.wrap (values.map parseDecodedArguments) := by
  rw [← parseDecodedElements_eq_map]
  cases c <;> rfl

theorem leaves_wrap (c : Container) (values : List PyVal) :
    leaves (c.wrap values) = values.flatMap leaves := by
  have hall : allLeaves values = values.flatMap leaves := by
    induction values with
    | nil => rfl
    | cons v rest ih => rw [allLeaves, ih, List.flatMap_cons]
  rw [← hall]
  cases c <;> rfl

theorem leaves_rendered_wrap (c : Container) {values : List PyVal}
    (h : ∀ v ∈ values, List.Forall₂ Rendered (leaves v) (leaves (parseDecodedArguments v))) :
    List.Forall₂ Rendered (leaves (c.wrap values)) (leaves (parseDecodedArguments (c.wrap values))) := by
  rw [parse_wrap, leaves_wrap, leaves_wrap]
  induction values with
  | nil => exact .nil
  | cons v rest ih =>
    rw [List.map_cons, List.flatMap_cons, List.flatMap_cons]
    exact List.rel_append (h v (List.mem_cons_self ..))
      (ih fun u hu => h u (List.mem_cons_of_mem _ hu))

theorem mapM_recover {type : AbiType} {values : List PyVal}
    (h : ∀ v ∈ values, recover type (parseDecodedArguments v) = some v) :
    (values.map parseDecodedArguments).mapM (recover type) = some values := by
  induction values with
  | nil => rfl
  | cons v rest ih =>
    rw [List.map_cons, List.mapM_cons, h v (List.mem_cons_self ..),
      ih fun u hu => h u (List.mem_cons_of_mem _ hu)]
    rfl

theorem recoverAll_map {types : List AbiType} {values : List PyVal}
    (h : List.Forall₂ (fun type v => recover type (parseDecodedArguments v) = some v) types values) :
    recoverAll types (values.map parseDecodedArguments) = some values := by
  induction h with
  | nil => rfl
  | cons hv _ ih =>
    rw [List.map_cons, recoverAll, hv, ih]
    rfl

end Containers

section Main

mutual

theorem shape_parse : ∀ v, shape (parseDecodedArguments v) = shape v
  | .int _ => rfl
  | .bool _ => rfl
  | .bytes _ => rfl
  | .str _ => rfl
  | .decimal _ _ => rfl
  | .tuple elems => by rw [parseDecodedArguments, shape, shape, shapes_parse elems]
  | .list elems => by rw [parseDecodedArguments, shape, shape, shapes_parse elems]

theorem shapes_parse : ∀ values, shapes (parseDecodedElements values) = shapes values
  | [] => rfl
  | v :: rest => by rw [parseDecodedElements, shapes, shapes, shape_parse v, shapes_parse rest]

end

theorem leaves_rendered {type : AbiType} {v : PyVal} (h : Decoded type v) :
    List.Forall₂ Rendered (leaves v) (leaves (parseDecodedArguments v)) := by
  induction h with
  | address s => exact .cons (.str s) .nil
  | bool b => exact .cons (.bool b) .nil
  | bytes b => exact .cons (rendered_bytes b) .nil
  | string s => exact .cons (.str s) .nil
  | uint _ _ => exact .cons (rendered_int _) .nil
  | int _ _ => exact .cons (rendered_int _) .nil
  | bytesN _ => exact .cons (rendered_bytes _) .nil
  | tuple length _ ih =>
    apply leaves_rendered_wrap .tuple
    intro v hv
    rw [← List.map_snd_zip length.ge] at hv
    obtain ⟨t,ht,rfl⟩ := List.mem_map.mp hv
    exact ih t ht
  | array c _ ih => exact leaves_rendered_wrap c ih
  | fixedArray c _ _ ih => exact leaves_rendered_wrap c ih

theorem recover_parse {type : AbiType} {v : PyVal} (h : Decoded type v) :
    recover type (parseDecodedArguments v) = some v := by
  induction h with
  | address s => rfl
  | bool b => cases b <;> rfl
  | bytes b => exact hexstrToBytes_parse b
  | string s => rfl
  | @uint bits n _ _ => exact congrArg (fun n => some (PyVal.int n)) (intOfDecimal_strOfInt n)
  | @int bits n _ _ => exact congrArg (fun n => some (PyVal.int n)) (intOfDecimal_strOfInt n)
  | @bytesN size b _ => exact hexstrToBytes_parse b
  | @tuple types values length _ ih =>
    have hall := recoverAll_map (List.forall₂_iff_zip.mpr ⟨length,fun {t v} hmem => ih (t,v) hmem⟩)
    rw [parseDecodedArguments, parseDecodedElements_eq_map, recover, hall]
    rfl
  | @array type values c _ ih =>
    rw [parse_wrap]
    cases c with
    | tuple => exact congrArg (PyVal.tuple <$> ·) (mapM_recover ih)
    | list => exact congrArg (PyVal.list <$> ·) (mapM_recover ih)
  | @fixedArray type values size c _ _ ih =>
    rw [parse_wrap]
    cases c with
    | tuple => exact congrArg (PyVal.tuple <$> ·) (mapM_recover ih)
    | list => exact congrArg (PyVal.list <$> ·) (mapM_recover ih)

theorem parse_lossless {type : AbiType} {value : PyVal} (h : Decoded type value) :
    Lossless type value := by
  refine ⟨shape_parse value,leaves_rendered h,recover_parse h,fun other hother hsame => ?_⟩
  have hback := recover_parse hother
  rw [hsame, recover_parse h] at hback
  exact (Option.some.inj hback).symm

/-- `(address,int8,(bool,string)[])` -/
def nestedType : AbiType := .tuple [.address, .int 8, .array (.tuple [.bool, .string])]

/-- A text that looks like rendered bytes, among others. -/
def nestedValue : PyVal :=
  .tuple [.str (to0xHexStr (List.replicate 20 0x11)), .int (-7),
    .list [.tuple [.bool true, .str "0x00"], .tuple [.bool false, .str "-7"]]]

theorem decoded_nestedValue : Decoded nestedType nestedValue := by
  refine .tuple rfl fun t ht => ?_
  rcases List.mem_cons.mp ht with rfl | ht
  · exact .address _
  rcases List.mem_pair.mp ht with rfl | rfl
  · exact .int (by decide) (by decide)
  · refine .array .list fun v hv => ?_
    have hpair : ∀ b s, Decoded (.tuple [.bool, .string]) (.tuple [.bool b, .str s]) := by
      refine fun b s => .tuple rfl fun t ht => ?_
      rcases List.mem_pair.mp ht with rfl | rfl
      · exact .bool b
      · exact .string s
    rcases List.mem_pair.mp hv with rfl | rfl
    · exact hpair _ _
    · exact hpair _ _

theorem parse_lossless_nestedValue : Lossless nestedType nestedValue :=
  parse_lossless decoded_nestedValue

end Main

end SafeDecoder.Rendering
