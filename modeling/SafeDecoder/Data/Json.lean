import SafeDecoder.Data.PythonValue

/-! # JSON documents as Python reads them

A stored ABI is an arbitrary JSON document. Indexing and iterating it raise as
they do on the Python value that the document is loaded into.
-/
namespace SafeDecoder

/-- A number is `mantissa · 10 ^ exponent`; the keys of an object are distinct. -/
inductive Json
  | null
  | bool (b : Bool)
  | num (mantissa : Int) (exponent : Int)
  | str (s : String)
  | arr (elems : List Json)
  | obj (fields : List (String × Json))

namespace Json

/-- Python's `bool(value)`. -/
def truthy : Json → Bool
  | null => false
  | bool b => b
  | num m _ => m ≠ 0
  | str s => s ≠ ""
  | arr elems => !elems.isEmpty
  | obj fields => !fields.isEmpty

/-- `value[key]` for a text key. -/
def getItem : Json → String → Except PyError Json
  | obj fields, key =>
    match fields.lookup key with
    | some v => .ok v
    | none => .error .keyError
  | _, _ => .error .typeError

/-- `for entry in value`: an object yields its keys, a text its characters. -/
def iter : Json → Except PyError (List Json)
  | arr elems => .ok elems
  | obj fields => .ok (fields.map fun f => str f.1)
  | str s => .ok (s.toList.map fun c => str (String.ofList [c]))
  | _ => .error .typeError

/-- `value == text` -/
def isText (text : String) : Json → Bool
  | str s => s = text
  | _ => false

theorem truthy_of_iter {j e : Json} {entries : List Json} (h : j.iter = .ok entries)
    (he : e ∈ entries) : j.truthy := by
  have hne : entries ≠ [] := List.ne_nil_of_mem he
  cases j with
  | arr elems => simpa [truthy, Except.ok.inj h] using hne
  | obj fields => simpa [truthy, ← Except.ok.inj h] using hne
  | str s => simpa [truthy, ← Except.ok.inj h] using hne
  | _ => cases h

end Json
end SafeDecoder
