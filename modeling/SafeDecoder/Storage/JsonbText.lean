import SafeDecoder.Data.PythonValue
import SafeDecoder.Storage.Jsonb
import Mathlib.Data.List.Basic

/-! # The text of a document and its bytes

The database hashes the text of a jsonb value after a cast to `bytea`. The cast has escapes
of its own, and takes a backslash of the text for the beginning of one.
-/
namespace SafeDecoder.Jsonb

section Printing

/-- A character of a text: of the notation, or of a key or string of the document. -/
inductive Cell
  | mark (c : Char)
  | content (c : Char)

def marks (s : String) : List Cell := s.toList.map .mark

def quoted (s : String) : List Cell := .mark '\x22' :: s.toList.map .content ++ [.mark '\x22']

/-- `n` with `k` digits -/
def decimals (k n : ℕ) : List Char :=
  List.replicate (k - (Nat.toDigits 10 n).length) '0' ++ Nat.toDigits 10 n

/-- `m / 10 ^ k` with `k` digits after the point -/
def numberText (m : Int) (k : ℕ) : List Char :=
  (if m < 0 then ['-'] else []) ++ (Nat.toDigits 10 (m.natAbs / 10 ^ k) ++
    if k = 0 then [] else '.' :: decimals k (m.natAbs % 10 ^ k))

def separator (first : Bool) : List Cell := if first then [] else marks ", "

mutual

def cells : Json → List Cell
  | .null => marks "null"
  | .bool true => marks "true"
  | .bool false => marks "false"
  | .num m e => (numberText m (-e).toNat).map .mark
  | .str s => quoted s
  | .arr elems => .mark '[' :: elemCells true elems ++ [.mark ']']
  | .obj fields => .mark '\x7b' :: fieldCells true fields ++ [.mark '\x7d']

def elemCells : Bool → List Json → List Cell
  | _, [] => []
  | first, x :: rest => separator first ++ (cells x ++ elemCells false rest)

def fieldCells : Bool → List (String × Json) → List Cell
  | _, [] => []
  | first, (k,v) :: rest =>
    separator first ++ (quoted k ++ (marks ": " ++ (cells v ++ fieldCells false rest)))

end

/-- `escape_json` -/
def escape (c : Char) : List Char :=
  if c = '\x22' || c = '\x5c' then ['\x5c', c]
  else if 32 ≤ c.toNat then [c]
  else '\x5c' :: match c.toNat with
    | 8 => ['b']
    | 9 => ['t']
    | 10 => ['n']
    | 12 => ['f']
    | 13 => ['r']
    | n => ['u', '0', '0', Nat.digitChar (n / 16), Nat.digitChar (n % 16)]

def Cell.text : Cell → List Char
  | mark c => [c]
  | content c => escape c

def Cell.char : Cell → Char
  | mark c => c
  | content c => c

/-- `jsonb::text` -/
def jsonbText (j : Json) : List Char := (cells (canon j)).flatMap Cell.text

end Printing

section Bytea

/-- Three octal digits, of which the first is below four. -/
def octalByte (a b c : Char) : Option UInt8 :=
  if '0' ≤ a ∧ a ≤ '3' ∧ '0' ≤ b ∧ b ≤ '7' ∧ '0' ≤ c ∧ c ≤ '7' then
    some (UInt8.ofNat ((a.toNat - 48) * 64 + (b.toNat - 48) * 8 + (c.toNat - 48)))
  else none

/-- `text::bytea`, for a text that does not begin with a backslash -/
def byteaIn : List Char → Option Bytes
  | [] => some []
  | c :: rest =>
    if c = '\x5c' then
      match rest with
      | [] => none
      | d :: rest =>
        if d = '\x5c' then (byteaIn rest).map ([0x5c] ++ ·)
        else match rest with
          | e :: f :: rest => (octalByte d e f).bind fun b => (byteaIn rest).map ([b] ++ ·)
          | _ => none
    else (byteaIn rest).map (String.utf8EncodeChar c ++ ·)

/-- Not a quotation mark and not a control character. -/
def plainChar (c : Char) : Bool := c ≠ '\x22' && 32 ≤ c.toNat

def Cell.plain : Cell → Bool
  | mark _ => true
  | content c => plainChar c

theorem byteaIn_char {c : Char} (hc : c ≠ '\x5c') (rest : List Char) :
    byteaIn (c :: rest) = (byteaIn rest).map (String.utf8EncodeChar c ++ ·) := by
  rw [byteaIn.eq_def]
  simp [hc]

theorem byteaIn_refused {d : Char} (hd : '3' < d ∨ d < '0') (hbackslash : d ≠ '\x5c')
    (rest : List Char) : byteaIn ('\x5c' :: d :: rest) = none := by
  have hoctal : ∀ e f, octalByte d e f = none := by
    intro e f
    apply if_neg
    intro h
    rcases hd with hd | hd
    · exact absurd h.2.1 (not_le.mpr hd)
    · exact absurd h.1 (not_le.mpr hd)
  rw [byteaIn.eq_def]
  simp only [hbackslash, if_true, if_false]
  rcases rest with _ | ⟨e,_ | ⟨f,rest⟩⟩
  · rfl
  · rfl
  · simp [hoctal]

/-- Of the escapes of a text, the cast knows the one of a backslash. -/
theorem byteaIn_escape (c : Char) (rest : List Char) :
    byteaIn (escape c ++ rest) =
      if plainChar c then (byteaIn rest).map (String.utf8EncodeChar c ++ ·) else none := by
  by_cases hquote : c = '\x22'
  · subst hquote
    exact byteaIn_refused (.inr (by decide)) (by decide) rest
  by_cases hbackslash : c = '\x5c'
  · subst hbackslash
    rw [byteaIn.eq_def]
    rfl
  have hescape : escape c = if 32 ≤ c.toNat then [c] else '\x5c' :: (escape c).tail := by
    unfold escape
    simp only [hquote, hbackslash, decide_false, Bool.or_self, Bool.false_eq_true, if_false]
    split <;> rfl
  by_cases hcontrol : 32 ≤ c.toNat
  · rw [hescape, if_pos hcontrol, if_pos (by simp [plainChar, hquote, hcontrol])]
    exact byteaIn_char hbackslash rest
  · rw [if_neg (by simp [plainChar, hcontrol])]
    unfold escape
    simp only [hquote, hbackslash, hcontrol, decide_false, Bool.or_self, Bool.false_eq_true, if_false]
    split
    all_goals exact byteaIn_refused (.inl (by decide)) (by decide) _

/-- A text whose notation has no backslash can be cast if what it contains is plain. -/
theorem byteaIn_cells {l : List Cell} (hmarks : ∀ c, Cell.mark c ∈ l → c ≠ '\x5c') :
    byteaIn (l.flatMap Cell.text) =
      if l.all Cell.plain then some ((l.map Cell.char).flatMap String.utf8EncodeChar) else none := by
  induction l with
  | nil => rfl
  | cons cell l ih =>
    have hrest := ih fun c hc => hmarks c (List.mem_cons_of_mem _ hc)
    cases cell with
    | mark c =>
      have hc := hmarks c List.mem_cons_self
      simp only [List.flatMap_cons, Cell.text, List.singleton_append, byteaIn_char hc, hrest]
      simp only [List.all_cons, Cell.plain, Bool.true_and, List.map_cons, Cell.char, List.flatMap_cons]
      split <;> rfl
    | content c =>
      simp only [List.flatMap_cons, Cell.text, byteaIn_escape, hrest]
      simp only [List.all_cons, Cell.plain, List.map_cons, Cell.char, List.flatMap_cons]
      cases plainChar c with
      | false => rfl
      | true =>
        simp only [if_true, Bool.true_and]
        split <;> rfl

end Bytea
end SafeDecoder.Jsonb
