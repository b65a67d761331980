import SafeDecoder.Listing.Pagination
import SafeDecoder.Storage.JsonbReading

/-! # The text behind the field of a cached response

`get_field_key` digests the arguments of an endpoint as `json.dumps` writes them. The text can
be read back, so different arguments are written differently.
-/
namespace SafeDecoder.FieldKey
open Jsonb Listing

section Model

/-- `ESCAPE_DCT` of the module `json` -/
def escapeDct : List (Char × Char) :=
  [('\x5c','\x5c'), ('\x22','\x22'), ('\x08','b'), ('\x0c','f'), ('\n','n'), ('\r','r'), ('\t','t')]

/-- `format(n, "04x")` -/
def hex4 (n : ℕ) : List Char :=
  [Nat.digitChar (n / 4096 % 16), Nat.digitChar (n / 256 % 16), Nat.digitChar (n / 16 % 16),
    Nat.digitChar (n % 16)]

def unicodeEscape (n : ℕ) : List Char := '\x5c' :: 'u' :: hex4 n

/-- `ensure_ascii`: what is not printable ASCII is written by its UTF-16 code units. -/
def escapeAscii (c : Char) : List Char :=
  match escapeDct.find? fun p => p.1 = c with
  | some p => ['\x5c', p.2]
  | none =>
    if 32 ≤ c.toNat ∧ c.toNat ≤ 126 then [c]
    else if c.toNat < 0x10000 then unicodeEscape c.toNat
    else unicodeEscape (0xd800 + (c.toNat - 0x10000) / 0x400) ++
      unicodeEscape (0xdc00 + (c.toNat - 0x10000) % 0x400)

def asciiText : Cell → List Char
  | .mark c => [c]
  | .content c => escapeAscii c

/-- `json.dumps`, for a document whose keys are in order -/
def dumps (j : Json) : List Char := (cells j).flatMap asciiText

/-- `repr` of `None` or of a natural number -/
def reprOptional : Option ℕ → List Char
  | none => "None".toList
  | some n => Nat.toDigits 10 n

/-- `str(pagination_params)`, which `json.dumps` is told to use -/
def strOfParams (p : PaginationQueryParams) : String :=
  String.ofList ("limit=".toList ++ (reprOptional p.limit ++ (" offset=".toList ++ reprOptional p.offset)))

/-- What is left of the arguments of `list_contracts`, with the URL of the request. -/
structure Payload where
  address : String
  chainIds : Option (List Int)
  paginationParams : PaginationQueryParams
  url : String

def idsJson : Option (List Int) → Json
  | none => .null
  | some ids => .arr (ids.map fun n => .num n 0)

/-- The payload with `sort_keys` -/
def Payload.json (p : Payload) : Json :=
  .obj [("address",.str p.address), ("chain_ids",idsJson p.chainIds),
    ("pagination_params",.str (strOfParams p.paginationParams)), ("url",.str p.url)]

/-- `raw_key` -/
def rawKey (p : Payload) : String := String.ofList (dumps p.json)

end Model

section Characters

/-- The value of a hexadecimal digit. -/
def hexVal (c : Char) : ℕ := if c.toNat ≤ 57 then c.toNat - 48 else c.toNat - 87

def codeUnit (a b c d : Char) : ℕ := ((hexVal a * 16 + hexVal b) * 16 + hexVal c) * 16 + hexVal d

/-- The second code unit of a pair, after the first. -/
def readLow (high : ℕ) : List Char → Option (Char × List Char)
  | _ :: _ :: a :: b :: c :: d :: rest =>
    some (Char.ofNat (0x10000 + (high - 0xd800) * 0x400 + (codeUnit a b c d - 0xdc00)),rest)
  | _ => none

def readUnit : List Char → Option (Char × List Char)
  | a :: b :: c :: d :: rest =>
    if codeUnit a b c d < 0xd800 ∨ 0xdfff < codeUnit a b c d then
      some (Char.ofNat (codeUnit a b c d),rest)
    else readLow (codeUnit a b c d) rest
  | _ => none

def readEscape : List Char → Option (Char × List Char)
  | [] => none
  | e :: rest =>
    if e = 'u' then readUnit rest
    else (escapeDct.find? fun p => p.2 = e).map fun p => (p.1,rest)

/-- The next character of a text, unless the text ends. -/
def readChar : List Char → Option (Char × List Char)
  | [] => none
  | c :: rest => if c = '\x22' then none else if c = '\x5c' then readEscape rest else some (c,rest)

theorem hexVal_digitChar {n : ℕ} (h : n < 16) : hexVal (Nat.digitChar n) = n := by
  have hall : ∀ n < 16, hexVal (Nat.digitChar n) = n := by decide
  exact hall n h

theorem codeUnit_hex4 {n : ℕ} (h : n < 0x10000) :
    codeUnit (Nat.digitChar (n / 4096 % 16)) (Nat.digitChar (n / 256 % 16)) (Nat.digitChar (n / 16 % 16))
      (Nat.digitChar (n % 16)) = n := by
  have hmod : ∀ m, m % 16 < 16 := fun m => Nat.mod_lt m (by omega)
  simp only [codeUnit, hexVal_digitChar (hmod _)]
  omega

theorem readChar_escape (rest : List Char) : readChar ('\x5c' :: rest) = readEscape rest := by
  rw [readChar, if_neg (by decide), if_pos rfl]

theorem readChar_unit {n : ℕ} (hn : n < 0x10000) (hsingle : n < 0xd800 ∨ 0xdfff < n) (rest : List Char) :
    readChar (unicodeEscape n ++ rest) = some (Char.ofNat n,rest) := by
  have hunit := codeUnit_hex4 hn
  simp only [unicodeEscape, hex4, List.cons_append, List.nil_append]
  rw [readChar_escape, readEscape, if_pos rfl, readUnit, hunit, if_pos hsingle]

theorem readChar_pair {n : ℕ} (hn : 0x10000 ≤ n) (hmax : n < 0x110000) (rest : List Char) :
    readChar (unicodeEscape (0xd800 + (n - 0x10000) / 0x400) ++
      unicodeEscape (0xdc00 + (n - 0x10000) % 0x400) ++ rest) = some (Char.ofNat n,rest) := by
  have hhigh := codeUnit_hex4 (n := 0xd800 + (n - 0x10000) / 0x400) (by omega)
  have hlow := codeUnit_hex4 (n := 0xdc00 + (n - 0x10000) % 0x400) (by omega)
  have hnumber : 0x10000 + (0xd800 + (n - 0x10000) / 0x400 - 0xd800) * 0x400 +
      (0xdc00 + (n - 0x10000) % 0x400 - 0xdc00) = n := by omega
  simp only [unicodeEscape, hex4, List.cons_append, List.nil_append]
  rw [readChar_escape, readEscape, if_pos rfl, readUnit, hhigh, if_neg (by omega), readLow, hlow, hnumber]

/-- What is written for a character is read as that character. -/
theorem readChar_escapeAscii (c : Char) (rest : List Char) :
    readChar (escapeAscii c ++ rest) = some (c,rest) := by
  have hback : ∀ p ∈ escapeDct, p.2 ≠ 'u' ∧ (escapeDct.find? fun q => q.2 = p.2) = some p := by decide
  have hspecial : ∀ d : Char, d = '\x22' ∨ d = '\x5c' → ∃ p ∈ escapeDct, p.1 = d := by
    rintro d (rfl | rfl) <;> decide
  unfold escapeAscii
  cases hfind : escapeDct.find? fun p => p.1 = c with
  | some p =>
    obtain ⟨hu,hp⟩ := hback p (List.mem_of_find?_eq_some hfind)
    have hc : p.1 = c := by simpa using List.find?_some hfind
    rw [List.cons_append, readChar_escape, List.cons_append, readEscape, if_neg hu, hp, ← hc]
    rfl
  | none =>
    have hplain : c ≠ '\x22' ∧ c ≠ '\x5c' := by
      rw [List.find?_eq_none] at hfind
      constructor
      · rintro rfl
        obtain ⟨p,hp,hc⟩ := hspecial '\x22' (.inl rfl)
        exact hfind p hp (decide_eq_true hc)
      · rintro rfl
        obtain ⟨p,hp,hc⟩ := hspecial '\x5c' (.inr rfl)
        exact hfind p hp (decide_eq_true hc)
    have hvalid : c.toNat < 0xd800 ∨ 0xdfff < c.toNat ∧ c.toNat < 0x110000 := c.valid
    have hback : Char.ofNat c.toNat = c := Char.ofNat_toNat c
    dsimp only
    split
    · rw [List.singleton_append, readChar, if_neg hplain.1, if_neg hplain.2]
    · split
      · rw [readChar_unit (by assumption) (by omega), hback]
      · rw [readChar_pair (by omega) (by omega), hback]

theorem readChar_flatMap (c : Char) (x rest : List Char) :
    readChar ((c :: x).flatMap escapeAscii ++ rest) = some (c,x.flatMap escapeAscii ++ rest) := by
  rw [List.flatMap_cons, List.append_assoc, readChar_escapeAscii]

/-- A text ends at the first quotation mark that is not escaped. -/
theorem escaped_inj {x y s t : List Char}
    (h : x.flatMap escapeAscii ++ '\x22' :: s = y.flatMap escapeAscii ++ '\x22' :: t) : x = y ∧ s = t := by
  have hend : ∀ s, readChar ([].flatMap escapeAscii ++ '\x22' :: s) = none := by
    intro s
    rw [List.flatMap_nil, List.nil_append, readChar, if_pos rfl]
  induction x generalizing y with
  | nil =>
    cases y with
    | nil => exact ⟨rfl,List.tail_eq_of_cons_eq h⟩
    | cons d y =>
      have hread := congrArg readChar h
      rw [hend, readChar_flatMap] at hread
      cases hread
  | cons c x ih =>
    have hread := congrArg readChar h
    rw [readChar_flatMap] at hread
    cases y with
    | nil =>
      rw [hend] at hread
      cases hread
    | cons d y =>
      rw [readChar_flatMap] at hread
      obtain ⟨rfl,hrest⟩ := Prod.mk.inj (Option.some.inj hread)
      obtain ⟨rfl,hst⟩ := ih hrest
      exact ⟨rfl,hst⟩

end Characters

section Payloads

theorem flatMap_marks (l : List Char) : (l.map Cell.mark).flatMap asciiText = l := by
  induction l with
  | nil => rfl
  | cons c l ih => rw [List.map_cons, List.flatMap_cons, ih, asciiText, List.singleton_append]

theorem flatMap_quoted (s : String) :
    (quoted s).flatMap asciiText = '\x22' :: (s.toList.flatMap escapeAscii ++ ['\x22']) := by
  simp [quoted, asciiText, List.flatMap_map]

theorem dumps_str (s : String) : dumps (.str s) = '\x22' :: (s.toList.flatMap escapeAscii ++ ['\x22']) :=
  flatMap_quoted s

/-- One text in another is read to its end. -/
theorem dumps_str_inj {a b : String} {s t : List Char} (h : dumps (.str a) ++ s = dumps (.str b) ++ t) :
    a = b ∧ s = t := by
  rw [dumps_str, dumps_str] at h
  simp only [List.cons_append, List.append_assoc, List.nil_append, List.cons.injEq, true_and] at h
  obtain ⟨htext,hrest⟩ := escaped_inj h
  exact ⟨String.toList_injective htext,hrest⟩

/-- Numbers have nothing to escape. -/
theorem dumps_ids (ids : Option (List Int)) : dumps (idsJson ids) = raw (idsJson ids) := by
  have helems : ∀ (l : List Int) first, (elemCells first (l.map fun n => .num n 0)).flatMap asciiText =
      rawElems first (l.map fun n => .num n 0) := by
    intro l
    induction l with
    | nil => exact fun _ => rfl
    | cons n l ih =>
      intro first
      rw [List.map_cons, rawElems_cons, elemCells, List.flatMap_append, List.flatMap_append, ih, raw_num]
      have hseparator : (separator first).flatMap asciiText = rawSeparator first := by
        cases first <;> rfl
      rw [hseparator, cells, flatMap_marks]
  cases ids with
  | none => rfl
  | some l =>
    rw [idsJson, raw_arr, dumps, cells]
    simp [asciiText, helems]

theorem readable_ids (ids : Option (List Int)) : Readable (idsJson ids) := by
  cases ids with
  | none => exact ⟨rfl,rfl⟩
  | some l =>
    rw [idsJson, readable_arr]
    intro e he
    obtain ⟨n,_,rfl⟩ := List.mem_map.mp he
    exact ⟨rfl,rfl⟩

theorem dumps_ids_inj {a b : Option (List Int)} {s t : List Char} (hs : Stops s) (ht : Stops t)
    (h : dumps (idsJson a) ++ s = dumps (idsJson b) ++ t) : a = b ∧ s = t := by
  rw [dumps_ids, dumps_ids] at h
  obtain ⟨hjson,hrest⟩ := readOnce _ _ (readable_ids a) (readable_ids b) s t hs ht h
  refine ⟨?_,hrest⟩
  have hnum : Function.Injective fun n : Int => Json.num n 0 := fun m n h => by
    cases h
    rfl
  cases a with
  | none =>
    cases b with
    | none => rfl
    | some l => cases hjson
  | some l =>
    cases b with
    | none => cases hjson
    | some m => rw [List.map_injective_iff.mpr hnum (Json.arr.inj hjson)]

theorem reprOptional_inj {a b : Option ℕ} (h : reprOptional a = reprOptional b) : a = b := by
  have hnone : ∀ n, reprOptional none ≠ reprOptional (some n) := by
    intro n h
    have hmem : 'N' ∈ reprOptional none := by decide
    rw [h] at hmem
    cases isDigit_toDigits hmem
  cases a with
  | none =>
    cases b with
    | none => rfl
    | some n => exact absurd h (hnone n)
  | some m =>
    cases b with
    | none => exact absurd h.symm (hnone m)
    | some n =>
      have hvalue := congrArg (fun l => Nat.ofDigitChars 10 l 0) h
      simp only [reprOptional, Nat.ofDigitChars_toDigits (by omega : 1 < 10) (by omega : 10 ≤ 10)] at hvalue
      rw [hvalue]

/-- A number is written without a blank. -/
theorem reprOptional_no_blank {o : Option ℕ} : ∀ c ∈ reprOptional o, decide (c ≠ ' ') := by
  intro c hc
  apply decide_eq_true
  rintro rfl
  cases o with
  | none => exact absurd hc (by decide)
  | some n => cases isDigit_toDigits hc

theorem strOfParams_injective : Function.Injective strOfParams := by
  intro p q h
  have htext := List.append_cancel_left (String.ofList_injective h)
  obtain ⟨hlimit,hrest⟩ := append_inj_of_stops reprOptional_no_blank reprOptional_no_blank
    (fun c hc => by cases hc; rfl) (fun c hc => by cases hc; rfl) htext
  have hoffset := List.append_cancel_left hrest
  obtain ⟨limit,offset,_⟩ := p
  obtain ⟨limit',offset',_⟩ := q
  cases reprOptional_inj hlimit
  cases reprOptional_inj hoffset
  rfl

/-- The text of a key with what is written around it. -/
def keyText (first : Bool) (key : String) : List Char :=
  (separator first ++ (quoted key ++ marks ": ")).flatMap asciiText

theorem dumps_json (p : Payload) : dumps p.json = '\x7b' :: (keyText true "address" ++
    (dumps (.str p.address) ++ (keyText false "chain_ids" ++ (dumps (idsJson p.chainIds) ++
      (keyText false "pagination_params" ++ (dumps (.str (strOfParams p.paginationParams)) ++
        (keyText false "url" ++ (dumps (.str p.url) ++ ['\x7d'])))))))) := by
  simp [Payload.json, dumps, keyText, cells, fieldCells, asciiText]

/-- Different arguments are written differently. -/
theorem rawKey_injective : Function.Injective rawKey := by
  intro p q h
  have htext : dumps p.json = dumps q.json := String.ofList_injective h
  rw [dumps_json, dumps_json] at htext
  have hkey : ∀ s, Stops (keyText false "pagination_params" ++ s) := fun s => stops_cons (by decide) _
  obtain ⟨haddress,h⟩ := dumps_str_inj (List.append_cancel_left (List.tail_eq_of_cons_eq htext))
  obtain ⟨hids,h⟩ := dumps_ids_inj (hkey _) (hkey _) (List.append_cancel_left h)
  obtain ⟨hparams,h⟩ := dumps_str_inj (List.append_cancel_left h)
  obtain ⟨hurl,_⟩ := dumps_str_inj (List.append_cancel_left h)
  obtain ⟨address,chainIds,params,url⟩ := p
  obtain ⟨address',chainIds',params',url'⟩ := q
  cases haddress
  cases hids
  cases strOfParams_injective hparams
  cases hurl
  rfl

example : dumps (Payload.json ⟨"caf\u00e9\n",some [1,-2],⟨some 5,none,fun _ h => by cases h; decide⟩,"/"⟩) =
    ("\x7b\x22address\x22: \x22caf\\u00e9\\n\x22, \x22chain_ids\x22: [1, -2], " ++
      "\x22pagination_params\x22: \x22limit=5 offset=None\x22, \x22url\x22: \x22/\x22\x7d").toList := by
  decide +kernel

end Payloads
end SafeDecoder.FieldKey
