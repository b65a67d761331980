import SafeDecoder.Storage.JsonbText

/-! # A text is read in one way

Of plain documents even the characters alone, without the escapes, tell which document it is.
-/
namespace SafeDecoder.Jsonb

section Numbers

/-- The characters of numbers. -/
def numberChar (c : Char) : Bool := c.isDigit || c = '-' || c = '.'

theorem isDigit_toDigits {n : ℕ} {c : Char} (h : c ∈ Nat.toDigits 10 n) : c.isDigit :=
  Nat.isDigit_of_mem_toDigits (by omega) (by omega) h

theorem isDigit_decimals {k n : ℕ} {c : Char} (h : c ∈ decimals k n) : c.isDigit := by
  rcases List.mem_append.mp h with h | h
  · rw [List.eq_of_mem_replicate h]
    rfl
  · exact isDigit_toDigits h

theorem length_decimals {k n : ℕ} (hk : 0 < k) (hn : n < 10 ^ k) : (decimals k n).length = k := by
  have hle := (Nat.length_toDigits_le_iff (by omega) hk).mpr hn
  simp [decimals]
  omega

theorem ofDigitChars_decimals (k n : ℕ) : Nat.ofDigitChars 10 (decimals k n) 0 = n := by
  rw [decimals, Nat.ofDigitChars_append, Nat.ofDigitChars_replicate_zero, Nat.mul_zero]
  exact Nat.ofDigitChars_toDigits (by omega) (by omega)

theorem numberChar_numberText {m : Int} {k : ℕ} : ∀ c ∈ numberText m k, numberChar c := by
  intro c hc
  unfold numberText at hc
  unfold numberChar
  rcases List.mem_append.mp hc with hc | hc
  · split at hc
    · simp [List.mem_singleton.mp hc]
    · cases hc
  · rcases List.mem_append.mp hc with hc | hc
    · simp [isDigit_toDigits hc]
    · split at hc
      · cases hc
      · rcases List.mem_cons.mp hc with rfl | hc
        · simp
        · simp [isDigit_decimals hc]

/-- The number of digits after the point. -/
def places (text : List Char) : ℕ := (text.dropWhile (· ≠ '.')).length - 1

theorem places_numberText (m : Int) (k : ℕ) : places (numberText m k) = k := by
  have hbefore : ∀ c ∈ (if m < 0 then ['-'] else []) ++ Nat.toDigits 10 (m.natAbs / 10 ^ k),
      decide (c ≠ '.') = true := by
    intro c hc
    rcases List.mem_append.mp hc with hc | hc
    · split at hc
      · simp [List.mem_singleton.mp hc]
      · cases hc
    · apply decide_eq_true
      rintro rfl
      cases isDigit_toDigits hc
  rw [places, numberText, ← List.append_assoc, List.dropWhile_append_of_pos hbefore]
  by_cases hk : k = 0
  · simp [hk]
  · have hpos : 0 < k := by omega
    have hlength := length_decimals hpos (Nat.mod_lt m.natAbs (Nat.pow_pos (n := k) (by omega : 0 < 10)))
    simp [hk, hlength]

/-- The digits of a text as one number. -/
def digitsValue (text : List Char) : ℕ := Nat.ofDigitChars 10 (text.filter Char.isDigit) 0

theorem digitsValue_numberText (m : Int) (k : ℕ) : digitsValue (numberText m k) = m.natAbs := by
  have hwhole : (Nat.toDigits 10 (m.natAbs / 10 ^ k)).filter Char.isDigit =
      Nat.toDigits 10 (m.natAbs / 10 ^ k) := List.filter_eq_self.mpr fun c hc => isDigit_toDigits hc
  have hsign : (if m < 0 then ['-'] else []).filter Char.isDigit = [] := by
    split <;> rfl
  rw [digitsValue, numberText, List.filter_append, hsign, List.nil_append, List.filter_append, hwhole,
    Nat.ofDigitChars_append, Nat.ofDigitChars_toDigits (by omega) (by omega)]
  by_cases hk : k = 0
  · simp [hk]
  · have hpos : 0 < k := by omega
    have hmod := Nat.mod_lt m.natAbs (Nat.pow_pos (n := k) (by omega : 0 < 10))
    have hdecimals : ('.' :: decimals k (m.natAbs % 10 ^ k)).filter Char.isDigit =
        decimals k (m.natAbs % 10 ^ k) := by
      rw [List.filter_cons_of_neg (by decide)]
      exact List.filter_eq_self.mpr fun c hc => isDigit_decimals hc
    rw [if_neg hk, hdecimals, Nat.ofDigitChars_eq_ofDigitChars_zero, ofDigitChars_decimals,
      length_decimals hpos hmod]
    exact Nat.div_add_mod _ _

theorem minus_mem_numberText {m : Int} {k : ℕ} : '-' ∈ numberText m k ↔ m < 0 := by
  constructor
  · intro h
    rcases List.mem_append.mp h with h | h
    · split at h
      · assumption
      · cases h
    · rcases List.mem_append.mp h with h | h
      · cases isDigit_toDigits h
      · split at h
        · cases h
        · rcases List.mem_cons.mp h with h | h
          · cases h
          · cases isDigit_decimals h
  · intro h
    simp [numberText, h]

theorem numberText_inj {m m' : Int} {k k' : ℕ} (h : numberText m k = numberText m' k') :
    m = m' ∧ k = k' := by
  have hplaces := places_numberText m k
  have hvalue := digitsValue_numberText m k
  have hsign := minus_mem_numberText (m := m) (k := k)
  rw [h, places_numberText] at hplaces
  rw [h, digitsValue_numberText] at hvalue
  rw [h, minus_mem_numberText] at hsign
  omega

end Numbers

section Values

/-- No string of the document has a quotation mark or a control character. -/
def plainTexts : Json → Bool
  | .str s => s.toList.all plainChar
  | .obj fields => fields.all fun f => f.1.toList.all plainChar
  | _ => true

/-- A number without an exponent. -/
def withoutExponent : Json → Bool
  | .num _ e => e ≤ 0
  | _ => true

/-- The text without its escapes. -/
def raw (j : Json) : List Char := (cells j).map Cell.char

def rawElems (first : Bool) (elems : List Json) : List Char := (elemCells first elems).map Cell.char

def rawFields (first : Bool) (fields : List (String × Json)) : List Char :=
  (fieldCells first fields).map Cell.char

def rawSeparator (first : Bool) : List Char := if first then [] else [',', ' ']

theorem map_char_marks (s : String) : (marks s).map Cell.char = s.toList := by
  rw [marks, List.map_map]
  exact List.map_id _

theorem map_char_quoted (s : String) :
    (quoted s).map Cell.char = '\x22' :: (s.toList ++ ['\x22']) := by
  simp [quoted, Cell.char, Function.comp_def]

theorem map_char_separator (first : Bool) :
    (separator first).map Cell.char = rawSeparator first := by
  cases first <;> rfl

theorem raw_num (m e : Int) : raw (.num m e) = numberText m (-e).toNat := by
  rw [raw, cells, List.map_map]
  exact List.map_id _

theorem raw_str (s : String) : raw (.str s) = '\x22' :: (s.toList ++ ['\x22']) := map_char_quoted s

theorem raw_arr (elems : List Json) : raw (.arr elems) = '[' :: (rawElems true elems ++ [']']) := by
  simp [raw, cells, rawElems, Cell.char]

theorem raw_obj (fields : List (String × Json)) :
    raw (.obj fields) = '\x7b' :: (rawFields true fields ++ ['\x7d']) := by
  simp [raw, cells, rawFields, Cell.char]

theorem rawElems_cons (first : Bool) (x : Json) (rest : List Json) :
    rawElems first (x :: rest) = rawSeparator first ++ (raw x ++ rawElems false rest) := by
  simp only [rawElems, elemCells, List.map_append, map_char_separator, raw]

theorem rawFields_cons (first : Bool) (k : String) (v : Json) (rest : List (String × Json)) :
    rawFields first ((k,v) :: rest) = rawSeparator first ++
      ('\x22' :: (k.toList ++ '\x22' :: ':' :: ' ' :: (raw v ++ rawFields false rest))) := by
  simp only [rawFields, fieldCells, List.map_append, map_char_separator, map_char_quoted,
    map_char_marks, raw]
  simp

/-- The kind of a document, and the kind that begins with a character. -/
def kind : Json → ℕ
  | .null => 0
  | .bool true => 1
  | .bool false => 2
  | .num _ _ => 3
  | .str _ => 4
  | .arr _ => 5
  | .obj _ => 6

def opens (c : Char) : ℕ :=
  if c = 'n' then 0 else if c = 't' then 1 else if c = 'f' then 2 else if c = '\x22' then 4
  else if c = '[' then 5 else if c = '\x7b' then 6 else if numberChar c then 3 else 7

theorem opens_numberChar {c : Char} (h : numberChar c) : opens c = 3 := by
  have hne : ∀ d : Char, numberChar d = false → c ≠ d := by
    rintro d hd rfl
    rw [h] at hd
    cases hd
  simp [opens, h, hne 'n' rfl, hne 't' rfl, hne 'f' rfl, hne '\x22' rfl, hne '[' rfl, hne '\x7b' rfl]

theorem numberText_ne_nil (m : Int) (k : ℕ) : numberText m k ≠ [] := by
  simp [numberText, Nat.toDigits_ne_nil]

theorem raw_opens (j : Json) : ∃ c rest, raw j = c :: rest ∧ opens c = kind j := by
  cases j with
  | null => exact ⟨'n',['u', 'l', 'l'],rfl,rfl⟩
  | bool b =>
    cases b with
    | true => exact ⟨'t',['r', 'u', 'e'],rfl,rfl⟩
    | false => exact ⟨'f',['a', 'l', 's', 'e'],rfl,rfl⟩
  | num m e =>
    rw [raw_num]
    cases htext : numberText m (-e).toNat with
    | nil => exact absurd htext (numberText_ne_nil _ _)
    | cons c rest =>
      have hc : numberChar c := numberChar_numberText c (htext ▸ List.mem_cons_self)
      exact ⟨c,rest,rfl,opens_numberChar hc⟩
  | str s => exact ⟨_,_,raw_str s,rfl⟩
  | arr elems => exact ⟨_,_,raw_arr elems,rfl⟩
  | obj fields => exact ⟨_,_,raw_obj fields,rfl⟩

theorem kind_eq {a b : Json} {s t : List Char} (h : raw a ++ s = raw b ++ t) : kind a = kind b := by
  obtain ⟨c,rest,ha,hc⟩ := raw_opens a
  obtain ⟨d,rest',hb,hd⟩ := raw_opens b
  rw [ha, hb, List.cons_append, List.cons_append] at h
  rw [← hc, ← hd, (List.cons.inj h).1]

theorem kind_le (j : Json) : kind j ≤ 6 := by
  rcases j with _ | (_ | _) | _ | _ | _ | _ <;> simp [kind]

end Values

section Reading

/-- What follows a value: the end, or a character that no number has. -/
def Stops (s : List Char) : Prop := ∀ c ∈ s.head?, numberChar c = false

theorem stops_cons {c : Char} (hc : numberChar c = false) (s : List Char) : Stops (c :: s) := by
  rintro d hd
  cases hd
  exact hc

/-- Where a class of characters ends, a text can be cut in one way. -/
theorem append_inj_of_stops {p : Char → Bool} {x y s t : List Char} (hx : ∀ c ∈ x, p c)
    (hy : ∀ c ∈ y, p c) (hs : ∀ c ∈ s.head?, p c = false) (ht : ∀ c ∈ t.head?, p c = false)
    (h : x ++ s = y ++ t) : x = y ∧ s = t := by
  have hcut : ∀ {x s : List Char}, (∀ c ∈ x, p c) → (∀ c ∈ s.head?, p c = false) →
      (x ++ s).takeWhile p = x := by
    intro x s hx hs
    rw [List.takeWhile_append_of_pos hx]
    cases s with
    | nil => simp
    | cons c s => simp [hs c rfl]
  have hsame : x = y := by
    rw [← hcut hx hs, h, hcut hy ht]
  subst hsame
  exact ⟨rfl,List.append_cancel_left h⟩

/-- A plain document as jsonb keeps it. -/
def Readable (a : Json) : Prop := a.all plainTexts ∧ a.all withoutExponent

/-- The text of a document is read in one way, whatever follows. -/
def ReadOnce (a : Json) : Prop :=
  ∀ b, Readable a → Readable b →
    ∀ s t, Stops s → Stops t → raw a ++ s = raw b ++ t → a = b ∧ s = t

theorem quoted_inj {k k' : String} {s t : List Char} (hk : k.toList.all plainChar)
    (hk' : k'.toList.all plainChar) (h : k.toList ++ '\x22' :: s = k'.toList ++ '\x22' :: t) :
    k = k' ∧ s = t := by
  obtain ⟨hkeys,hrest⟩ := append_inj_of_stops (List.all_eq_true.mp hk) (List.all_eq_true.mp hk')
    (fun c hc => by cases hc; rfl) (fun c hc => by cases hc; rfl) h
  exact ⟨String.toList_injective hkeys,List.tail_eq_of_cons_eq hrest⟩

theorem num_readOnce (m e : Int) : ReadOnce (.num m e) := by
  intro b ha hb s t hs ht h
  have hkind := kind_eq h
  cases b with
  | num m' e' =>
    rw [raw_num, raw_num] at h
    obtain ⟨hnumber,hrest⟩ :=
      append_inj_of_stops numberChar_numberText numberChar_numberText hs ht h
    obtain ⟨rfl,hplaces⟩ := numberText_inj hnumber
    have he : e ≤ 0 := of_decide_eq_true ha.2
    have he' : e' ≤ 0 := of_decide_eq_true hb.2
    have hexponent : e = e' := by omega
    exact ⟨by rw [hexponent],hrest⟩
  | bool b => cases b <;> cases hkind
  | _ => cases hkind

theorem str_readOnce (s : String) : ReadOnce (.str s) := by
  intro b ha hb x y _ _ h
  have hkind := kind_eq h
  cases b with
  | str s' =>
    rw [raw_str, raw_str] at h
    simp only [List.cons_append, List.append_assoc, List.cons.injEq, true_and] at h
    obtain ⟨rfl,hrest⟩ := quoted_inj ha.1 hb.1 h
    exact ⟨rfl,hrest⟩
  | bool b => cases b <;> cases hkind
  | _ => cases hkind

theorem readable_arr {elems : List Json} : Readable (.arr elems) ↔ ∀ e ∈ elems, Readable e := by
  simp only [Readable, Json.all_arr, plainTexts, withoutExponent, true_and, ← forall_and]

theorem readable_obj {fields : List (String × Json)} :
    Readable (.obj fields) ↔ ∀ f ∈ fields, f.1.toList.all plainChar ∧ Readable f.2 := by
  simp only [Readable, Json.all_obj, plainTexts, withoutExponent, true_and, List.all_eq_true,
    ← forall_and, and_assoc]

/-- A list of values does not begin with the bracket that closes it. -/
theorem rawElems_cons_ne (first : Bool) (x : Json) (rest : List Json) (s t : List Char) :
    rawElems first (x :: rest) ++ s ≠ ']' :: t := by
  intro h
  rw [rawElems_cons] at h
  cases first with
  | false => cases (List.cons.inj h).1
  | true =>
    obtain ⟨c,text,hx,hc⟩ := raw_opens x
    have hle := kind_le x
    rw [hx] at h
    rw [(List.cons.inj h).1] at hc
    have hseven : opens ']' = 7 := rfl
    omega

theorem rawFields_cons_ne (first : Bool) (f : String × Json) (rest : List (String × Json))
    (s t : List Char) : rawFields first (f :: rest) ++ s ≠ '\x7d' :: t := by
  intro h
  obtain ⟨k,v⟩ := f
  rw [rawFields_cons] at h
  cases first <;> cases (List.cons.inj h).1

/-- What follows a value in a list. -/
theorem stops_rawElems (rest : List Json) (s : List Char) : Stops (rawElems false rest ++ ']' :: s) := by
  cases rest with
  | nil => exact stops_cons rfl s
  | cons x rest =>
    rw [rawElems_cons]
    exact stops_cons rfl _

theorem stops_rawFields (rest : List (String × Json)) (s : List Char) :
    Stops (rawFields false rest ++ '\x7d' :: s) := by
  cases rest with
  | nil => exact stops_cons rfl s
  | cons f rest =>
    obtain ⟨k,v⟩ := f
    rw [rawFields_cons]
    exact stops_cons rfl _

theorem rawElems_inj {xs : List Json} (hread : ∀ x ∈ xs, ReadOnce x) {first : Bool} {ys : List Json}
    (hxs : ∀ x ∈ xs, Readable x) (hys : ∀ y ∈ ys, Readable y) {s t : List Char}
    (h : rawElems first xs ++ ']' :: s = rawElems first ys ++ ']' :: t) : xs = ys ∧ s = t := by
  induction xs generalizing first ys with
  | nil =>
    cases ys with
    | nil => exact ⟨rfl,List.tail_eq_of_cons_eq h⟩
    | cons y ys => exact absurd h.symm (rawElems_cons_ne _ _ _ _ _)
  | cons x xs ih =>
    cases ys with
    | nil => exact absurd h (rawElems_cons_ne _ _ _ _ _)
    | cons y ys =>
      rw [rawElems_cons, rawElems_cons, List.append_assoc, List.append_assoc, List.append_assoc,
        List.append_assoc] at h
      obtain ⟨rfl,hrest⟩ := hread x List.mem_cons_self y (hxs x List.mem_cons_self)
        (hys y List.mem_cons_self) _ _ (stops_rawElems xs s) (stops_rawElems ys t)
        (List.append_cancel_left h)
      obtain ⟨rfl,hend⟩ := ih (fun x hx => hread x (List.mem_cons_of_mem _ hx))
        (fun x hx => hxs x (List.mem_cons_of_mem _ hx)) (fun y hy => hys y (List.mem_cons_of_mem _ hy)) hrest
      exact ⟨rfl,hend⟩

theorem rawFields_inj {fs : List (String × Json)} (hread : ∀ f ∈ fs, ReadOnce f.2) {first : Bool}
    {gs : List (String × Json)} (hfs : ∀ f ∈ fs, f.1.toList.all plainChar ∧ Readable f.2)
    (hgs : ∀ g ∈ gs, g.1.toList.all plainChar ∧ Readable g.2) {s t : List Char}
    (h : rawFields first fs ++ '\x7d' :: s = rawFields first gs ++ '\x7d' :: t) : fs = gs ∧ s = t := by
  induction fs generalizing first gs with
  | nil =>
    cases gs with
    | nil => exact ⟨rfl,List.tail_eq_of_cons_eq h⟩
    | cons g gs => exact absurd h.symm (rawFields_cons_ne _ _ _ _ _)
  | cons f fs ih =>
    cases gs with
    | nil => exact absurd h (rawFields_cons_ne _ _ _ _ _)
    | cons g gs =>
      obtain ⟨k,v⟩ := f
      obtain ⟨k',v'⟩ := g
      obtain ⟨hk,hv⟩ := hfs (k,v) List.mem_cons_self
      obtain ⟨hk',hv'⟩ := hgs (k',v') List.mem_cons_self
      rw [rawFields_cons, rawFields_cons, List.append_assoc, List.append_assoc] at h
      have h := List.tail_eq_of_cons_eq (List.append_cancel_left h)
      simp only [List.append_eq, List.append_assoc, List.cons_append] at h
      obtain ⟨rfl,hvalue⟩ := quoted_inj hk hk' h
      have hvalue := List.tail_eq_of_cons_eq (List.tail_eq_of_cons_eq hvalue)
      obtain ⟨rfl,hrest⟩ := hread (k,v) List.mem_cons_self v' hv hv' _ _ (stops_rawFields fs s)
        (stops_rawFields gs t) hvalue
      obtain ⟨rfl,hend⟩ := ih (fun f hf => hread f (List.mem_cons_of_mem _ hf))
        (fun f hf => hfs f (List.mem_cons_of_mem _ hf)) (fun g hg => hgs g (List.mem_cons_of_mem _ hg)) hrest
      exact ⟨rfl,hend⟩

theorem readOnce (a : Json) : ReadOnce a := by
  induction a using Json.induction with
  | null =>
    intro b _ _ s t _ _ h
    have hkind := kind_eq h
    cases b with
    | null => exact ⟨rfl,List.append_cancel_left h⟩
    | bool b => cases b <;> cases hkind
    | _ => cases hkind
  | bool a =>
    intro b _ _ s t _ _ h
    have hkind := kind_eq h
    cases b with
    | bool b =>
      cases a with
      | true =>
        cases b with
        | true => exact ⟨rfl,List.append_cancel_left h⟩
        | false => cases hkind
      | false =>
        cases b with
        | true => cases hkind
        | false => exact ⟨rfl,List.append_cancel_left h⟩
    | _ => cases a <;> cases hkind
  | num m e => exact num_readOnce m e
  | str s => exact str_readOnce s
  | arr elems ih =>
    intro b ha hb s t _ _ h
    have hkind := kind_eq h
    cases b with
    | arr elems' =>
      rw [raw_arr, raw_arr] at h
      simp only [List.cons_append, List.append_assoc, List.nil_append, List.cons.injEq, true_and] at h
      obtain ⟨rfl,hend⟩ := rawElems_inj ih (readable_arr.mp ha) (readable_arr.mp hb) h
      exact ⟨rfl,hend⟩
    | bool b => cases b <;> cases hkind
    | _ => cases hkind
  | obj fields ih =>
    intro b ha hb s t _ _ h
    have hkind := kind_eq h
    cases b with
    | obj fields' =>
      rw [raw_obj, raw_obj] at h
      simp only [List.cons_append, List.append_assoc, List.nil_append, List.cons.injEq, true_and] at h
      obtain ⟨rfl,hend⟩ := rawFields_inj ih (readable_obj.mp ha) (readable_obj.mp hb) h
      exact ⟨rfl,hend⟩
    | bool b => cases b <;> cases hkind
    | _ => cases hkind

/-- Plain documents that jsonb keeps as different values have different texts. -/
theorem raw_inj {a b : Json} (ha : Readable a) (hb : Readable b) (h : raw a = raw b) : a = b := by
  have hstops : Stops [] := by
    rintro c hc
    cases hc
  exact (readOnce a b ha hb [] [] hstops hstops (by rw [h])).1

end Reading

section Casts

theorem all_plain_marks (s : String) : (marks s).all Cell.plain := by
  simp [marks, Cell.plain]

theorem all_plain_separator (first : Bool) : (separator first).all Cell.plain := by
  cases first <;> rfl

theorem all_plain_quoted (s : String) : (quoted s).all Cell.plain = s.toList.all plainChar := by
  simp [quoted, Cell.plain, Function.comp_def]

theorem all_plain_elemCells {elems : List Json}
    (h : ∀ e ∈ elems, (cells e).all Cell.plain = e.all plainTexts) (first : Bool) :
    (elemCells first elems).all Cell.plain = elems.all fun e => e.all plainTexts := by
  induction elems generalizing first with
  | nil => rfl
  | cons x rest ih =>
    rw [elemCells, List.all_append, List.all_append, all_plain_separator, h x List.mem_cons_self,
      ih fun e he => h e (List.mem_cons_of_mem _ he)]
    rfl

theorem all_plain_fieldCells {fields : List (String × Json)}
    (h : ∀ f ∈ fields, (cells f.2).all Cell.plain = f.2.all plainTexts) (first : Bool) :
    (fieldCells first fields).all Cell.plain =
      fields.all fun f => f.1.toList.all plainChar && f.2.all plainTexts := by
  induction fields generalizing first with
  | nil => rfl
  | cons f rest ih =>
    obtain ⟨k,v⟩ := f
    have hv : (cells v).all Cell.plain = v.all plainTexts := h (k,v) List.mem_cons_self
    rw [fieldCells, List.all_append, List.all_append, List.all_append, List.all_append,
      all_plain_separator, all_plain_quoted, all_plain_marks, hv,
      ih fun f hf => h f (List.mem_cons_of_mem _ hf), List.all_cons, Bool.and_assoc]
    rfl

theorem all_plain_cells (j : Json) : (cells j).all Cell.plain = j.all plainTexts := by
  induction j using Json.induction with
  | null => rfl
  | bool b => cases b <;> rfl
  | num m e =>
    rw [cells, List.all_map]
    exact List.all_eq_true.mpr fun _ _ => rfl
  | str s => exact all_plain_quoted s
  | arr elems ih =>
    have helems := all_plain_elemCells ih true
    rw [cells, List.all_append, List.all_cons, helems, Bool.eq_iff_iff, Json.all_arr]
    simp [Cell.plain, plainTexts]
  | obj fields ih =>
    have hfields := all_plain_fieldCells ih true
    rw [cells, List.all_append, List.all_cons, hfields, Bool.eq_iff_iff, Json.all_obj]
    simp only [Cell.plain, plainTexts, List.all_eq_true, Bool.and_eq_true, List.all_cons, List.all_nil,
      Bool.and_true, true_and]
    exact ⟨fun h => ⟨fun f hf => (h f hf).1,fun f hf => (h f hf).2⟩,
      fun h f hf => ⟨h.1 f hf,h.2 f hf⟩⟩

/-- The notation has no backslash. -/
def markOk : Cell → Bool
  | .mark c => c ≠ '\x5c'
  | .content _ => true

theorem all_markOk_cells (j : Json) : (cells j).all markOk := by
  have hseparator : ∀ first, (separator first).all markOk := by
    rintro (_ | _) <;> rfl
  have hquoted : ∀ s, (quoted s).all markOk := by
    intro s
    simp [quoted, markOk]
  induction j using Json.induction with
  | null => rfl
  | bool b => cases b <;> rfl
  | num m e =>
    rw [cells, List.all_map]
    apply List.all_eq_true.mpr
    intro c hc
    apply decide_eq_true
    rintro rfl
    cases numberChar_numberText _ hc
  | str s => exact hquoted s
  | arr elems ih =>
    have helems : ∀ first, (elemCells first elems).all markOk := by
      induction elems with
      | nil => exact fun _ => rfl
      | cons x rest hrest =>
        intro first
        rw [elemCells, List.all_append, List.all_append, hseparator, ih x List.mem_cons_self,
          hrest (fun e he => ih e (List.mem_cons_of_mem _ he)) false]
        rfl
    rw [cells, List.all_append, List.all_cons, helems]
    rfl
  | obj fields ih =>
    have hfields : ∀ first, (fieldCells first fields).all markOk := by
      induction fields with
      | nil => exact fun _ => rfl
      | cons f rest hrest =>
        obtain ⟨k,v⟩ := f
        intro first
        have hv : (cells v).all markOk := ih (k,v) List.mem_cons_self
        rw [fieldCells, List.all_append, List.all_append, List.all_append, List.all_append,
          hseparator, hquoted, hv, hrest (fun f hf => ih f (List.mem_cons_of_mem _ hf)) false]
        rfl
    rw [cells, List.all_append, List.all_cons, hfields]
    rfl

theorem canon_plainTexts (j : Json) : (canon j).all plainTexts ↔ j.all plainTexts := by
  induction j using Json.induction with
  | null => exact Iff.rfl
  | bool b => exact Iff.rfl
  | num m e => exact Iff.rfl
  | str s => exact Iff.rfl
  | arr elems ih =>
    rw [canon_arr, Json.all_arr, Json.all_arr, List.forall_mem_map]
    exact and_congr_right fun _ => forall₂_congr ih
  | obj fields ih =>
    have hperm := List.perm_insertionSort keyLE (fields.map (Prod.map id canon))
    rw [canon_obj, Json.all_obj, Json.all_obj]
    simp only [plainTexts, List.all_eq_true, hperm.mem_iff, List.forall_mem_map, Prod.map_fst,
      Prod.map_snd, id_eq]
    exact and_congr_right fun _ => forall₂_congr ih

theorem canon_withoutExponent (j : Json) : (canon j).all withoutExponent := by
  induction j using Json.induction with
  | null => rfl
  | bool b => rfl
  | num m e => exact decide_eq_true (min_le_right e 0)
  | str s => rfl
  | arr elems ih =>
    rw [canon_arr, Json.all_arr, List.forall_mem_map]
    exact ⟨rfl,ih⟩
  | obj fields ih =>
    have hperm := List.perm_insertionSort keyLE (fields.map (Prod.map id canon))
    rw [canon_obj, Json.all_obj]
    simp only [hperm.mem_iff, List.forall_mem_map, Prod.map_snd]
    exact ⟨rfl,ih⟩

/-- The bytes that are hashed, if the text of the document can be cast. -/
def hashInput (j : Json) : Option Bytes := byteaIn (jsonbText j)

theorem hashInput_eq (j : Json) : hashInput j =
    if j.all plainTexts then some ((raw (canon j)).flatMap String.utf8EncodeChar) else none := by
  have hmarks : ∀ c, Cell.mark c ∈ cells (canon j) → c ≠ '\x5c' := fun c hc =>
    of_decide_eq_true (List.all_eq_true.mp (all_markOk_cells (canon j)) _ hc)
  rw [hashInput, jsonbText, byteaIn_cells hmarks, all_plain_cells]
  exact if_congr (canon_plainTexts j) rfl rfl

/-- The bytes of a text tell its characters. -/
theorem utf8_inj {x y : List Char}
    (h : x.flatMap String.utf8EncodeChar = y.flatMap String.utf8EncodeChar) : x = y := by
  apply String.ofList_injective
  apply String.toByteArray_inj.mp
  rw [String.toByteArray_ofList, String.toByteArray_ofList]
  exact congrArg List.toByteArray h

/-- Plain documents are hashed from the same bytes if they are kept as the same value. -/
theorem hashInput_inj {a b : Json} (ha : a.all plainTexts) (hb : b.all plainTexts) :
    hashInput a = hashInput b ↔ canon a = canon b := by
  rw [hashInput_eq, hashInput_eq, if_pos ha, if_pos hb, Option.some.injEq]
  constructor
  · intro h
    exact raw_inj ⟨(canon_plainTexts a).mpr ha,canon_withoutExponent a⟩
      ⟨(canon_plainTexts b).mpr hb,canon_withoutExponent b⟩ (utf8_inj h)
  · intro h
    rw [h]

end Casts
end SafeDecoder.Jsonb
