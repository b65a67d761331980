import Mathlib.Data.List.Basic

/-! # A list in pages

Pages of one size that start at multiples of it. Read in order until nothing
follows, they give the list once, and their number is known from its length.
-/
namespace SafeDecoder.Paging
variable {α : Type}

/-- `OFFSET offset LIMIT limit` -/
def page (limit offset : ℕ) (rows : List α) : List α := (rows.drop offset).take limit

/-- An empty list has one page. -/
def pageCount (limit count : ℕ) : ℕ := max 1 ((count + limit - 1) / limit)

/-- The pages from the one with number `i` on, `n` of them. -/
def pagesFrom (limit : ℕ) (rows : List α) (i n : ℕ) : List (List α) :=
  (List.range' i n).map fun j => page limit (j * limit) rows

theorem page_append_drop (limit offset : ℕ) (rows : List α) :
    page limit offset rows ++ rows.drop (offset + limit) = rows.drop offset := by
  rw [page, ← List.drop_drop, List.take_append_drop]

theorem length_page_le (limit offset : ℕ) (rows : List α) : (page limit offset rows).length ≤ limit :=
  List.length_take_le _ _

/-- Rows that are asked for beyond the end are none. -/
theorem flatten_pagesFrom {limit : ℕ} {rows : List α} {i n : ℕ}
    (h : rows.length ≤ (i + n) * limit) : (pagesFrom limit rows i n).flatten = rows.drop (i * limit) := by
  induction n generalizing i with
  | zero => simpa [pagesFrom] using h
  | succ n ih =>
    have hrest : rows.length ≤ (i + 1 + n) * limit := by rwa [Nat.add_assoc, Nat.add_comm 1]
    have hnext : (i + 1) * limit = i * limit + limit := Nat.succ_mul i limit
    rw [pagesFrom, List.range'_succ, List.map_cons, List.flatten_cons]
    change page limit (i * limit) rows ++ (pagesFrom limit rows (i + 1) n).flatten = _
    rw [ih hrest, hnext, page_append_drop]

/-- The page with number `i` is the last one when no row follows. -/
theorem last_iff {limit count i : ℕ} (hlimit : 0 < limit) (hi : i < pageCount limit count) :
    i + 1 = pageCount limit count ↔ count ≤ i * limit + limit := by
  have hceil : (count + limit - 1) / limit ≤ i + 1 ↔ count ≤ i * limit + limit := by
    rw [← Nat.lt_succ_iff, Nat.div_lt_iff_lt_mul hlimit, Nat.succ_mul, Nat.succ_mul]
    omega
  rw [← hceil]
  unfold pageCount at hi ⊢
  omega

/-- No page starts beyond the end. -/
theorem offset_le {limit count i : ℕ} (hlimit : 0 < limit) (hi : i < pageCount limit count) :
    i * limit ≤ count := by
  by_contra hbeyond
  obtain ⟨j,rfl⟩ : ∃ j, i = j + 1 := Nat.exists_eq_succ_of_ne_zero (by rintro rfl; omega)
  have hend := (last_iff hlimit (show j < pageCount limit count by omega)).mpr
    (by rw [Nat.succ_mul] at hbeyond; omega)
  omega

/-- The last page reaches the end. -/
theorem count_le {limit : ℕ} (hlimit : 0 < limit) (count : ℕ) :
    count ≤ pageCount limit count * limit := by
  have hpos : 0 < pageCount limit count := Nat.lt_of_lt_of_le Nat.one_pos (Nat.le_max_left _ _)
  obtain ⟨i,hi⟩ := Nat.exists_eq_add_of_lt hpos
  have hlast : i + 1 = pageCount limit count := by omega
  have hend := (last_iff hlimit (by omega)).mp hlast
  rw [← hlast, Nat.succ_mul]
  exact hend

end SafeDecoder.Paging
