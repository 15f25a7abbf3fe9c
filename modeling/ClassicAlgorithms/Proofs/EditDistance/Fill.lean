import ClassicAlgorithms.Proofs.EditDistance.Recurrence
import ClassicAlgorithms.Proofs.Table

/-!
# Filling the table

The flat array is followed by the number of cells that hold their final value. The
row-major order reaches a cell after its three neighbours, and the cells of the first
row and column are right from the beginning.
-/
namespace ClassicAlgorithms

/-- A beginning of a text, one character longer and read from the back. -/
theorem reverse_take_succ {text : List Char} {i : ℕ} (hi : i < text.length) :
    (text.take (i + 1)).reverse = text[i] :: (text.take i).reverse := by
  rw [List.take_add_one, List.getElem?_eq_getElem hi, Option.toList_some, List.reverse_append,
    List.reverse_singleton, List.singleton_append]

/-- What is left of a text from position `i` on begins with its character there. -/
theorem getElem?_and_drop_succ {text rest : List Char} {i : ℕ} {a : Char}
    (h : text.drop i = a :: rest) : text[i]? = some a ∧ text.drop (i + 1) = rest := by
  constructor
  · rw [← List.head?_drop, h, List.head?_cons]
  · rw [← List.tail_drop, h, List.tail_cons]

/-- The recurrence at a pair of prefixes. -/
def prefixDistance (source target : List Char) (i j : ℕ) : ℕ :=
  distanceBack (source.take i).reverse (target.take j).reverse

section
variable {source target : List Char} {i j : ℕ}

theorem prefixDistance_zero_left (hj : j ≤ target.length) :
    prefixDistance source target 0 j = j := by
  simp [prefixDistance, hj]

theorem prefixDistance_zero_right (hi : i ≤ source.length) :
    prefixDistance source target i 0 = i := by
  simp [prefixDistance, hi]

theorem prefixDistance_succ {a b : Char} (ha : source[i]? = some a) (hb : target[j]? = some b) :
    prefixDistance source target (i + 1) (j + 1) =
      EditTable.cellValue (a == b) (prefixDistance source target i j)
        (prefixDistance source target i (j + 1)) (prefixDistance source target (i + 1) j) := by
  obtain ⟨hi, rfl⟩ := List.getElem?_eq_some_iff.mp ha
  obtain ⟨hj, rfl⟩ := List.getElem?_eq_some_iff.mp hb
  simp only [prefixDistance, reverse_take_succ hi, reverse_take_succ hj]
  rw [distanceBack]

end

namespace EditTable

/-- The final value of the cell at a position of the flat array. -/
def finalCell (source target : List Char) (k : ℕ) : ℕ :=
  prefixDistance source target (k / (target.length + 1)) (k % (target.length + 1))

/-- The cells when the first `p` of them are final and the others as at the beginning. -/
def filledTo (source target : List Char) (p : ℕ) : Array ℕ :=
  table ((source.length + 1) * (target.length + 1)) fun k =>
    if k < p then finalCell source target k else border (target.length + 1) k

variable {source target : List Char} {i j p k : ℕ}

theorem finalCell_at (source : List Char) (i : ℕ) (hj : j ≤ target.length) :
    finalCell source target (i * (target.length + 1) + j) = prefixDistance source target i j := by
  have hlt : j < target.length + 1 := by omega
  rw [finalCell, Nat.mul_comm, Nat.mul_add_div (by omega), Nat.mul_add_mod,
    Nat.div_eq_of_lt hlt, Nat.mod_eq_of_lt hlt, Nat.add_zero]

/-- A position that is known in advance holds its final value. -/
theorem border_eq_finalCell (hi : k / (target.length + 1) ≤ source.length)
    (hk : k < target.length + 1 ∨ k % (target.length + 1) = 0) :
    border (target.length + 1) k = finalCell source target k := by
  unfold border finalCell
  split_ifs with hrow hcolumn
  · rw [Nat.div_eq_of_lt hrow, Nat.mod_eq_of_lt hrow, prefixDistance_zero_left (by omega)]
  · rw [hcolumn, prefixDistance_zero_right hi]
  · omega

/-- So does the first position of a row. -/
theorem border_eq_finalCell_row (hi : i ≤ source.length) :
    border (target.length + 1) (i * (target.length + 1)) =
      finalCell source target (i * (target.length + 1)) := by
  apply border_eq_finalCell
  · rwa [Nat.mul_div_cancel _ (by omega)]
  · exact Or.inr (Nat.mul_mod_left _ _)

/-- The cell of two prefixes is one of the flat array. -/
theorem position_lt (hi : i ≤ source.length) (hj : j ≤ target.length) :
    i * (target.length + 1) + j < (source.length + 1) * (target.length + 1) := by
  have hle := Nat.mul_le_mul_right (target.length + 1) hi
  rw [Nat.succ_mul]
  omega

theorem getElem?_filledTo (hk : k < p)
    (hsize : k < (source.length + 1) * (target.length + 1)) :
    (filledTo source target p)[k]? = some (finalCell source target k) := by
  rw [filledTo, getElem?_table hsize, if_pos hk]

theorem getD_filledTo (hk : k < p) (hsize : k < (source.length + 1) * (target.length + 1)) :
    (filledTo source target p).getD k 0 = finalCell source target k := by
  rw [filledTo, getD_table hsize, if_pos hk]

/-- Writing the final value at the first position without one. -/
theorem filledTo_setIfInBounds (source target : List Char) (p : ℕ) :
    (filledTo source target p).setIfInBounds p (finalCell source target p) =
      filledTo source target (p + 1) := by
  rw [filledTo, table_setIfInBounds, filledTo]
  congr 1
  funext k
  rw [Function.update_apply]
  by_cases hk : k = p
  · subst hk
    simp
  · rw [if_neg hk]
    have hlt : k < p ↔ k < p + 1 := by omega
    simp only [hlt]

/-- A position that is right from the beginning counts as filled at once. -/
theorem filledTo_succ_of_border
    (hborder : border (target.length + 1) p = finalCell source target p) :
    filledTo source target (p + 1) = filledTo source target p := by
  rw [filledTo, filledTo]
  congr 1
  funext k
  by_cases hk : k = p
  · subst hk
    simp [hborder]
  · have hlt : k < p ↔ k < p + 1 := by omega
    simp only [hlt]

/-- An inner cell is computed when its three neighbours are final. -/
theorem fillCell_filledTo {a b : Char} (ha : source[i]? = some a) (hb : target[j]? = some b) :
    fillCell (target.length + 1) i j (a == b)
        (filledTo source target ((i + 1) * (target.length + 1) + j + 1)) =
      filledTo source target ((i + 1) * (target.length + 1) + (j + 1) + 1) := by
  obtain ⟨hi, -⟩ := List.getElem?_eq_some_iff.mp ha
  obtain ⟨hj, -⟩ := List.getElem?_eq_some_iff.mp hb
  have hrow : (i + 1) * (target.length + 1) = i * (target.length + 1) + (target.length + 1) :=
    Nat.succ_mul _ _
  have hcell : (i + 1) * (target.length + 1) + (j + 1) <
      (source.length + 1) * (target.length + 1) := position_lt hi hj
  have hdiagonal := finalCell_at source i hj.le
  have hup : finalCell source target (i * (target.length + 1) + j + 1) =
      prefixDistance source target i (j + 1) := finalCell_at source i hj
  have hleft := finalCell_at source (i + 1) hj.le
  have hvalue : cellValue (a == b) (prefixDistance source target i j)
      (prefixDistance source target i (j + 1)) (prefixDistance source target (i + 1) j) =
      finalCell source target ((i + 1) * (target.length + 1) + (j + 1)) := by
    rw [finalCell_at source (i + 1) hj, prefixDistance_succ ha hb]
  rw [fillCell, getD_filledTo (by omega) (by omega), getD_filledTo (by omega) (by omega),
    getD_filledTo (by omega) (by omega), hdiagonal, hup, hleft, hvalue]
  exact filledTo_setIfInBounds _ _ _

/-- A row is completed from left to right. -/
theorem fillRow_filledTo {a : Char} (ha : source[i]? = some a) {rest : List Char}
    (hrest : target.drop j = rest) (hj : j ≤ target.length) :
    fillRow (target.length + 1) i a j rest
        (filledTo source target ((i + 1) * (target.length + 1) + j + 1)) =
      filledTo source target ((i + 2) * (target.length + 1)) := by
  induction rest generalizing j with
  | nil =>
    have hlength : target.length = j := le_antisymm (List.drop_eq_nil_iff.mp hrest) hj
    rw [fillRow, Nat.succ_mul (i + 1)]
    congr 1
    omega
  | cons b rest ih =>
    obtain ⟨hb, hnext⟩ := getElem?_and_drop_succ hrest
    obtain ⟨hlt, -⟩ := List.getElem?_eq_some_iff.mp hb
    rw [fillRow, fillCell_filledTo ha hb]
    exact ih hnext hlt

/-- The rows are completed from top to bottom. -/
theorem fillRows_filledTo (target : List Char) {rest : List Char} (hrest : source.drop i = rest)
    (hi : i ≤ source.length) :
    fillRows (target.length + 1) target i rest
        (filledTo source target ((i + 1) * (target.length + 1))) =
      filledTo source target ((source.length + 1) * (target.length + 1)) := by
  induction rest generalizing i with
  | nil =>
    have hlength : source.length = i := le_antisymm (List.drop_eq_nil_iff.mp hrest) hi
    rw [fillRows, hlength]
  | cons a rest ih =>
    obtain ⟨ha, hnext⟩ := getElem?_and_drop_succ hrest
    obtain ⟨hlt, -⟩ := List.getElem?_eq_some_iff.mp ha
    -- The first cell of the next row is right in advance, so the row starts at the second.
    rw [fillRows, ← filledTo_succ_of_border (border_eq_finalCell_row hlt),
      fillRow_filledTo ha List.drop_zero (by omega)]
    exact ih hnext hlt

/-- At the beginning the first row is final. -/
theorem blank_eq_filledTo (source target : List Char) :
    blank (source.length + 1) (target.length + 1) = filledTo source target (target.length + 1) := by
  rw [blank, map_range_eq_table, filledTo]
  congr 1
  funext k
  split_ifs with hk
  · apply border_eq_finalCell
    · rw [Nat.div_eq_of_lt hk]
      exact Nat.zero_le _
    · exact Or.inl hk
  · rfl

/-- Every cell of the built table holds its final value. -/
theorem cells_build (source target : List Char) :
    (build source target).cells =
      filledTo source target ((source.length + 1) * (target.length + 1)) := by
  have hfill := fillRows_filledTo target source.drop_zero (Nat.zero_le _)
  rw [Nat.zero_add, Nat.one_mul, ← blank_eq_filledTo] at hfill
  exact hfill

theorem rows_build (source target : List Char) :
    (build source target).rows = source.length + 1 := by
  rw [rows, cells_build, filledTo, size_table, columns_build, Nat.mul_div_cancel _ (by omega)]

/-- The cell of two prefixes holds their distance. -/
theorem get?_build (hi : i ≤ source.length) (hj : j ≤ target.length) :
    (build source target).get? i j = some (prefixDistance source target i j) := by
  rw [get?, columns_build, if_pos (by omega), cells_build,
    getElem?_filledTo (position_lt hi hj) (position_lt hi hj), finalCell_at source i hj]

/-- The last cell holds the distance of the full texts. -/
theorem distance_build (source target : List Char) :
    (build source target).distance = distanceBack source.reverse target.reverse := by
  have hlast := get?_build (le_refl source.length) (le_refl target.length)
  have hsize : (build source target).cells.size - 1 =
      source.length * (target.length + 1) + target.length := by
    rw [cells_build, filledTo, size_table, Nat.succ_mul]
    omega
  rw [get?, columns_build, if_pos (by omega)] at hlast
  rw [distance, Array.back?_eq_getElem?, hsize, hlast, Option.getD_some, prefixDistance,
    List.take_length, List.take_length]

end EditTable

end ClassicAlgorithms
