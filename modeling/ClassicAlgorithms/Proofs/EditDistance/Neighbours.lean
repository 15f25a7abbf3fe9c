import ClassicAlgorithms.Proofs.EditDistance.Walk

/-!
# Cells next to each other

A step to the right or downwards changes a cell by one at most, and a step along the
diagonal raises it by one or leaves it. These bounds hold together, by one induction over
both texts. They are what makes the shortcut of the table harmless: where the characters
agree only the diagonal is read, and it is still the least of the usual three candidates.
-/
namespace ClassicAlgorithms

section
variable {source target : List Char} {i j : ℕ}

theorem prefixDistance_below_le (target : List Char) (j : ℕ) (hi : i < source.length) :
    prefixDistance source target (i + 1) j ≤ prefixDistance source target i j + 1 := by
  rw [prefixDistance, prefixDistance, reverse_take_succ hi]
  exact distanceBack_cons_left_le _ _ _

theorem prefixDistance_right_le (source : List Char) (i : ℕ) (hj : j < target.length) :
    prefixDistance source target i (j + 1) ≤ prefixDistance source target i j + 1 := by
  rw [prefixDistance_comm source, prefixDistance_comm source]
  exact prefixDistance_below_le source i hj

/-- A step along the diagonal costs nothing or one. -/
theorem prefixDistance_diagonal (hi : i < source.length) (hj : j < target.length) :
    prefixDistance source target (i + 1) (j + 1) = prefixDistance source target i j ∨
      prefixDistance source target (i + 1) (j + 1) = prefixDistance source target i j + 1 := by
  have hle := distanceBack_cons_cons_le source[i] target[j] (source.take i).reverse
    (target.take j).reverse
  have hge := distanceBack_le_cons_cons source[i] target[j] (source.take i).reverse
    (target.take j).reverse
  rw [prefixDistance, prefixDistance, reverse_take_succ hi, reverse_take_succ hj]
  split_ifs at hle <;> omega

end

namespace EditTable

variable {source target : List Char} {i j : ℕ}

/-- The least of three candidates, among which the diagonal wins where it is free. -/
theorem cellValue_eq_min (same : Bool) {diagonal up left : ℕ} (hup : diagonal ≤ up + 1)
    (hleft : diagonal ≤ left + 1) :
    cellValue same diagonal up left =
      min (min (diagonal + if same then 0 else 1) (up + 1)) (left + 1) := by
  cases same with
  | false =>
    simp only [cellValue, Bool.false_eq_true, if_false]
    omega
  | true =>
    simp only [cellValue, if_true]
    omega

theorem prefixDistance_eq_min (hi : i < source.length) (hj : j < target.length) :
    prefixDistance source target (i + 1) (j + 1) =
      min (min (prefixDistance source target i j + if source[i] = target[j] then 0 else 1)
        (prefixDistance source target i (j + 1) + 1))
        (prefixDistance source target (i + 1) j + 1) := by
  have hup := prefixDistance_le_up source i hj
  have hleft := prefixDistance_le_left target j hi
  rw [prefixDistance_succ (List.getElem?_eq_getElem hi) (List.getElem?_eq_getElem hj),
    cellValue_eq_min _ hup hleft]
  simp only [beq_iff_eq]

/-- Where the characters agree, one cell is read and one is written. -/
theorem fillCell_true (columns i j : ℕ) (cells : Array ℕ) :
    fillCell columns i j true cells =
      cells.setIfInBounds ((i + 1) * columns + j + 1) (cells.getD (i * columns + j) 0) := rfl

/-- How the cells of a table for `source` and `target` differ from those next to them, and that
an inner cell is the least of three candidates, of which the step that computes it reads only the
first where the characters agree. -/
structure Neighbouring (t : EditTable) (source target : List Char) : Prop where
  right : ∀ i ≤ source.length, ∀ j < target.length, ∃ here right,
    t.get? i j = some here ∧ t.get? i (j + 1) = some right ∧ right ≤ here + 1 ∧ here ≤ right + 1
  below : ∀ i < source.length, ∀ j ≤ target.length, ∃ here below,
    t.get? i j = some here ∧ t.get? (i + 1) j = some below ∧ below ≤ here + 1 ∧ here ≤ below + 1
  diagonal : ∀ i < source.length, ∀ j < target.length, ∃ here,
    t.get? i j = some here ∧
      (t.get? (i + 1) (j + 1) = some here ∨ t.get? (i + 1) (j + 1) = some (here + 1))
  recurrence : ∀ i (hi : i < source.length) j (hj : j < target.length), ∃ diagonal up left,
    t.get? i j = some diagonal ∧ t.get? i (j + 1) = some up ∧ t.get? (i + 1) j = some left ∧
      t.get? (i + 1) (j + 1) = some
        (min (min (diagonal + if source[i] = target[j] then 0 else 1) (up + 1)) (left + 1))
  shortcut : ∀ i (hi : i < source.length) j (hj : j < target.length), source[i] = target[j] →
    ∀ cells, fillCell t.columns i j (source[i] == target[j]) cells =
      cells.setIfInBounds ((i + 1) * t.columns + j + 1) (cells.getD (i * t.columns + j) 0)

/-- Cells next to each other differ by one at most, no cell is less than the one before it on the
diagonal, and the shortcut leaves the usual recurrence true everywhere. -/
theorem neighbouring_build (source target : List Char) :
    (build source target).Neighbouring source target := by
  constructor
  · intro i hi j hj
    exact ⟨_, _, get?_build hi hj.le, get?_build hi hj, prefixDistance_right_le source i hj,
      prefixDistance_le_up source i hj⟩
  · intro i hi j hj
    exact ⟨_, _, get?_build hi.le hj, get?_build hi hj, prefixDistance_below_le target j hi,
      prefixDistance_le_left target j hi⟩
  · intro i hi j hj
    refine ⟨_, get?_build hi.le hj.le, ?_⟩
    rw [get?_build hi hj, Option.some.injEq, Option.some.injEq]
    exact prefixDistance_diagonal hi hj
  · intro i hi j hj
    refine ⟨_, _, _, get?_build hi.le hj.le, get?_build hi.le hj, get?_build hi hj.le, ?_⟩
    rw [get?_build hi hj, prefixDistance_eq_min hi hj]
  · intro i hi j hj hsame cells
    rw [beq_iff_eq.mpr hsame]
    exact fillCell_true _ i j cells

end EditTable

end ClassicAlgorithms
