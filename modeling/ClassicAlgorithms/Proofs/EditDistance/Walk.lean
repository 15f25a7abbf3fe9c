import ClassicAlgorithms.Proofs.EditDistance.Fill

/-!
# The alignment that is read off

The walk compares the three neighbours of a cell and never asks where the value of
the cell came from, nor whether the two characters agree. It still costs what the
table says: a diagonal value is larger than the two values beside it by one at most,
so a gap taken where the characters agree is paid for by what it saves.
-/
namespace ClassicAlgorithms

open EditTable

section
variable {source target : List Char} {i j : ℕ}

theorem prefixDistance_comm (source target : List Char) (i j : ℕ) :
    prefixDistance source target i j = prefixDistance target source j i :=
  distanceBack_comm _ _

/-- A diagonal value exceeds the left one by at most one. -/
theorem prefixDistance_le_left (target : List Char) (j : ℕ) (hi : i < source.length) :
    prefixDistance source target i j ≤ prefixDistance source target (i + 1) j + 1 := by
  rw [prefixDistance, prefixDistance, reverse_take_succ hi]
  exact distanceBack_le_cons_left _ _ _

/-- A diagonal value exceeds the upper one by at most one. -/
theorem prefixDistance_le_up (source : List Char) (i : ℕ) (hj : j < target.length) :
    prefixDistance source target i j ≤ prefixDistance source target i (j + 1) + 1 := by
  rw [prefixDistance_comm source, prefixDistance_comm source]
  exact prefixDistance_le_left source i hj

end

namespace Alignment

/-- The neighbour to which a step in this direction goes. -/
def Direction.neighbour (diagonal left up : ℕ) : Direction → ℕ
  | .diagonal => diagonal
  | .left => left
  | .up => up

/-- What the column of a step in this direction costs. -/
def Direction.cost (same : Bool) : Direction → ℕ
  | .diagonal => if same then 0 else 1
  | .left => 1
  | .up => 1

/-- The value of a cell is that of the preferred neighbour and the cost of the column on the
way. Where the characters agree, this takes the bounds on the diagonal. -/
theorem cellValue_eq_neighbour_add_cost (same : Bool) {diagonal left up : ℕ}
    (hleft : diagonal ≤ left + 1) (hup : diagonal ≤ up + 1) :
    cellValue same diagonal up left =
      (direction diagonal left up).neighbour diagonal left up +
        (direction diagonal left up).cost same := by
  cases same with
  | false =>
    simp only [direction, cellValue, Bool.false_eq_true, if_false]
    split_ifs <;> simp only [Direction.neighbour, Direction.cost, Bool.false_eq_true, if_false] <;>
      omega
  | true =>
    simp only [direction, cellValue, if_true]
    split_ifs <;> simp only [Direction.neighbour, Direction.cost, if_true] <;> omega

end Alignment

section
variable {source target : List Char} {i j : ℕ}

theorem cell_build (hi : i ≤ source.length) (hj : j ≤ target.length) :
    (build source target).cell i j = prefixDistance source target i j := by
  have hget := get?_build hi hj
  rw [get?, columns_build, if_pos (by omega)] at hget
  rw [cell, columns_build, Array.getD_eq_getD_getElem?, hget, Option.getD_some]

end

namespace Spells

variable {source target : List Char} {i j : ℕ} {tail : List Column}

/-- A gap above a target character. -/
theorem insert_at (hj : j < target.length) (h : Spells tail (source.drop i) (target.drop (j + 1))) :
    Spells (⟨none, target[j]⟩ :: tail) (source.drop i) (target.drop j) := by
  rw [List.drop_eq_getElem_cons hj]
  exact h.cons (by simp)

/-- A source character above a gap. -/
theorem delete_at (hi : i < source.length) (h : Spells tail (source.drop (i + 1)) (target.drop j)) :
    Spells (⟨source[i], none⟩ :: tail) (source.drop i) (target.drop j) := by
  rw [List.drop_eq_getElem_cons hi]
  exact h.cons (by simp)

/-- A source character above a target character. -/
theorem pair_at (hi : i < source.length) (hj : j < target.length)
    (h : Spells tail (source.drop (i + 1)) (target.drop (j + 1))) :
    Spells (⟨source[i], target[j]⟩ :: tail) (source.drop i) (target.drop j) := by
  rw [List.drop_eq_getElem_cons hi, List.drop_eq_getElem_cons hj]
  exact h.cons (by simp)

end Spells

namespace Alignment

variable {source target : List Char} {i j : ℕ}

/-- Where the walk goes from an inner cell, and what it pays. -/
theorem prefixDistance_of_direction (hi : i < source.length) (hj : j < target.length)
    {d : Direction}
    (hd : direction ((build source target).cell i j) ((build source target).cell (i + 1) j)
      ((build source target).cell i (j + 1)) = d) :
    prefixDistance source target (i + 1) (j + 1) =
      d.neighbour (prefixDistance source target i j) (prefixDistance source target (i + 1) j)
        (prefixDistance source target i (j + 1)) + d.cost (source[i] == target[j]) := by
  rw [cell_build hi.le hj.le, cell_build hi hj.le, cell_build hi.le hj] at hd
  rw [prefixDistance_succ (List.getElem?_eq_getElem hi) (List.getElem?_eq_getElem hj),
    cellValue_eq_neighbour_add_cost _ (prefixDistance_le_left target j hi)
      (prefixDistance_le_up source i hj), hd]

/-- Whatever the table says, the walk spells both texts. -/
theorem spells_walk (t : EditTable) {tail : List Column} (hi : i ≤ source.length)
    (hj : j ≤ target.length) (htail : Spells tail (source.drop i) (target.drop j)) :
    Spells (walk t source.toArray target.toArray i j tail) source target := by
  fun_induction walk t source.toArray target.toArray i j tail with
  | case1 tail => simpa using htail
  | case2 j tail ih =>
    have hlt : j < target.length := hj
    exact ih hi hlt.le (by simpa [hlt] using htail.insert_at hlt)
  | case3 i tail ih =>
    have hlt : i < source.length := hi
    exact ih hlt.le hj (by simpa [hlt] using htail.delete_at hlt)
  | case4 i j tail hdirection ih =>
    have hlt : i < source.length := hi
    have hlt' : j < target.length := hj
    exact ih hlt.le hlt'.le (by simpa [hlt, hlt'] using htail.pair_at hlt hlt')
  | case5 i j tail hdirection ih =>
    have hlt : j < target.length := hj
    exact ih hi hlt.le (by simpa [hlt] using htail.insert_at hlt)
  | case6 i j tail hdirection ih =>
    have hlt : i < source.length := hi
    exact ih hlt.le hj (by simpa [hlt] using htail.delete_at hlt)

/-- The columns before a cell cost what the cell says. -/
theorem mismatches_walk (tail : List Column) (hi : i ≤ source.length) (hj : j ≤ target.length) :
    mismatches (walk (build source target) source.toArray target.toArray i j tail) =
      prefixDistance source target i j + mismatches tail := by
  fun_induction walk (build source target) source.toArray target.toArray i j tail with
  | case1 tail => simp [prefixDistance_zero_left]
  | case2 j tail ih =>
    rw [ih hi (by omega), mismatches_cons, prefixDistance_zero_left (by omega),
      prefixDistance_zero_left hj]
    simp only [Column.operation, reduceCtorEq, if_false]
    omega
  | case3 i tail ih =>
    have hlt : i < source.length := hi
    rw [ih hlt.le hj, mismatches_cons, prefixDistance_zero_right hlt.le,
      prefixDistance_zero_right hi]
    simp only [List.getElem?_toArray, List.getElem?_eq_getElem hlt, Column.operation, reduceCtorEq,
      if_false]
    omega
  | case4 i j tail hdirection ih =>
    have hlt : i < source.length := hi
    have hlt' : j < target.length := hj
    rw [ih hlt.le hlt'.le, mismatches_cons, prefixDistance_of_direction hlt hlt' hdirection]
    by_cases hsame : source[i] = target[j]
    · simp [hlt, hlt', hsame, Column.operation, Direction.neighbour, Direction.cost]
    · simp [hlt, hlt', hsame, Column.operation, Direction.neighbour, Direction.cost]
      omega
  | case5 i j tail hdirection ih =>
    have hlt : i < source.length := hi
    have hlt' : j < target.length := hj
    rw [ih hi hlt'.le, mismatches_cons, prefixDistance_of_direction hlt hlt' hdirection]
    simp only [Column.operation, Direction.neighbour, Direction.cost, reduceCtorEq, if_false]
    omega
  | case6 i j tail hdirection ih =>
    have hlt : i < source.length := hi
    have hlt' : j < target.length := hj
    rw [ih hlt.le hj, mismatches_cons, prefixDistance_of_direction hlt hlt' hdirection]
    simp only [List.getElem?_toArray, List.getElem?_eq_getElem hlt, Column.operation,
      Direction.neighbour, Direction.cost, reduceCtorEq, if_false]
    omega

end Alignment

/-- Every source character is kept, substituted or deleted, and every target character is
kept, substituted or inserted. -/
theorem Spells.length_eq {columns : List Column} {a b : List Char} (h : Spells columns a b) :
    (OperationCounts.ofColumns columns).kept + (OperationCounts.ofColumns columns).substitutions +
        (OperationCounts.ofColumns columns).deletions = a.length ∧
      (OperationCounts.ofColumns columns).kept +
        (OperationCounts.ofColumns columns).substitutions +
        (OperationCounts.ofColumns columns).insertions = b.length := by
  obtain ⟨rfl, rfl, hgap⟩ := h
  induction columns with
  | nil => exact ⟨rfl, rfl⟩
  | cons c rest ih =>
    have hrest := ih fun d hd => hgap d (List.mem_cons_of_mem _ hd)
    have hc := hgap c List.mem_cons_self
    simp only [OperationCounts.ofColumns, List.map_cons, List.count_cons] at hrest ⊢
    obtain ⟨_ | x, _ | y⟩ := c
    · exact absurd rfl hc
    · simp [Column.operation]
      omega
    · simp [Column.operation]
      omega
    · by_cases hsame : x = y
      · simp [Column.operation, hsame]
        omega
      · simp [Column.operation, hsame]
        omega

/-- Every column belongs to one of the four operations. -/
theorem length_eq_sum_counts (columns : List Column) :
    columns.length = (OperationCounts.ofColumns columns).kept +
      (OperationCounts.ofColumns columns).substitutions +
      (OperationCounts.ofColumns columns).insertions +
      (OperationCounts.ofColumns columns).deletions := by
  induction columns with
  | nil => rfl
  | cons c rest ih =>
    simp only [OperationCounts.ofColumns, List.map_cons, List.count_cons, List.length_cons] at ih ⊢
    cases c.operation <;> simp <;> omega

/-- Columns without a source character are insertions, and those without a target character are
deletions. -/
theorem Spells.length_columns {columns : List Column} {a b : List Char} (h : Spells columns a b) :
    columns.length = a.length + (OperationCounts.ofColumns columns).insertions ∧
      columns.length = b.length + (OperationCounts.ofColumns columns).deletions := by
  obtain ⟨hsource, htarget⟩ := h.length_eq
  have hsum := length_eq_sum_counts columns
  constructor <;> omega

/-- The alignment spells both texts, costs what it says and as little as any alignment of
them, and accounts for each of their characters. -/
structure Alignment.Realises (a : Alignment) (source target : String) : Prop where
  spells : Spells a.columns source.toList target.toList
  edits_eq : a.counts.edits = a.distance
  least : IsLeast (alignmentCosts source.toList target.toList) a.distance
  source_length : a.counts.kept + a.counts.substitutions + a.counts.deletions = source.length
  target_length : a.counts.kept + a.counts.substitutions + a.counts.insertions = target.length

/-- The alignment of any two texts is an optimal edit script. -/
theorem realises_align (source target : String) :
    (align source target).Realises source target := by
  have hspells : Spells (align source target).columns source.toList target.toList :=
    Alignment.spells_walk _ le_rfl le_rfl (by simpa using Spells.nil)
  obtain ⟨hsource, htarget⟩ := hspells.length_eq
  have hdistance : (align source target).distance =
      distanceBack source.toList.reverse target.toList.reverse := distance_build _ _
  constructor
  · exact hspells
  · have hcost : mismatches (align source target).columns =
        prefixDistance source.toList target.toList source.toList.length target.toList.length +
          mismatches [] :=
      Alignment.mismatches_walk [] le_rfl le_rfl
    rw [Alignment.counts, edits_ofColumns, hcost, hdistance, prefixDistance, List.take_length,
      List.take_length, mismatches_nil, Nat.add_zero]
  · rw [hdistance]
    exact isLeast_distanceBack _ _
  · rw [← String.length_toList, ← hsource]
    rfl
  · rw [← String.length_toList, ← htarget]
    rfl

end ClassicAlgorithms
