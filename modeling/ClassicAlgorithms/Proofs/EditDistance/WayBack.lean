import ClassicAlgorithms.Proofs.EditDistance.InPlace
import ClassicAlgorithms.Proofs.EditDistance.Walk
import Mathlib.Data.Set.Function

/-!
# The way back index by index

An alignment is read off with the same care: the cells are read where they are, no index is
taken below zero, and the number of steps is limited. Each step goes to a cell of the table, so
the characters of its column are there, and the limit is never reached. A single cell is looked
up at a position that no other cell of the table has.
-/
namespace ClassicAlgorithms

open ClassicAlgorithms.Alignment (Direction direction walk)

/-- A step of the way back, with the cell it goes to. -/
structure Step where
  direction : Direction
  row : ℕ
  column : ℕ

/-- The column of the alignment that the step passes. -/
def Step.passed (source target : Array Char) : Step → Column
  | ⟨.diagonal, i, j⟩ => ⟨source[i]?, target[j]?⟩
  | ⟨.left, _, j⟩ => ⟨none, target[j]?⟩
  | ⟨.up, i, _⟩ => ⟨source[i]?, none⟩

/-- The characters of the column are there: a step to the left takes none from a source of length
`m`, and a step up none from a target of length `n`. -/
structure Step.Within (m n : ℕ) (step : Step) : Prop where
  row_lt : step.direction ≠ .left → step.row < m
  column_lt : step.direction ≠ .up → step.column < n

/-- Such a step has a gap only where it takes no character. -/
theorem Step.Within.isSome_passed {source target : List Char} {step : Step}
    (h : step.Within source.length target.length) :
    ((step.passed source.toArray target.toArray).source.isSome ↔ step.direction ≠ .left) ∧
      ((step.passed source.toArray target.toArray).target.isSome ↔ step.direction ≠ .up) := by
  obtain ⟨d, i, j⟩ := step
  have hrow := h.row_lt
  have hcolumn := h.column_lt
  cases d <;> simp_all [Step.passed]

namespace Work

def decrement : ℕ → Work ℕ
  | 0 => throw (.internal "an index stays above zero")
  | n + 1 => pure n

end Work

namespace EditTable

open Work

/-- The cheapest of the neighbours that there are. -/
def chooseDirection (columns i j : ℕ) : Work Direction :=
  if i = 0 then pure .left
  else if j = 0 then pure .up
  else do
    let diagonal ← readAt columns (← decrement i) (← decrement j)
    let left ← readAt columns i (← decrement j)
    let up ← readAt columns (← decrement i) j
    return direction diagonal left up

def stepTo (i j : ℕ) : Direction → Work Step
  | .diagonal => return ⟨.diagonal, ← decrement i, ← decrement j⟩
  | .left => return ⟨.left, i, ← decrement j⟩
  | .up => return ⟨.up, ← decrement i, j⟩

def stepBack (columns i j : ℕ) : Work Step := do stepTo i j (← chooseDirection columns i j)

/-- The steps from cell `(i, j)` to the first cell, before those that were made already. -/
def traceBack (columns : ℕ) : (limit i j : ℕ) → (steps : List Step) → Work (List Step)
  | 0, i, j, steps =>
    if i = 0 ∧ j = 0 then pure steps else throw (.internal "the way back ends")
  | limit + 1, i, j, steps =>
    if i = 0 ∧ j = 0 then pure steps
    else do
      let step ← stepBack columns i j
      traceBack columns limit step.row step.column (step :: steps)

/-- Cell `(i, j)` of a table with this many columns. -/
def lookUp (columns i j : ℕ) : Work (Option ℕ) :=
  if columns ≤ j then pure none
  else do
    let k ← locate columns i j
    return (← get).cells[k]?

variable {source target : List Char} {s : Store} {i j : ℕ}

theorem lookUp_eq {columns : ℕ} (h : i * columns + j < UInt64.size) (s : Store) :
    lookUp columns i j s = .ok (get? ⟨s.cells, columns⟩ i j) s := by
  rw [lookUp, get?, locate, if_pos h]
  by_cases hj : j < columns
  · rw [if_neg (Nat.not_le_of_lt hj), if_pos hj]
    rfl
  · rw [if_pos (Nat.le_of_not_lt hj), if_neg hj]
    rfl

/-- Nothing is found beside or below the table, and something everywhere in it. -/
theorem isSome_get?_build :
    ((build source target).get? i j).isSome ↔
      i < (build source target).rows ∧ j < (build source target).columns := by
  rw [rows_build, columns_build]
  by_cases hj : j < target.length + 1
  · by_cases hi : i < source.length + 1
    · rw [get?_build (Nat.le_of_lt_succ hi) (Nat.le_of_lt_succ hj)]
      simp [hi, hj]
    · have hout : (source.length + 1) * (target.length + 1) ≤ i * (target.length + 1) + j :=
        (Nat.mul_le_mul_right _ (Nat.le_of_not_lt hi)).trans (Nat.le_add_right _ _)
      have hnone : (build source target).get? i j = none := by
        rw [get?, columns_build, if_pos hj, cells_build, filledTo]
        simpa using hout
      simp [hnone, hi]
  · simp [get?, hj]

/-- The positions of a table tell its cells apart. -/
theorem injOn_position (rows columns : ℕ) :
    Set.InjOn (fun c : ℕ × ℕ => c.1 * columns + c.2) {c | c.1 < rows ∧ c.2 < columns} := by
  rintro ⟨i, j⟩ ⟨-, hj⟩ ⟨i', j'⟩ ⟨-, hj'⟩ heq
  have hpos : 0 < columns := Nat.zero_lt_of_lt hj
  have hrow := congrArg (· / columns) heq
  have hcolumn := congrArg (· % columns) heq
  simp only [Nat.mul_comm _ columns, Nat.mul_add_div hpos, Nat.mul_add_mod, Nat.div_eq_of_lt hj,
    Nat.div_eq_of_lt hj', Nat.mod_eq_of_lt hj, Nat.mod_eq_of_lt hj', Nat.add_zero] at hrow hcolumn
  rw [hrow, hcolumn]

/-- The step is one that the walk makes, and goes to a cell before `(i, j)`. The characters that
it passes are there. -/
structure LeadsBack (source target : List Char) (i j : ℕ) (step : Step) : Prop where
  row_le : step.row ≤ i
  column_le : step.column ≤ j
  lt : step.row + step.column < i + j
  within : step.Within source.length target.length
  walk_eq : ∀ tail, walk (build source target) source.toArray target.toArray i j tail =
    walk (build source target) source.toArray target.toArray step.row step.column
      (step.passed source.toArray target.toArray :: tail)

/-- In the first row there is only the cell to the left. -/
theorem leadsBack_left (hj : j < target.length) :
    LeadsBack source target 0 (j + 1) ⟨.left, 0, j⟩ where
  row_le := le_rfl
  column_le := Nat.le_succ j
  lt := by simp
  within := ⟨by simp, fun _ => hj⟩
  walk_eq tail := by
    rw [walk]
    rfl

/-- In the first column there is only the cell above. -/
theorem leadsBack_up (hi : i < source.length) :
    LeadsBack source target (i + 1) 0 ⟨.up, i, 0⟩ where
  row_le := Nat.le_succ i
  column_le := le_rfl
  lt := by simp
  within := ⟨fun _ => hi, by simp⟩
  walk_eq tail := by
    rw [walk]
    rfl

section
variable (hword : (source.length + 1) * (target.length + 1) < UInt64.size)
include hword

/-- The three neighbours of an inner cell are read. -/
theorem succeeds_chooseDirection (hi : i < source.length) (hj : j < target.length)
    (h : Holds source target (build source target).cells s) :
    (chooseDirection (target.length + 1) (i + 1) (j + 1)).Succeeds s fun d t =>
      d = direction ((build source target).cell i j) ((build source target).cell (i + 1) j)
        ((build source target).cell i (j + 1)) ∧
      Holds source target (build source target).cells t := by
  rw [cell_build hi.le hj.le, cell_build hi hj.le, cell_build hi.le hj]
  rw [cells_build] at h ⊢
  rw [chooseDirection, if_neg (Nat.succ_ne_zero i), if_neg (Nat.succ_ne_zero j)]
  refine (h.readAt hword hi.le hj.le (position_lt hi.le hj.le)).bind ?_
  rintro _ t ⟨rfl, h⟩
  refine (h.readAt hword hi hj.le (position_lt hi hj.le)).bind ?_
  rintro _ t ⟨rfl, h⟩
  refine (h.readAt hword hi.le hj (position_lt hi.le hj)).bind ?_
  rintro _ t ⟨rfl, h⟩
  exact succeeds_pure ⟨rfl, h⟩

theorem succeeds_stepBack (hi : i ≤ source.length) (hj : j ≤ target.length)
    (hne : ¬(i = 0 ∧ j = 0)) (h : Holds source target (build source target).cells s) :
    (stepBack (target.length + 1) i j).Succeeds s fun step t =>
      LeadsBack source target i j step ∧ Holds source target (build source target).cells t := by
  match i, j with
  | 0, 0 => exact absurd ⟨rfl, rfl⟩ hne
  | 0, j + 1 => exact ⟨⟨.left, 0, j⟩, s, rfl, leadsBack_left hj, h⟩
  | i + 1, 0 => exact ⟨⟨.up, i, 0⟩, s, rfl, leadsBack_up hi, h⟩
  | i + 1, j + 1 =>
    refine (succeeds_chooseDirection hword hi hj h).bind ?_
    rintro d t ⟨hd, h⟩
    cases d with
    | diagonal =>
      refine ⟨⟨.diagonal, i, j⟩, t, rfl, ⟨Nat.le_succ i, Nat.le_succ j, ?_, ?_, ?_⟩, h⟩
      · simp
        omega
      · exact ⟨fun _ => hi, fun _ => hj⟩
      · intro tail
        rw [walk, ← hd]
        rfl
    | left =>
      refine ⟨⟨.left, i + 1, j⟩, t, rfl, ⟨le_rfl, Nat.le_succ j, ?_, ?_, ?_⟩, h⟩
      · simp
      · exact ⟨by simp, fun _ => hj⟩
      · intro tail
        rw [walk, ← hd]
        rfl
    | up =>
      refine ⟨⟨.up, i, j + 1⟩, t, rfl, ⟨Nat.le_succ i, le_rfl, ?_, ?_, ?_⟩, h⟩
      · simp
      · exact ⟨fun _ => hi, by simp⟩
      · intro tail
        rw [walk, ← hd]
        rfl

/-- The limit is enough for the way from a cell, and the way is the walk. -/
theorem succeeds_traceBack {limit : ℕ} (hi : i ≤ source.length) (hj : j ≤ target.length)
    (hlimit : i + j ≤ limit) (steps : List Step)
    (h : Holds source target (build source target).cells s) :
    (traceBack (target.length + 1) limit i j steps).Succeeds s fun steps' t =>
      (∃ more, steps' = more ++ steps ∧ more.length ≤ i + j ∧
        ∀ step ∈ more, step.Within source.length target.length) ∧
      steps'.map (Step.passed source.toArray target.toArray) =
        walk (build source target) source.toArray target.toArray i j
          (steps.map (Step.passed source.toArray target.toArray)) ∧
      Holds source target (build source target).cells t := by
  induction limit generalizing i j s steps with
  | zero =>
    obtain ⟨rfl, rfl⟩ : i = 0 ∧ j = 0 := by omega
    rw [traceBack, if_pos ⟨rfl, rfl⟩]
    exact succeeds_pure ⟨⟨[], by simp⟩, by rw [walk], h⟩
  | succ limit ih =>
    by_cases hend : i = 0 ∧ j = 0
    · obtain ⟨rfl, rfl⟩ := hend
      rw [traceBack, if_pos ⟨rfl, rfl⟩]
      exact succeeds_pure ⟨⟨[], by simp⟩, by rw [walk], h⟩
    · rw [traceBack, if_neg hend]
      refine (succeeds_stepBack hword hi hj hend h).bind ?_
      rintro step t ⟨hstep, h⟩
      have hlt := hstep.lt
      refine (ih (hstep.row_le.trans hi) (hstep.column_le.trans hj) (by omega) (step :: steps)
        h).mono ?_
      rintro _ t ⟨⟨more, rfl, hlength, hmore⟩, hwalk, h⟩
      refine ⟨⟨more ++ [step], by simp, ?_, ?_⟩, ?_, h⟩
      · rw [List.length_append, List.length_singleton]
        omega
      · simpa [or_imp, forall_and] using ⟨hmore, hstep.within⟩
      · rw [hwalk, hstep.walk_eq, List.map_cons]

end

/-- Everything that is done with the table of two texts stays inside it. -/
structure StaysInside (source target : List Char) : Prop where
  size_eq : (build source target).cells.size = (source.length + 1) * (target.length + 1)
  /-- Nothing is accessed if no memory has room for the table. Otherwise it is filled from zeros. -/
  allocation : (buildInPlace source target).run ⟨#[], []⟩ =
    if Memory.Overflows (build source target).cells.size cellWidth then
      .error .capacityOverflow ⟨#[], []⟩
    else (fillInPlace source target).run
      ⟨Array.replicate (build source target).cells.size 0, []⟩
  /-- The table is filled by accesses inside it, and only final values are read. -/
  fill : ∃ s, (fillInPlace source target).run
      ⟨Array.replicate (build source target).cells.size 0, []⟩ = .ok () s ∧
    s.cells = (build source target).cells ∧
    (∀ access ∈ s.accesses, access.position < (build source target).cells.size) ∧
    ∀ k x, .read k x ∈ s.accesses → (build source target).cells[k]? = some x
  /-- The alignment is read off within as many steps as there are characters, by accesses inside
  the table, and each step finds the characters that it takes. -/
  wayBack : ∃ steps s,
    (traceBack (build source target).columns (source.length + target.length) source.length
      target.length []).run ⟨(build source target).cells, []⟩ = .ok steps s ∧
    steps.length ≤ source.length + target.length ∧
    (∀ access ∈ s.accesses, access.position < (build source target).cells.size) ∧
    (∀ step ∈ steps,
      ((step.passed source.toArray target.toArray).source.isSome ↔ step.direction ≠ .left) ∧
      ((step.passed source.toArray target.toArray).target.isSome ↔ step.direction ≠ .up)) ∧
    steps.map (Step.passed source.toArray target.toArray) =
      (Alignment.ofChars source target).columns
  /-- A cell is found exactly where the table has one. -/
  found : ∀ i j, i * (build source target).columns + j < UInt64.size →
    (lookUp (build source target).columns i j).run ⟨(build source target).cells, []⟩ =
        .ok ((build source target).get? i j) ⟨(build source target).cells, []⟩ ∧
      (((build source target).get? i j).isSome ↔
        i < (build source target).rows ∧ j < (build source target).columns)
  /-- No two cells have the same position. -/
  distinct : Set.InjOn (fun c : ℕ × ℕ => c.1 * (build source target).columns + c.2)
    {c | c.1 < (build source target).rows ∧ c.2 < (build source target).columns}

/-- All indices are right whenever the table has a size that fits a machine word. -/
theorem staysInside_build (hword : (source.length + 1) * (target.length + 1) < UInt64.size) :
    StaysInside source target := by
  have hsize : (build source target).cells.size = (source.length + 1) * (target.length + 1) := by
    rw [cells_build, filledTo, size_table]
  have hfinal : ∀ k < (source.length + 1) * (target.length + 1),
      (build source target).cells[k]? = some (finalCell source target k) := by
    intro k hk
    rw [cells_build, getElem?_filledTo hk hk]
  have hholds : Holds source target (build source target).cells ⟨(build source target).cells, []⟩ :=
    ⟨rfl, by simp, by simp⟩
  refine ⟨hsize, hsize ▸ run_buildInPlace source target _, ?fill, ?wayBack,
    fun i j h => ⟨lookUp_eq h _, isSome_get?_build⟩, injOn_position _ _⟩
  case fill =>
    obtain ⟨⟨⟩, s, hrun, h⟩ := succeeds_fillInPlace hword
    refine ⟨s, hsize ▸ hrun, h.cells_eq, hsize ▸ h.inside, ?_⟩
    intro k x hread
    rw [h.reads_final k x hread]
    exact hfinal k (h.inside _ hread)
  case wayBack =>
    obtain ⟨_, s, hrun, ⟨steps, rfl, hlength, hwithin⟩, hwalk, h⟩ :=
      succeeds_traceBack hword le_rfl le_rfl le_rfl [] hholds
    rw [List.append_nil] at hrun hwalk
    exact ⟨steps, s, hrun, hlength, hsize ▸ h.inside, fun step hstep =>
      (hwithin step hstep).isSome_passed, hwalk⟩

/-- The tables of two texts of different lengths and of an empty text. -/
theorem staysInside_build_unequal :
    (3 + 1) * (2 + 1) < UInt64.size ∧ StaysInside ['a', 'b', 'c'] ['b', 'd'] ∧
      (0 + 1) * (2 + 1) < UInt64.size ∧ StaysInside [] ['b', 'd'] :=
  ⟨by decide, staysInside_build (by decide), by decide, staysInside_build (by decide)⟩

end EditTable

end ClassicAlgorithms
