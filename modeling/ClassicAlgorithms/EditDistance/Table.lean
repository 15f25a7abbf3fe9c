/-!
# Edit-distance tables

Insertions, deletions and substitutions cost one each. Cell `(i, j)` is the cost
of turning the first `i` characters of the source into the first `j` of the
target. The cells are one flat array, row after row, filled in place: the first
row and column in advance, the rest in row-major order. Where the characters
agree the diagonal is taken without looking at the other two neighbours.
-/
namespace ClassicAlgorithms

structure EditTable where
  cells : Array Nat
  columns : Nat
deriving DecidableEq

namespace EditTable

/-- The value of an inner cell, given its three neighbours. -/
def cellValue (same : Bool) (diagonal up left : Nat) : Nat :=
  if same then diagonal else 1 + min (min diagonal up) left

/-- The values known in advance: the first row counts columns and the first
column counts rows. -/
def border (columns index : Nat) : Nat :=
  if index < columns then index
  else if index % columns = 0 then index / columns
  else 0

/-- Computes cell `(i + 1, j + 1)`. -/
def fillCell (columns i j : Nat) (same : Bool) (cells : Array Nat) : Array Nat :=
  let diagonal := cells.getD (i * columns + j) 0
  let up := cells.getD (i * columns + j + 1) 0
  let left := cells.getD ((i + 1) * columns + j) 0
  cells.setIfInBounds ((i + 1) * columns + j + 1) (cellValue same diagonal up left)

/-- Fills row `i + 1` for the source character `a`; the target from position `j`
on is still ahead. -/
def fillRow (columns i : Nat) (a : Char) : (j : Nat) → (target : List Char) → Array Nat → Array Nat
  | _, [], cells => cells
  | j, b :: rest, cells => fillRow columns i a (j + 1) rest (fillCell columns i j (a == b) cells)

/-- Fills the rows below `i`, one for each source character still ahead. -/
def fillRows (columns : Nat) (target : List Char) : (i : Nat) → (source : List Char) →
    Array Nat → Array Nat
  | _, [], cells => cells
  | i, a :: rest, cells =>
    fillRows columns target (i + 1) rest (fillRow columns i a 0 target cells)

/-- The table before any inner cell is computed. -/
def blank (rows columns : Nat) : Array Nat :=
  ((List.range (rows * columns)).map (border columns)).toArray

/-- The full table of `source` against `target`. -/
def build (source target : List Char) : EditTable :=
  let columns := target.length + 1
  ⟨fillRows columns target 0 source (blank (source.length + 1) columns), columns⟩

@[simp] theorem columns_build (source target : List Char) :
    (build source target).columns = target.length + 1 := rfl

def rows (t : EditTable) : Nat := t.cells.size / t.columns

/-- Cell `(i, j)`, or nothing outside the table. -/
def get? (t : EditTable) (i j : Nat) : Option Nat :=
  if j < t.columns then t.cells[i * t.columns + j]? else none

/-- Cell `(i, j)` of a table that is known to hold it. -/
def cell (t : EditTable) (i j : Nat) : Nat := t.cells.getD (i * t.columns + j) 0

/-- The cost for the full source and target, which is the last cell. -/
def distance (t : EditTable) : Nat := t.cells.back?.getD 0

end EditTable

/-- The fewest insertions, deletions and substitutions that turn `source` into
`target`. -/
def editDistance (source target : String) : Nat :=
  (EditTable.build source.toList target.toList).distance

end ClassicAlgorithms
