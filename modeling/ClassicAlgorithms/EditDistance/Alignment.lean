import ClassicAlgorithms.EditDistance.Table

/-!
# Optimal alignments

An alignment writes source and target above each other, with a gap wherever one
of them has no character. It is read off a table by walking from the last cell
to the first and always stepping to the smallest of the three neighbours; among
equals the diagonal comes first, then the left cell, then the cell above, so a
pair of texts has exactly one reported alignment.
-/
namespace ClassicAlgorithms

/-- What a gap looks like in an aligned text. -/
def gap : Char := ' '

inductive Operation where
  | keep
  | substitute
  | insert
  | delete
deriving DecidableEq

def Operation.name : Operation → String
  | .keep => "Match"
  | .substitute => "Substitute"
  | .insert => "Insert"
  | .delete => "Delete"

/-- One column of an alignment; `none` is a gap. -/
structure Column where
  source : Option Char
  target : Option Char
deriving DecidableEq

def Column.operation : Column → Operation
  | ⟨some a, some b⟩ => if a = b then .keep else .substitute
  | ⟨none, _⟩ => .insert
  | ⟨some _, none⟩ => .delete

structure OperationCounts where
  kept : Nat
  substitutions : Nat
  insertions : Nat
  deletions : Nat
deriving DecidableEq

namespace OperationCounts

/-- Every column that is not a match costs one. -/
def edits (c : OperationCounts) : Nat := c.substitutions + c.insertions + c.deletions

/-- How often each operation occurs in a list of columns. -/
def ofColumns (columns : List Column) : OperationCounts :=
  let operations := columns.map Column.operation
  ⟨operations.count .keep, operations.count .substitute, operations.count .insert,
    operations.count .delete⟩

end OperationCounts

structure Alignment where
  distance : Nat
  columns : List Column
deriving DecidableEq

namespace Alignment

inductive Direction where
  | diagonal
  | left
  | up
deriving DecidableEq

/-- The cheapest of the three neighbours, ties in the order of the tests. -/
def direction (diagonal left up : Nat) : Direction :=
  let least := min (min diagonal left) up
  if least = diagonal then .diagonal else if least = left then .left else .up

/-- Walks from cell `(i, j)` to the first cell and puts the columns met on the
way before `tail`. -/
def walk (t : EditTable) (source target : Array Char) : (i j : Nat) → (tail : List Column) →
    List Column
  | 0, 0, tail => tail
  | 0, j + 1, tail => walk t source target 0 j (⟨none, target[j]?⟩ :: tail)
  | i + 1, 0, tail => walk t source target i 0 (⟨source[i]?, none⟩ :: tail)
  | i + 1, j + 1, tail =>
    match direction (t.cell i j) (t.cell (i + 1) j) (t.cell i (j + 1)) with
    | .diagonal => walk t source target i j (⟨source[i]?, target[j]?⟩ :: tail)
    | .left => walk t source target (i + 1) j (⟨none, target[j]?⟩ :: tail)
    | .up => walk t source target i (j + 1) (⟨source[i]?, none⟩ :: tail)
termination_by i j => i + j

def ofChars (source target : List Char) : Alignment :=
  let t := EditTable.build source target
  ⟨t.distance, walk t source.toArray target.toArray source.length target.length []⟩

/-- The source with gaps filled in. -/
def alignedSource (a : Alignment) : String :=
  String.ofList (a.columns.map fun c => c.source.getD gap)

/-- The target with gaps filled in. -/
def alignedTarget (a : Alignment) : String :=
  String.ofList (a.columns.map fun c => c.target.getD gap)

def counts (a : Alignment) : OperationCounts := .ofColumns a.columns

end Alignment

/-- The edit distance of two texts, character by character, and the alignment
that the tie rules pick. -/
def align (source target : String) : Alignment :=
  .ofChars source.toList target.toList

end ClassicAlgorithms
