/-!
# How deep patterns nest

A pattern may nest up to a limit. A group, a set, a repetition, and a choice or a
sequence of two parts or more are a level each above what they hold. So are, inside
a set, a set, two items or more side by side, and each operator, which holds all
that stands in front of it.
-/
namespace ClassicAlgorithms.ValuePattern

/-- The deepest nesting that is allowed. -/
def depthLimit : Nat := 250

/-- The parts of a sequence, as far as it is read. -/
structure SequenceDepth where
  parts : Nat
  /-- The depth of all parts but the last. -/
  earlier : Nat
  last : Nat
  /-- The depth of the alternatives in front of the sequence, if there are any. -/
  alternatives : Option Nat
deriving DecidableEq

namespace SequenceDepth

def empty : SequenceDepth := ⟨0, 0, 0, none⟩

def add (d : SequenceDepth) (depth : Nat) : SequenceDepth :=
  { d with parts := d.parts + 1, earlier := max d.earlier d.last, last := depth }

/-- Puts the last part under a repetition. -/
def repeatLast (d : SequenceDepth) : SequenceDepth := { d with last := d.last + 1 }

/-- The depth of the parts in a row. A single part is no level of its own. -/
def inRow (d : SequenceDepth) : Nat :=
  if d.parts ≤ 1 then d.last else max d.earlier d.last + 1

/-- Ends an alternative and starts the next one. -/
def alternate (d : SequenceDepth) : SequenceDepth :=
  { empty with alternatives := some ((d.alternatives.getD 0).max d.inRow) }

def depth (d : SequenceDepth) : Nat :=
  match d.alternatives with
  | none => d.inRow
  | some alternatives => max alternatives d.inRow + 1

end SequenceDepth

/-- The items of a set, as far as it is read. -/
structure SetDepth where
  items : Nat
  deepest : Nat
  /-- The depth of what stands in front of the last operator, if there is one. -/
  operand : Option Nat
deriving DecidableEq

namespace SetDepth

def empty : SetDepth := ⟨0, 0, none⟩

def add (d : SetDepth) (depth : Nat) : SetDepth :=
  { d with items := d.items + 1, deepest := max d.deepest depth }

/-- The depth of the items side by side. A single item is no level of its own. -/
def sideBySide (d : SetDepth) : Nat := if d.items ≤ 1 then d.deepest else d.deepest + 1

def depth (d : SetDepth) : Nat :=
  match d.operand with
  | none => d.sideBySide
  | some operand => max operand d.sideBySide + 1

/-- Makes all that is read so far the left side of an operator. -/
def operate (d : SetDepth) : SetDepth := { empty with operand := some d.depth }

end SetDepth

end ClassicAlgorithms.ValuePattern
