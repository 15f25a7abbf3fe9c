/-!
# Faults

Operations on a structure that is already built take identifiers on trust. A
fault names the trust that was broken; it is kept apart from the errors that
describe bad input. `internal` marks a promise that the library makes to itself,
so that running out of steps is never mistaken for an answer.
-/
namespace ClassicAlgorithms

inductive Fault where
  /-- An identifier at or past the end of a table of `length` entries. -/
  | indexOutOfBounds (length index : Nat)
  /-- A table with more entries than any address space has room for. -/
  | capacityOverflow
  /-- A choice among no candidates. -/
  | emptyRange
  /-- A promise about well-formed structures that turned out to be false. -/
  | internal (promise : String)
deriving DecidableEq

def Fault.message : Fault → String
  | .indexOutOfBounds length index =>
    s!"index out of bounds: the len is {length} but the index is {index}"
  | .capacityOverflow => "capacity overflow"
  | .emptyRange => "cannot sample empty range"
  | .internal promise => promise

end ClassicAlgorithms
