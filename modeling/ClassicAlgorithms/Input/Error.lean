import ClassicAlgorithms.Text.Numeral

/-!
# What can be wrong with an input text

Each cause carries what its message shows. Positions count tokens from one.
-/
namespace ClassicAlgorithms

inductive HeaderPart where
  | nodeCount
  | edgeCount
deriving DecidableEq

def HeaderPart.name : HeaderPart → String
  | .nodeCount => "node count"
  | .edgeCount => "edge count"

inductive InputError where
  /-- The text ended inside the header. -/
  | missingHeader (part : HeaderPart)
  /-- The text ended after `found` complete edges. -/
  | missingEdges (declared found : Nat)
  /-- A token is no numeral. -/
  | invalidInteger (token : String) (position : Nat) (reason : Text.NumeralError)
  /-- A token follows the last declared edge. -/
  | trailingInput (token : String) (declared : Nat)
  /-- There are fewer than two lines. -/
  | missingLine (found : Nat)
deriving DecidableEq

namespace InputError

/-- Stable symbolic name of the cause. -/
def code : InputError → String
  | missingHeader _ => "INPUT_MISSING_HEADER"
  | missingEdges _ _ => "INPUT_MISSING_EDGES"
  | invalidInteger _ _ _ => "INPUT_INVALID_INTEGER"
  | trailingInput _ _ => "INPUT_TRAILING_TOKENS"
  | missingLine _ => "INPUT_MISSING_LINE"

def message : InputError → String
  | missingHeader part => s!"input ended before the {part.name} in the header"
  | missingEdges declared found =>
    s!"header declares {declared} edges but input ends after {found}"
  | invalidInteger token position reason =>
    s!"token {position} (`{token}`) is not a non-negative integer: {reason.message}"
  | trailingInput token declared =>
    s!"unexpected token `{token}` after the {declared} declared edges"
  | missingLine found => s!"expected two lines of text but found {found}"

end InputError

end ClassicAlgorithms
