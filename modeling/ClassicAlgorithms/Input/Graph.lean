import ClassicAlgorithms.Graph.Basic
import ClassicAlgorithms.Input.Error
import ClassicAlgorithms.Text.Blank

/-!
# Graphs as text

A graph is written as blank-separated numerals: the node count, the edge count,
and then tail and head of each edge. Tokens are read one by one, so the first
bad or missing one decides. Only the shape is checked here; whether the
endpoints lie in the graph is left to those who build it.
-/
namespace ClassicAlgorithms

/-- A graph as declared by its text. -/
structure GraphInput where
  nodeCount : Nat
  edges : List Edge
deriving DecidableEq

namespace GraphInput

/-- Numerals in an input are 64-bit. -/
def numeralLimit : Nat := UInt64.size

/-- The number that the token at `position` stands for. -/
def readInteger (position : Nat) (token : List Char) : Except InputError Nat :=
  match Text.readNumeral numeralLimit token with
  | .ok value => .ok value
  | .error reason => .error (.invalidInteger (String.ofList token) position reason)

/-- Reads the edges that are still due after the first `found`. Their first
token stands at position `2 * found + 3`, behind the header. -/
def readEdges (declared : Nat) : (found : Nat) → List (List Char) → Except InputError (List Edge)
  | found, [] => if found = declared then .ok [] else .error (.missingEdges declared found)
  | found, [token] =>
    if found = declared then .error (.trailingInput (String.ofList token) declared)
    else do
      let _ ← readInteger (2 * found + 3) token
      .error (.missingEdges declared found)
  | found, first :: second :: rest =>
    if found = declared then .error (.trailingInput (String.ofList first) declared)
    else do
      let tail ← readInteger (2 * found + 3) first
      let head ← readInteger (2 * found + 4) second
      let edges ← readEdges declared (found + 1) rest
      return ⟨tail, head⟩ :: edges

/-- Reads a graph from its tokens. -/
def ofTokens : List (List Char) → Except InputError GraphInput
  | [] => .error (.missingHeader .nodeCount)
  | [first] => do
    let _ ← readInteger 1 first
    .error (.missingHeader .edgeCount)
  | first :: second :: rest => do
    let nodeCount ← readInteger 1 first
    let declared ← readInteger 2 second
    let edges ← readEdges declared 0 rest
    return ⟨nodeCount, edges⟩

def parse (text : String) : Except InputError GraphInput :=
  ofTokens (Text.tokens text.toList)

end GraphInput

end ClassicAlgorithms
