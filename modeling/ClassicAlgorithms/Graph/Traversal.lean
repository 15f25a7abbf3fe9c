import ClassicAlgorithms.Graph.Basic

/-!
# Depth-first traversals

The outcome of a depth-first search: the order of discovery, both numberings,
the kind of every edge and the roots of the forest. How a traversal is computed
is not part of this file; two independent searches produce this type.
-/
namespace ClassicAlgorithms

/-- The place of an edge relative to a depth-first forest. -/
inductive EdgeKind where
  /-- The edge discovered its head. -/
  | tree
  /-- The head is a descendant that another path had discovered before. -/
  | forward
  /-- The head is the tail itself or an ancestor still being explored. -/
  | back
  /-- The head lies in a part of the forest that was finished before. -/
  | cross
deriving DecidableEq

namespace EdgeKind

/-- All kinds in reporting order. -/
def all : List EdgeKind := [tree, forward, back, cross]

theorem mem_all (kind : EdgeKind) : kind ∈ all := by
  cases kind <;> simp [all]

def letter : EdgeKind → Char
  | tree => 't'
  | forward => 'f'
  | back => 'b'
  | cross => 'c'

def name : EdgeKind → String
  | tree => "tree"
  | forward => "forward"
  | back => "back"
  | cross => "cross"

end EdgeKind

/-- Numbers are indexed by node and start at 1; kinds are indexed by edge. -/
structure Traversal where
  discovery : Array Nat
  kinds : Array EdgeKind
  preorder : Array Nat
  postorder : Array Nat
  roots : Array Nat
deriving DecidableEq

namespace Traversal

def kind? (t : Traversal) (edge : Nat) : Option EdgeKind := t.kinds[edge]?

def preorder? (t : Traversal) (node : Nat) : Option Nat := t.preorder[node]?

def postorder? (t : Traversal) (node : Nat) : Option Nat := t.postorder[node]?

/-- How many edges are of `kind`. -/
def count (t : Traversal) (kind : EdgeKind) : Nat := t.kinds.count kind

end Traversal

end ClassicAlgorithms
