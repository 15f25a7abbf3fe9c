import ClassicAlgorithms.Memory

/-!
# Directed multigraphs

Nodes are the numbers below the node count and edges are positions in the input
list, so parallel edges and self-loops stay apart. Each node lists its outgoing
edges in input order; that order is the order in which a traversal explores
them. `Digraph.build` is the only way in from raw input and names the first
thing that is wrong with it.
-/
namespace ClassicAlgorithms

/-- A directed edge from `tail` to `head`. -/
structure Edge where
  tail : Nat
  head : Nat
deriving DecidableEq

def Edge.isSelfLoop (e : Edge) : Bool := e.tail == e.head

inductive GraphError where
  /-- There is no node from which a traversal could start. -/
  | emptyGraph
  /-- The tables for this many nodes cannot be stored. -/
  | tooManyNodes (nodeCount : Nat)
  /-- An edge names a node outside the graph. -/
  | invalidNodeId (node nodeCount : Nat)
  /-- A promise of the traversal failed at a node or an edge. -/
  | invariantViolation (invariant : String) (index : Nat)
deriving DecidableEq

namespace GraphError

/-- Stable symbolic name of the cause. -/
def code : GraphError → String
  | emptyGraph => "GRAPH_EMPTY"
  | tooManyNodes _ => "GRAPH_TOO_MANY_NODES"
  | invalidNodeId _ _ => "GRAPH_INVALID_NODE_ID"
  | invariantViolation _ _ => "GRAPH_INVARIANT_VIOLATION"

def message : GraphError → String
  | emptyGraph => "graph must contain at least one node"
  | tooManyNodes nodeCount => s!"cannot allocate storage for {nodeCount} nodes"
  | invalidNodeId node nodeCount => s!"edge references node {node}, but node_count is {nodeCount}"
  | invariantViolation invariant index =>
    s!"traversal invariant violated: {invariant} (index {index})"

end GraphError

/-- The edges in input order, and for each node the positions of its outgoing edges. -/
structure Digraph where
  edges : Array Edge
  adjacency : Array (Array Nat)
deriving DecidableEq

namespace Digraph

def nodeCount (g : Digraph) : Nat := g.adjacency.size

def edgeCount (g : Digraph) : Nat := g.edges.size

/-- The bytes of a row of outgoing edges, apart from the edges: where they are, how many
there are and how many there is room for. -/
def rowWidth : Nat := 24

/-- The outgoing edges of `node` in input order; an unknown node has none. -/
def outgoing (g : Digraph) (node : Nat) : List Nat :=
  (g.adjacency.getD node #[]).toList

/-- The graph on `nodeCount` nodes without edges. -/
def discrete (nodeCount : Nat) : Digraph :=
  ⟨#[], Array.replicate nodeCount #[]⟩

@[simp] theorem nodeCount_discrete (n : Nat) : (discrete n).nodeCount = n := by
  simp [discrete, nodeCount]

/-- Appends an edge after checking its endpoints, the tail first. -/
def addEdge (g : Digraph) (e : Edge) : Except GraphError Digraph :=
  if g.nodeCount ≤ e.tail then .error (.invalidNodeId e.tail g.nodeCount)
  else if g.nodeCount ≤ e.head then .error (.invalidNodeId e.head g.nodeCount)
  else
    let adjacency := g.adjacency.modify e.tail fun out => out.push g.edges.size
    .ok ⟨g.edges.push e, adjacency⟩

/-- Builds a graph from its edges in order. The node count is judged before any
edge is looked at. -/
def build [Memory] (nodeCount : Nat) (edges : List Edge) : Except GraphError Digraph :=
  if nodeCount = 0 then .error .emptyGraph
  else if Memory.Grants nodeCount rowWidth then edges.foldlM addEdge (discrete nodeCount)
  else .error (.tooManyNodes nodeCount)

end Digraph

end ClassicAlgorithms
