import ClassicAlgorithms.Graph.ColourSearch
import ClassicAlgorithms.Graph.Fixture
import ClassicAlgorithms.Graph.Search

/-!
# Checks of the search on a fixture

Four checks of `classify` on one fixture: it agrees with the search by colours,
its tree edges form the forest of its roots, its kinds suit the topology, and a
second run repeats the first. A check stops at the first thing that is wrong. A
graph that cannot be built fails all four; apart from that only the promise of an
acyclic topology can be broken by the fixture rather than by the search.
-/
namespace ClassicAlgorithms

inductive CheckFailure where
  /-- The fixture describes no graph. -/
  | rejected (error : GraphError)
  | unclassified (error : GraphError)
  | colourSearchFault (fault : Fault)
  | searchesDiffer
  /-- The discovery order is no arrangement of the nodes. -/
  | discovery
  /-- The head of a tree edge was discovered before its tail. -/
  | earlierHead (edge : Edge)
  /-- A root with a tree edge into it, or another node without exactly one. -/
  | treeEdgesInto (node : Nat)
  | treeEdgeCount (found : Nat)
  | firstRoot
  /-- A smaller node was still unvisited when a root was chosen. -/
  | rootTooLarge (root smaller : Nat)
  | selfLoop (node : Nat)
  /-- Back edges in a fixture that claims to be acyclic. -/
  | backEdges (found : Nat)
  | unstable
deriving DecidableEq

def CheckFailure.message : CheckFailure → String
  | rejected error => s!"graph rejected: {error.message}"
  | unclassified error => s!"classification failed: {error.message}"
  | colourSearchFault fault => s!"search by colours failed: {fault.message}"
  | searchesDiffer => "the two searches differ"
  | discovery => "the discovery order is not a permutation of the nodes"
  | earlierHead e => s!"tree edge ({e.tail}, {e.head}) does not lead to a later discovery"
  | treeEdgesInto node => s!"wrong number of tree edges into node {node}"
  | treeEdgeCount found => s!"wrong number of tree edges: {found}"
  | firstRoot => "the first tree must be rooted at node 0"
  | rootTooLarge root smaller => s!"root {root} chosen while smaller node {smaller} was unvisited"
  | selfLoop node => s!"self-loop on {node} is not a back edge"
  | backEdges found => s!"assertion failed: `(left == right)` \n  left: `{found}`,\n right: `0`"
  | unstable => "two runs differ"

/-- Fails unless the condition holds. -/
def ensure (condition : Prop) [Decidable condition] (failure : CheckFailure) :
    Except CheckFailure Unit :=
  if condition then .ok () else .error failure

@[simp] theorem ensure_eq_ok_iff {condition : Prop} [Decidable condition] {failure : CheckFailure} :
    ensure condition failure = .ok () ↔ condition := by
  unfold ensure
  split <;> simp_all

/-- Whether the preorder number of `a` is smaller than that of `b`. A node outside
the graph counts as 0, below every number. -/
def Traversal.precedes (t : Traversal) (a b : Nat) : Bool :=
  (t.preorder? a).getD 0 < (t.preorder? b).getD 0

namespace Fixture

variable [Memory]

/-- The traversal of the graph that the fixture describes. -/
def traversal (f : Fixture) : Except CheckFailure Traversal :=
  match Digraph.build f.nodeCount f.edges with
  | .error error => .error (.rejected error)
  | .ok g => (classify g).mapError .unclassified

/-- The edges with their kinds. -/
def kinds (f : Fixture) (t : Traversal) : List (Edge × EdgeKind) := f.edges.zip t.kinds.toList

def treeEdges (f : Fixture) (t : Traversal) : List Edge :=
  (f.kinds t).filterMap fun (e, kind) => if kind = .tree then some e else none

/-- The traversal is the one found by colours: same discovery order, same kinds,
same numbers. -/
def checkAgreement (f : Fixture) : Except CheckFailure Unit := do
  let t ← f.traversal
  let c ← (classifyByColour f.nodeCount f.edges).mapError .colourSearchFault
  ensure (t.discovery = c.discovery ∧ t.kinds = c.kinds) .searchesDiffer
  (List.range f.nodeCount).forM fun node =>
    ensure (t.preorder? node = c.preorder? node ∧ t.postorder? node = c.postorder? node)
      .searchesDiffer

/-- The first root is node 0, and no root was chosen while a smaller node had
still to be discovered. -/
def checkRoots (t : Traversal) : Except CheckFailure Unit := do
  ensure (t.roots[0]? = some 0) .firstRoot
  t.roots.toList.forM fun root => (List.range root).forM fun node =>
    ensure (¬ t.precedes root node) (.rootTooLarge root node)

/-- Every node is discovered once, tree edges lead to later discoveries, and each
node but the roots is entered by exactly one. -/
def checkForest (f : Fixture) : Except CheckFailure Unit := do
  let t ← f.traversal
  ensure (t.discovery.toList.mergeSort (· ≤ ·) = List.range f.nodeCount) .discovery
  let tree := f.treeEdges t
  tree.forM fun e => ensure (t.precedes e.tail e.head) (.earlierHead e)
  (List.range f.nodeCount).forM fun node =>
    ensure ((tree.countP fun e => e.head = node) = if node ∈ t.roots then 0 else 1)
      (.treeEdgesInto node)
  ensure (t.count .tree = f.nodeCount - t.roots.size) (.treeEdgeCount (t.count .tree))
  checkRoots t

/-- A self-loop is a back edge, and an acyclic graph has none. -/
def checkKinds (f : Fixture) : Except CheckFailure Unit := do
  let t ← f.traversal
  (f.kinds t).forM fun (e, kind) =>
    ensure (e.isSelfLoop → kind = .back) (.selfLoop e.tail)
  ensure (f.topology = .acyclic → t.count .back = 0) (.backEdges (t.count .back))

/-- A second run gives the same traversal. -/
def checkRepetition (f : Fixture) : Except CheckFailure Unit := do
  let first ← f.traversal
  let second ← f.traversal
  ensure (first = second) .unstable

/-- All checks in reporting order. -/
def checks : List (Fixture → Except CheckFailure Unit) :=
  [checkAgreement, checkForest, checkKinds, checkRepetition]

end Fixture

end ClassicAlgorithms
