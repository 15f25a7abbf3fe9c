import ClassicAlgorithms.DisjointSet
import ClassicAlgorithms.Graph.Search

/-!
# Work counters

How much work the graph algorithms did on an input: one count for each edge that
was classified, by kind, and one for each merge that joined two components. Work
counts when it is done, so that an error does not take back what was done before it.
-/
namespace ClassicAlgorithms

structure Counters where
  classified : EdgeKind → Nat
  unions : Nat

/-- Runs the loop and puts the classifications of each turn behind those in `made`,
up to an error or the end. -/
def Search.tally (g : Digraph) : (turns : Nat) → Search → (made : Array (Nat × EdgeKind)) →
    Array (Nat × EdgeKind)
  | 0, _, made => made
  | turns + 1, s, made =>
    if s.stack.isEmpty then made
    else
      let before := s.decisions.size
      match step g s with
      | .ok next => tally g turns next (made ++ next.decisions.extract before)
      | .error _ => made

/-- The flags of the merges that are made along the edges, up to a fault or the end. -/
def DisjointSet.mergesMade (d : DisjointSet) : List Edge → List Bool
  | [] => []
  | e :: rest =>
    match d.union e.tail e.head with
    | .ok (next, merged) => merged :: next.mergesMade rest
    | .error _ => []

namespace Counters

/-- The classifications that a search makes. -/
def decisions [Memory] (nodeCount : Nat) (edges : List Edge) : Array (Nat × EdgeKind) :=
  match Digraph.build nodeCount edges with
  | .ok g => Search.tally g (Search.turnLimit g) (Search.start g) #[]
  | .error _ => #[]

/-- The merges that are made along the edges. None is begun before the endpoints and
the size have been checked. -/
def merges [Memory] (nodeCount : Nat) (edges : List Edge) : List Bool :=
  match DisjointSet.invalidEndpoint? nodeCount edges, DisjointSet.tryCreate nodeCount with
  | none, .ok d => d.mergesMade edges
  | _, _ => []

/-- Counts the work of classifying the edges and then of merging along them. -/
def ofInput [Memory] (nodeCount : Nat) (edges : List Edge) : Counters :=
  let made := decisions nodeCount edges
  { classified := fun kind => made.countP fun (_, k) => k = kind
    unions := (merges nodeCount edges).count true }

/-- The counters that were touched, by name. -/
def touched (c : Counters) : List (String × Nat) :=
  let classified := EdgeKind.all.map fun k =>
    (s!"dfs_edges_classified,kind={k.name}", c.classified k)
  (classified ++ [("disjoint_set_unions", c.unions)]).filter fun (_, n) => n ≠ 0

end Counters

end ClassicAlgorithms
