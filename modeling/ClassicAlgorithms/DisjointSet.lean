import ClassicAlgorithms.Fault
import ClassicAlgorithms.Graph.Basic

/-!
# Disjoint sets

A partition of the numbers below `size`, kept as a forest of parent links with
a count of its trees beside it. A root is its own parent. `union` hangs the root
of its second argument under the root of its first and changes nothing else:
links are neither compressed nor ranked, so the forest is a record of the merges
made. Identifiers outside the partition are faults, the left one found first.
-/
namespace ClassicAlgorithms

structure DisjointSet where
  parent : Array Nat
  components : Nat
deriving DecidableEq

namespace DisjointSet

def size (d : DisjointSet) : Nat := d.parent.size

def isEmpty (d : DisjointSet) : Bool := d.size == 0

/-- Every element is a component of its own. -/
def discrete (size : Nat) : DisjointSet := ⟨Array.range size, size⟩

@[simp] theorem size_discrete (n : Nat) : (discrete n).size = n := by
  simp [discrete, DisjointSet.size]

/-- The bytes of a parent link. -/
def linkWidth : Nat := 8

/-- A memory that grants the rows of a graph grants the links between its nodes. -/
theorem grants_linkWidth [Memory] {size : Nat} (h : Memory.Grants size Digraph.rowWidth) :
    Memory.Grants size linkWidth :=
  h.mono (Nat.le_refl size) (by decide)

/-- `discrete` for a caller who promises that the links can be stored. A promise that no
memory can keep is a fault. -/
def create (size : Nat) : Except Fault DisjointSet :=
  if Memory.Overflows size linkWidth then .error .capacityOverflow else .ok (discrete size)

/-- `discrete` for a size that comes from input. -/
def tryCreate [Memory] (size : Nat) : Except GraphError DisjointSet :=
  if Memory.Grants size linkWidth then .ok (discrete size) else .error (.tooManyNodes size)

/-- The parent link of an element. -/
def parentOf (d : DisjointSet) (node : Nat) : Except Fault Nat :=
  match d.parent[node]? with
  | some up => .ok up
  | none => .error (.indexOutOfBounds d.size node)

/-- Follows parent links to a root, looking at no more than `looks` of them. -/
def climb (d : DisjointSet) : (looks : Nat) → (node : Nat) → Except Fault Nat
  | 0, _ => .error (.internal "parent links lead to a root")
  | looks + 1, node => do
    let up ← d.parentOf node
    if up = node then return node else climb d looks up

/-- The root of the component of `node`. A path without repetition looks at each
link at most once; one look more is left for an identifier that has no link. -/
def find (d : DisjointSet) (node : Nat) : Except Fault Nat :=
  d.climb (d.size + 1) node

/-- Merges two components. The flag says whether they were different. -/
def union (d : DisjointSet) (left right : Nat) : Except Fault (DisjointSet × Bool) := do
  let leftRoot ← d.find left
  let rightRoot ← d.find right
  if leftRoot = rightRoot then return (d, false)
  else return (⟨d.parent.setIfInBounds rightRoot leftRoot, d.components - 1⟩, true)

def connected (d : DisjointSet) (left right : Nat) : Except Fault Bool := do
  return (← d.find left) == (← d.find right)

/-- Merges along the edges in order, with the flag of each merge. -/
def uniteAll (d : DisjointSet) : List Edge → Except Fault (DisjointSet × List Bool)
  | [] => return (d, [])
  | e :: rest => do
    let (d, merged) ← d.union e.tail e.head
    let (d, flags) ← d.uniteAll rest
    return (d, merged :: flags)

/-- The fewest further edges that would leave at most one component. -/
def minConnectingEdges (d : DisjointSet) : Nat := d.components - 1

/-- The first endpoint that is no element, in the order tail, head, next edge. -/
def invalidEndpoint? (size : Nat) (edges : List Edge) : Option Nat :=
  (edges.flatMap fun e => [e.tail, e.head]).find? fun node => size ≤ node

/-- Checks every endpoint, then the size, and only then merges. -/
def buildCounted [Memory] (size : Nat) (edges : List Edge) :
    Except GraphError (DisjointSet × List Bool) :=
  match invalidEndpoint? size edges with
  | some node => .error (.invalidNodeId node size)
  | none => do
    let d ← tryCreate size
    match d.uniteAll edges with
    | .ok result => .ok result
    | .error fault => .error (.invariantViolation fault.message 0)

/-- The partition in which the endpoints of every edge are connected. -/
def ofEdges [Memory] (size : Nat) (edges : List Edge) : Except GraphError DisjointSet :=
  Prod.fst <$> buildCounted size edges

/-- Parent links and count, written out. -/
def forestText (d : DisjointSet) : String :=
  let links := ", ".intercalate (d.parent.toList.map toString)
  s!"DisjointSet \x7b parent: [{links}], components: {d.components} \x7d"

end DisjointSet

end ClassicAlgorithms
