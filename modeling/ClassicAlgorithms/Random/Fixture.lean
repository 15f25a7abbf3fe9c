import ClassicAlgorithms.Graph.Fixture
import ClassicAlgorithms.Random.Xoshiro

/-!
# Random fixtures

Draws a fixture of a given topology. The node count comes first, then the edges;
the order of the draws is part of the result, since it decides which fixture a
seed stands for. Odds are numbers out of 2^64.
-/
namespace ClassicAlgorithms

/-- An edge between two of the `count` nodes from `first` on, the tail drawn first. -/
def Edge.draw {σ : Type} (src : DrawSource σ) (first count : Nat) : Draw σ Edge := do
  let tail ← src.pick count
  let head ← src.pick count
  return ⟨first + tail, first + head⟩

namespace Topology

/-- Dense graphs stay small because they hold a quadratic number of edges. -/
def nodeLimit : Topology → Nat
  | dense => 20
  | _ => 48

end Topology

namespace Fixture

variable {σ : Type}

def sparseEdges (src : DrawSource σ) (nodeCount : Nat) : Draw σ (List Edge) := do
  let edgeCount ← src.between nodeCount (2 * nodeCount)
  Draw.replicate edgeCount (Edge.draw src 0 nodeCount)

/-- All ordered pairs of nodes, self-loops included, by tail and then head. -/
def allPairs (nodeCount : Nat) : List Edge :=
  (List.range nodeCount).flatMap fun tail => (List.range nodeCount).map fun head => ⟨tail, head⟩

@[simp] theorem mem_allPairs {nodeCount : Nat} {e : Edge} :
    e ∈ allPairs nodeCount ↔ e.tail < nodeCount ∧ e.head < nodeCount := by
  cases e
  simp [allPairs]

/-- The odds of an edge in a dense graph: a fraction of 2^52 is stretched to the
range from 0.4 to 0.9. The factor is the least number above one half, so that the
upper end is reached. -/
def densityOdds (numerator : Nat) : Nat :=
  let fraction := numerator.toFloat.scaleB (-52)
  let density := fraction * Float.ofBits 0x3FE0000000000001 + 0.4
  (density.scaleB 64).toUInt64.toNat

def denseEdges (src : DrawSource σ) (nodeCount : Nat) : Draw σ (List Edge) := do
  let odds := densityOdds (← src.unitStep)
  src.sift odds (allPairs nodeCount)

/-- The ordered pairs of nodes whose head is the larger one. -/
def ascendingPairs (nodeCount : Nat) : List Edge :=
  (allPairs nodeCount).filter fun e => e.tail < e.head

@[simp] theorem mem_ascendingPairs {nodeCount : Nat} {e : Edge} :
    e ∈ ascendingPairs nodeCount ↔ e.head < nodeCount ∧ e.tail < e.head := by
  simp only [ascendingPairs, List.mem_filter, mem_allPairs, decide_eq_true_eq]
  omega

/-- One in five, rounded as a 64-bit float rounds it. -/
def acyclicOdds : Nat := 3689348814741910528

/-- Shuffled, so that the input order says nothing about the direction of edges. -/
def acyclicEdges (src : DrawSource σ) (nodeCount : Nat) : Draw σ (List Edge) := do
  let edges ← src.sift acyclicOdds (ascendingPairs nodeCount)
  src.shuffle edges

/-- The first nodes of the blocks of `width` nodes. -/
def blockStarts (nodeCount width : Nat) : List Nat :=
  (List.range nodeCount).filter fun node => node % width = 0

@[simp] theorem mem_blockStarts {nodeCount width node : Nat} :
    node ∈ blockStarts nodeCount width ↔ node < nodeCount ∧ node % width = 0 := by
  simp [blockStarts]

/-- Two edges for each node of the block from `start` on. The last block may be
narrower than `width`. -/
def blockEdges (src : DrawSource σ) (nodeCount width start : Nat) : Draw σ (List Edge) :=
  let size := min width (nodeCount - start)
  Draw.replicate (2 * size) (Edge.draw src start size)

def disconnectedEdges (src : DrawSource σ) (nodeCount : Nat) : Draw σ (List Edge) := do
  let width ← src.between 1 (min nodeCount 6)
  let blocks ← (blockStarts nodeCount width).mapM (blockEdges src nodeCount width)
  return blocks.flatten

/-- Three in ten, rounded likewise. -/
def selfLoopOdds : Nat := 5534023222112865280

/-- One in four. -/
def repeatOdds : Nat := 4611686018427387904

def multigraphEdges (src : DrawSource σ) (nodeCount : Nat) : Draw σ (List Edge) := do
  let edges ← sparseEdges src nodeCount
  let loops ← src.sift selfLoopOdds ((List.range nodeCount).map fun node => ⟨node, node⟩)
  let repeated ← src.sift repeatOdds (edges ++ loops)
  return edges ++ loops ++ repeated

def drawEdges (src : DrawSource σ) : Topology → (nodeCount : Nat) → Draw σ (List Edge)
  | .sparse => sparseEdges src
  | .dense => denseEdges src
  | .acyclic => acyclicEdges src
  | .disconnected => disconnectedEdges src
  | .multigraph => multigraphEdges src

def draw (src : DrawSource σ) (topology : Topology) : Draw σ Fixture := do
  let nodeCount ← src.between 1 topology.nodeLimit
  let edges ← drawEdges src topology nodeCount
  return { topology, nodeCount, edges }

/-- The fixture that a seed stands for. -/
def ofSeed (topology : Topology) (seed : UInt64) : Except Fault Fixture :=
  (draw Xoshiro.source topology).ofSeed seed

end Fixture

end ClassicAlgorithms
