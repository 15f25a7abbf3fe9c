import ClassicAlgorithms.DisjointSet
import ClassicAlgorithms.Random.Fixture

/-!
# Synthetic workloads

Inputs of a given size for measuring the algorithms: edge lists with endpoints
drawn evenly over all nodes, and texts over four letters. A workload is named by
its size and determined by its seed.
-/
namespace ClassicAlgorithms

inductive WorkloadError where
  | noNodes
  /-- An algorithm refused the input made for it. -/
  | graph (error : GraphError)
  | draw (fault : Fault)
deriving DecidableEq

def WorkloadError.message : WorkloadError → String
  | .noNodes => "synthetic input generation failed: node count must be greater than zero"
  | .graph error => s!"graph operation failed: {error.message}"
  | .draw fault => fault.message

structure GraphWorkload where
  nodeCount : Nat
  edgesPerNode : Nat
deriving DecidableEq

namespace GraphWorkload

def label (w : GraphWorkload) : String := s!"n={w.nodeCount},d={w.edgesPerNode}"

/-- The largest edge count that is asked for. -/
def edgeLimit : Nat := UInt64.size - 1

def edgeCount (w : GraphWorkload) : Nat := min (w.nodeCount * w.edgesPerNode) edgeLimit

end GraphWorkload

structure TextWorkload where
  length : Nat
deriving DecidableEq

def TextWorkload.label (w : TextWorkload) : String := s!"len={w.length}"

structure SyntheticGraph where
  nodeCount : Nat
  edges : List Edge
deriving DecidableEq

namespace SyntheticGraph

variable {σ : Type}

/-- Draws the edges from a source that is at `state`. -/
def generate (src : DrawSource σ) (w : GraphWorkload) (state : σ) :
    Except WorkloadError SyntheticGraph :=
  if w.nodeCount = 0 then .error .noNodes
  else
    match Draw.replicate w.edgeCount (Edge.draw src 0 w.nodeCount) state with
    | .ok (edges, _) => .ok ⟨w.nodeCount, edges⟩
    | .error fault => .error (.draw fault)

def ofSeed (w : GraphWorkload) (seed : UInt64) : Except WorkloadError SyntheticGraph :=
  generate Xoshiro.source w (.ofSeed seed)

def digraph [Memory] (s : SyntheticGraph) : Except GraphError Digraph :=
  Digraph.build s.nodeCount s.edges

/-- The components that the edges connect when their direction is ignored. -/
def partition [Memory] (s : SyntheticGraph) : Except GraphError DisjointSet :=
  DisjointSet.ofEdges s.nodeCount s.edges

end SyntheticGraph

namespace TextWorkload

variable {σ : Type}

def alphabet : List Char := ['a', 'c', 'g', 't']

def drawLetter (src : DrawSource σ) : Draw σ Char := do
  let position ← src.pick alphabet.length
  return alphabet.getD position 'a'

def draw (src : DrawSource σ) (w : TextWorkload) : Draw σ String :=
  String.ofList <$> Draw.replicate w.length (drawLetter src)

def ofSeed (w : TextWorkload) (seed : UInt64) : Except Fault String :=
  (w.draw Xoshiro.source).ofSeed seed

end TextWorkload

end ClassicAlgorithms
