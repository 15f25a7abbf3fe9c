import ClassicAlgorithms.CommandLine.Command
import ClassicAlgorithms.CommandLine.Error
import ClassicAlgorithms.CommandLine.Report
import ClassicAlgorithms.DisjointSet
import ClassicAlgorithms.Graph.Search
import ClassicAlgorithms.Input.Graph
import ClassicAlgorithms.Input.TextPair
import ClassicAlgorithms.Observation.Observed

/-!
# Running a command

A run reads its input, parses it, calls an algorithm and reports. Each of these
stages is a span with the figures of the run as fields; a stage that fails says
so once, innermost first, and a run that succeeds ends in one event with the
result. The outcome of a run is its outcome as an observed computation.
-/
namespace ClassicAlgorithms

open Observed

/-- How inputs are read; the outside world as far as a command can see it. -/
abbrev Reader := InputSource → Except ReadFault ByteArray

namespace Observe

def figure (n : Nat) : String := toString n

def classifyTarget : String := "algokit_core::graph::classify"

def disjointSetTarget : String := "algokit_core::disjoint_set"

def commandTarget : String := "algokit_cli::cli::commands"

/-- Classification, with its size and the counts of its outcome. -/
def classification (g : Digraph) : Observed GraphError Traversal :=
  inSpan "graph.classify_edges" [("nodes", figure g.nodeCount), ("edges", figure g.edgeCount)] <|
    reporting classifyTarget GraphError.message do
      let t ← ofExcept (classify g)
      record "roots" (figure t.roots.size)
      emit (.withMessage .debug classifyTarget "edge classification completed"
        (EdgeKind.all.map fun kind => (kind.name, figure (t.count kind))))
      return t

/-- The partition of a graph, with its size and the number of its parts. -/
def partition [Memory] (nodeCount : Nat) (edges : List Edge) : Observed GraphError DisjointSet :=
  inSpan "disjoint_set.from_edges" [("node_count", figure nodeCount)] <|
    reporting disjointSetTarget GraphError.message do
      record "edges" (figure edges.length)
      let d ← ofExcept (DisjointSet.ofEdges nodeCount edges)
      emit (.withMessage .debug disjointSetTarget "disjoint set construction completed"
        [("components", figure d.components)])
      return d

/-- Alignment cannot fail, so it reports no errors. -/
def alignment (source target : String) : Observed ε Alignment :=
  inSpan "edit_distance.align" [] do
    record "source_len" (figure source.length)
    record "target_len" (figure target.length)
    let a := align source target
    record "distance" (figure a.distance)
    return a

end Observe

namespace Command

open Observe

/-- A stage of a run that reports its failure. -/
def stage (name : String) (opened : Fields) (x : Observed CommandError α) :
    Observed CommandError α :=
  inSpan name opened (reporting commandTarget CommandError.message x)

/-- The last event of a run that succeeds. -/
def completed (message : String) (fields : Fields) : Observed CommandError Unit :=
  emit (.withMessage .info commandTarget message fields)

/-- Parses a graph and records its size. -/
def readGraph (text : String) : Observed CommandError GraphInput := do
  let input ← ofExcept ((GraphInput.parse text).mapError .input)
  record "nodes" (figure input.nodeCount)
  record "edges" (figure input.edges.length)
  return input

def runDfs [Memory] (text : String) : Observed CommandError Report :=
  stage "cli.dfs" [] do
    let input ← readGraph text
    let g ← ofExcept ((Digraph.build input.nodeCount input.edges).mapError .graph)
    let t ← (classification g).mapError .graph
    completed "depth-first classification completed" [("roots", figure t.roots.size)]
    return .traversal g t

def runEditDistance (text : String) : Observed CommandError Report :=
  stage "cli.edit_distance" [] do
    let pair ← ofExcept ((TextPair.parse text).mapError .input)
    let a ← alignment pair.source pair.target
    record "distance" (figure a.distance)
    completed "edit distance completed" [("columns", figure a.columns.length)]
    return .alignment a

def runConnect [Memory] (text : String) : Observed CommandError Report :=
  stage "cli.connect" [] do
    let input ← readGraph text
    let d ← (partition input.nodeCount input.edges).mapError .graph
    completed "connectivity count completed" [("components", figure d.components)]
    return .connectivity d.components d.minConnectingEdges

/-- The command on a text. -/
def execute [Memory] : Command → String → Observed CommandError Report
  | dfs => runDfs
  | editDistance => runEditDistance
  | connect => runConnect

/-- The text of a source, if it is UTF-8. -/
def decode (read : Reader) (source : InputSource) : Except ReadFault String := do
  let bytes ← read source
  match String.fromUTF8? bytes with
  | some text => return text
  | none => throw .notUtf8

def readInput (read : Reader) (source : InputSource) : Observed CommandError String :=
  stage "cli.read_input" [("source", source.quoted)] do
    let text ← ofExcept ((decode read source).mapError (.unreadable source))
    record "bytes" (figure text.utf8ByteSize)
    return text

/-- The command on an input source. -/
def run [Memory] (command : Command) (read : Reader) (source : InputSource) :
    Observed CommandError Report :=
  stage "cli.run" [("command", command.label), ("input", source.display)] do
    let text ← readInput read source
    command.execute text

end Command

end ClassicAlgorithms
