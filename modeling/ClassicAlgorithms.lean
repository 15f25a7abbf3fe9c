import ClassicAlgorithms.CommandLine.Arguments
import ClassicAlgorithms.CommandLine.Command
import ClassicAlgorithms.CommandLine.Error
import ClassicAlgorithms.CommandLine.LogDirective
import ClassicAlgorithms.CommandLine.LogFilter
import ClassicAlgorithms.CommandLine.LogFormat
import ClassicAlgorithms.CommandLine.PatternDepth
import ClassicAlgorithms.CommandLine.Program
import ClassicAlgorithms.CommandLine.Report
import ClassicAlgorithms.CommandLine.Run
import ClassicAlgorithms.CommandLine.Source
import ClassicAlgorithms.CommandLine.ValuePattern
import ClassicAlgorithms.Counters
import ClassicAlgorithms.DisjointSet
import ClassicAlgorithms.EditDistance.Alignment
import ClassicAlgorithms.EditDistance.Table
import ClassicAlgorithms.Fault
import ClassicAlgorithms.Graph.Basic
import ClassicAlgorithms.Graph.Checks
import ClassicAlgorithms.Graph.ColourSearch
import ClassicAlgorithms.Graph.Fixture
import ClassicAlgorithms.Graph.Search
import ClassicAlgorithms.Graph.Traversal
import ClassicAlgorithms.Input.Error
import ClassicAlgorithms.Input.Graph
import ClassicAlgorithms.Input.TextPair
import ClassicAlgorithms.Main
import ClassicAlgorithms.Memory
import ClassicAlgorithms.Observation.Journal
import ClassicAlgorithms.Observation.Observed
import ClassicAlgorithms.Observation.Recorder
import ClassicAlgorithms.Observation.SpanTree
import ClassicAlgorithms.Proofs.CommandLine.AlignmentText
import ClassicAlgorithms.Proofs.CommandLine.Arguments
import ClassicAlgorithms.Proofs.CommandLine.LogFilter
import ClassicAlgorithms.Proofs.CommandLine.Outcome
import ClassicAlgorithms.Proofs.CommandLine.Precedence
import ClassicAlgorithms.Proofs.CommandLine.Sink
import ClassicAlgorithms.Proofs.CommandLine.Source
import ClassicAlgorithms.Proofs.CommandLine.Trace
import ClassicAlgorithms.Proofs.CommandLine.TraversalText
import ClassicAlgorithms.Proofs.CommandLine.Verdict
import ClassicAlgorithms.Proofs.Counters
import ClassicAlgorithms.Proofs.DisjointSet.Climb
import ClassicAlgorithms.Proofs.DisjointSet.Closure
import ClassicAlgorithms.Proofs.DisjointSet.Connecting
import ClassicAlgorithms.Proofs.DisjointSet.Frame
import ClassicAlgorithms.Proofs.DisjointSet.Reachable
import ClassicAlgorithms.Proofs.EditDistance.Beginnings
import ClassicAlgorithms.Proofs.EditDistance.Concatenation
import ClassicAlgorithms.Proofs.EditDistance.Extremes
import ClassicAlgorithms.Proofs.EditDistance.Fill
import ClassicAlgorithms.Proofs.EditDistance.InPlace
import ClassicAlgorithms.Proofs.EditDistance.Minimum
import ClassicAlgorithms.Proofs.EditDistance.Neighbours
import ClassicAlgorithms.Proofs.EditDistance.Recurrence
import ClassicAlgorithms.Proofs.EditDistance.Rendering
import ClassicAlgorithms.Proofs.EditDistance.Symmetry
import ClassicAlgorithms.Proofs.EditDistance.Triangle
import ClassicAlgorithms.Proofs.EditDistance.Walk
import ClassicAlgorithms.Proofs.EditDistance.WayBack
import ClassicAlgorithms.Proofs.Graph.Adjacency
import ClassicAlgorithms.Proofs.Graph.Agreement
import ClassicAlgorithms.Proofs.Graph.Ancestry
import ClassicAlgorithms.Proofs.Graph.Build
import ClassicAlgorithms.Proofs.Graph.Checks
import ClassicAlgorithms.Proofs.Graph.ColourSearch
import ClassicAlgorithms.Proofs.Graph.Completion
import ClassicAlgorithms.Proofs.Graph.Components
import ClassicAlgorithms.Proofs.Graph.Concatenation
import ClassicAlgorithms.Proofs.Graph.Cycles
import ClassicAlgorithms.Proofs.Graph.Discovery
import ClassicAlgorithms.Proofs.Graph.EdgeList
import ClassicAlgorithms.Proofs.Graph.Endpoints
import ClassicAlgorithms.Proofs.Graph.Intervals
import ClassicAlgorithms.Proofs.Graph.Invariant
import ClassicAlgorithms.Proofs.Graph.Kinds
import ClassicAlgorithms.Proofs.Graph.Path
import ClassicAlgorithms.Proofs.Graph.SpanningForest
import ClassicAlgorithms.Proofs.Graph.Subtree
import ClassicAlgorithms.Proofs.Graph.Visits
import ClassicAlgorithms.Proofs.Graph.WhitePath
import ClassicAlgorithms.Proofs.Input.GraphText
import ClassicAlgorithms.Proofs.Input.GraphWords
import ClassicAlgorithms.Proofs.Input.TextPair
import ClassicAlgorithms.Proofs.Observation.Calls
import ClassicAlgorithms.Proofs.Observation.History
import ClassicAlgorithms.Proofs.Observation.SpanTree
import ClassicAlgorithms.Proofs.Random.Draw
import ClassicAlgorithms.Proofs.Random.Fixture
import ClassicAlgorithms.Proofs.Random.Workload
import ClassicAlgorithms.Proofs.RunProfile
import ClassicAlgorithms.Proofs.Text.Layout
import ClassicAlgorithms.Proofs.Text.Line
import ClassicAlgorithms.Proofs.Text.Numeral
import ClassicAlgorithms.Proofs.Text.Trimming
import ClassicAlgorithms.Random.Draw
import ClassicAlgorithms.Random.Fixture
import ClassicAlgorithms.Random.Workload
import ClassicAlgorithms.Random.Xoshiro
import ClassicAlgorithms.RunProfile
import ClassicAlgorithms.Text.Blank
import ClassicAlgorithms.Text.Letter
import ClassicAlgorithms.Text.Line
import ClassicAlgorithms.Text.Numeral
import ClassicAlgorithms.Text.Offset
import ClassicAlgorithms.Text.Quoted
import ClassicAlgorithms.Text.Split
import ClassicAlgorithms.Text.Unprintable
import ClassicAlgorithms.Text.Utf8
