import ClassicAlgorithms.Proofs.Observation.Calls

/-!
# The trace of a run

Which calls a run makes follows from what its stages return: a stage that fails is the last
one, and the calls around it fail with it. The trace shows these calls, each with the figures
known by then, an error event for each that failed, and in the end one event about the report
if there is one.
-/
namespace ClassicAlgorithms

open Observed Observe

namespace Observe

/-- The call that classifies the edges of a graph. It knows the roots once it is done. -/
def classificationCalls (g : Digraph) : Calls :=
  let roots := (classify g).toOption.elim [] fun t => [("roots", figure t.roots.size)]
  .call ⟨"graph.classify_edges",
      [("nodes", figure g.nodeCount), ("edges", figure g.edgeCount)] ++ roots⟩
    (Complaint.of? classifyTarget GraphError.message (classify g)) .none .none

/-- The call that makes the partition of a graph. -/
def partitionCalls [Memory] (nodeCount : ℕ) (edges : List Edge) : Calls :=
  .call ⟨"disjoint_set.from_edges",
      [("node_count", figure nodeCount), ("edges", figure edges.length)]⟩
    (Complaint.of? disjointSetTarget GraphError.message (DisjointSet.ofEdges nodeCount edges))
    .none .none

/-- The call that aligns two texts. It returns no errors. -/
def alignmentCalls (source target : String) : Calls :=
  .call ⟨"edit_distance.align", [("source_len", figure source.length),
      ("target_len", figure target.length), ("distance", figure (align source target).distance)]⟩
    none .none .none

end Observe

namespace Command

def spanName : Command → String
  | dfs => "cli.dfs"
  | editDistance => "cli.edit_distance"
  | connect => "cli.connect"

/-- The figures that a command knows of its text. -/
def recordedFields : Command → String → Fields
  | dfs, text | connect, text => (GraphInput.parse text).toOption.elim [] fun input =>
    [("nodes", figure input.nodeCount), ("edges", figure input.edges.length)]
  | editDistance, text => (TextPair.parse text).toOption.elim [] fun pair =>
    [("distance", figure (align pair.source pair.target).distance)]

/-- The calls that a command makes: one if its text describes a graph, or two texts. -/
def innerCalls [Memory] : Command → String → Calls
  | dfs, text => (GraphInput.parse text).toOption.elim .none fun input =>
    (Digraph.build input.nodeCount input.edges).toOption.elim .none classificationCalls
  | editDistance, text => (TextPair.parse text).toOption.elim .none fun pair =>
    alignmentCalls pair.source pair.target
  | connect, text => (GraphInput.parse text).toOption.elim .none fun input =>
    partitionCalls input.nodeCount input.edges

/-- The call of a command with the calls inside it. -/
def executeCalls [Memory] (command : Command) (text : String) : Calls :=
  .call ⟨command.spanName, command.recordedFields text⟩
    (Complaint.of? commandTarget CommandError.message (command.execute text).outcome)
    (command.innerCalls text) .none

/-- The event of a run that ends with a report. -/
def completion : Report → EventRecord
  | .traversal _ t => .withMessage .info commandTarget "depth-first classification completed"
    [("roots", figure t.roots.size)]
  | .alignment a => .withMessage .info commandTarget "edit distance completed"
    [("columns", figure a.columns.length)]
  | .connectivity components _ =>
    .withMessage .info commandTarget "connectivity count completed"
      [("components", figure components)]

def completions (outcome : Except CommandError Report) : List EventRecord :=
  outcome.toOption.elim [] fun report => [completion report]

/-- The trace is that of the calls, and the only other event is that about the report. -/
def Concludes (x : Observed CommandError Report) (calls : Calls) : Prop :=
  x.Shows CommandError.message calls (completions x.outcome)

namespace Concludes

variable {α : Type} {x : Observed CommandError α} {f : α → Observed CommandError Report}
  {calls later : Calls}

theorem bind_ok (hx : x.Shows CommandError.message calls []) {a : α} (ha : x.outcome = .ok a)
    (hf : Concludes (f a) later) : Concludes (x >>= f) (calls.append later) := by
  have houtcome : (x >>= f).outcome = (f a).outcome := by rw [bind_of_ok ha]
  rw [Concludes, houtcome]
  exact hx.bind_ok ha hf

/-- A computation that ends early has no report. -/
theorem bind_error (hx : x.Shows CommandError.message calls []) {e : CommandError}
    (he : x.outcome = .error e) : Concludes (x >>= f) calls := by
  have houtcome : (x >>= f).outcome = .error e := by rw [bind_of_error he]
  rw [Concludes, houtcome]
  exact hx.bind_error he

/-- What is called later depends on the result of the first part. -/
theorem bind {δ : Type} {r : Except δ α} {wrap : δ → CommandError} {later : α → Calls}
    (hx : x.Shows CommandError.message calls []) (hr : x.outcome = r.mapError wrap)
    (hf : ∀ a, Concludes (f a) (later a)) :
    Concludes (x >>= f) (calls.append (r.toOption.elim .none later)) := by
  cases r with
  | error e =>
    show Concludes _ (calls.append .none)
    rw [Calls.append_none]
    exact bind_error hx hr
  | ok a => exact bind_ok hx hr (hf a)

theorem completed {report : Report} {message : String} {fields : Fields}
    (h : completion report = .withMessage .info commandTarget message fields) :
    Concludes (completed message fields >>= fun _ => pure report) .none := by
  show Shows _ _ _ [completion report]
  rw [h]
  exact (Shows.emit_info _ _ _ _).bind_ok rfl (Shows.pure _ _)

theorem stage {x : Observed CommandError Report} (hx : Concludes x calls) {name : String}
    {opened fields : Fields} (hfields : Fields.setAll opened x.fields = fields) :
    Concludes (stage name opened x)
      (.call ⟨name, fields⟩
        (Complaint.of? commandTarget CommandError.message (stage name opened x).outcome)
        calls .none) := by
  rw [Concludes, outcome_stage]
  exact hx.inSpan_reporting rfl hfields

end Concludes

section
variable {command : Command} {read : Reader} {source : InputSource} {text : String}
  {report : Report}

/-- The call that reads the input. -/
def readCalls (read : Reader) (source : InputSource) : Calls :=
  let bytes := (decode read source).toOption.elim [] fun text =>
    [("bytes", figure text.utf8ByteSize)]
  .call ⟨"cli.read_input", ("source", source.quoted) :: bytes⟩
    (Complaint.of? commandTarget CommandError.message (readInput read source).outcome)
    .none .none

/-- The call of a whole run: the input is read, and if that goes well, the command is called. -/
def calls [Memory] (command : Command) (read : Reader) (source : InputSource) : Calls :=
  .call ⟨"cli.run", [("command", command.label), ("input", source.display)]⟩
    (Complaint.of? commandTarget CommandError.message (command.run read source).outcome)
    ((readCalls read source).append
      ((decode read source).toOption.elim .none command.executeCalls)) .none

end

example : ((connect.calls (fun _ => .error .notFound) .stdin).failures.map fun (span, _) =>
    span.name) = ["cli.read_input", "cli.run"] := rfl

end Command

end ClassicAlgorithms
