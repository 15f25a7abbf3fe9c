import ClassicAlgorithms.Proofs.CommandLine.Outcome
import ClassicAlgorithms.Proofs.Graph.Completion
import ClassicAlgorithms.Proofs.Graph.Endpoints

/-!
# Graphs and partitions accept the same edges

A node count that both can store leaves one thing to be wrong with a list of edges, and
that is found by both at the same endpoint. What else a text can fail by is found while
it is parsed, which is the same for both commands; the search itself never fails. So the
two commands that read a graph succeed on the same texts, and give the same reason for
refusing the others.
-/
namespace ClassicAlgorithms

open GraphInput (endpoints)

/-- Two results are both there, or both are lacking for the same reason. -/
def SameVerdict {ε α β : Type} (x : Except ε α) (y : Except ε β) : Prop :=
  (∃ a b, x = .ok a ∧ y = .ok b) ∨ ∃ e, x = .error e ∧ y = .error e

/-- The edges make a graph and a partition, or neither because of the same endpoint, which is
the first one out of range. -/
def JudgedAlike [Memory] (size : ℕ) (edges : List Edge) : Prop :=
  (∃ g d, Digraph.build size edges = .ok g ∧ DisjointSet.ofEdges size edges = .ok d) ∨
    ∃ node, FirstOutside size (endpoints edges) node ∧
      Digraph.build size edges = .error (.invalidNodeId node size) ∧
      DisjointSet.ofEdges size edges = .error (.invalidNodeId node size)

section
variable {size : ℕ} {edges : List Edge} {input : GraphInput} {text : String}

theorem judgedAlike [Memory] (hpos : 0 < size) (hrows : Memory.Grants size Digraph.rowWidth) :
    JudgedAlike size edges := by
  rcases edges_lt_or_exists_firstOutside size edges with hin | ⟨node, hnode⟩
  · obtain ⟨g, hg⟩ := Digraph.exists_build_iff.mpr ⟨hpos, hrows, hin⟩
    obtain ⟨d, hd⟩ := DisjointSet.exists_ofEdges (DisjointSet.grants_linkWidth hrows) hin
    exact .inl ⟨g, d, hg, hd⟩
  · exact .inr ⟨node, hnode, Digraph.build_of_firstOutside hpos hrows hnode,
      DisjointSet.ofEdges_of_firstOutside hnode⟩

namespace Command

theorem sameVerdict_of_parse_error [Memory] {e : InputError}
    (h : GraphInput.parse text = .error e) :
    SameVerdict (runDfs text).outcome (runConnect text).outcome := by
  refine .inr ⟨.input e, ?_, ?_⟩
  · rw [outcome_runDfs, h]
    rfl
  · rw [outcome_runConnect, h]
    rfl

/-- On a text that is parsed, the commands part ways only where the edges are checked. -/
theorem sameVerdict_of_parse_ok [Memory] (h : GraphInput.parse text = .ok input)
    (hjudged : JudgedAlike input.nodeCount input.edges) :
    SameVerdict (runDfs text).outcome (runConnect text).outcome := by
  rcases hjudged with ⟨g, d, hg, hd⟩ | ⟨node, -, hg, hd⟩
  · obtain ⟨F, -, -, -, -, hclassify⟩ := exists_spans_of_build hg
    refine .inl ⟨.traversal g (Spans.traversal g F),
      .connectivity d.components d.minConnectingEdges, ?_, ?_⟩
    · exact outcome_runDfs_eq_ok_iff.mpr ⟨input, g, _, h, hg, hclassify, rfl⟩
    · rw [outcome_runConnect, h]
      simp [Except.mapError, bind, Except.bind, hd, pure, Except.pure]
  · refine .inr ⟨.graph (.invalidNodeId node input.nodeCount), ?_, ?_⟩
    · rw [outcome_runDfs, h]
      simp [Except.mapError, bind, Except.bind, hg]
    · rw [outcome_runConnect, h]
      simp [Except.mapError, bind, Except.bind, hd]

end Command

end

/-- Edges make a graph exactly when they make a partition, and otherwise the first endpoint out
of range is to blame in both cases. Therefore both commands that read a graph succeed on a text,
or fail with the same error. -/
theorem judgedAlike_and_sameVerdict [Memory] :
    (∀ size edges, 0 < size → Memory.Grants size Digraph.rowWidth → JudgedAlike size edges) ∧
      ∀ text, (∀ input, GraphInput.parse text = .ok input →
          0 < input.nodeCount ∧ Memory.Grants input.nodeCount Digraph.rowWidth) →
        SameVerdict (Command.runDfs text).outcome (Command.runConnect text).outcome := by
  refine ⟨fun size edges => judgedAlike, fun text hsize => ?_⟩
  cases h : GraphInput.parse text with
  | error e => exact Command.sameVerdict_of_parse_error h
  | ok input =>
    obtain ⟨hpos, hrows⟩ := hsize input h
    exact Command.sameVerdict_of_parse_ok h (judgedAlike hpos hrows)

/-- The head of the second edge is out of range, and so is the tail of the third. -/
theorem judgedAlike_and_sameVerdict_bad_head :
    (0 < 3 ∧ Memory.Grants 3 Digraph.rowWidth ∧ JudgedAlike 3 [⟨0, 1⟩, ⟨2, 7⟩, ⟨5, 0⟩]) ∧
      GraphInput.parse "3 3\n0 1\n2 7\n5 0\n" = .ok ⟨3, [⟨0, 1⟩, ⟨2, 7⟩, ⟨5, 0⟩]⟩ ∧
      SameVerdict (Command.runDfs "3 3\n0 1\n2 7\n5 0\n").outcome
        (Command.runConnect "3 3\n0 1\n2 7\n5 0\n").outcome := by
  have hrows : Memory.Grants 3 Digraph.rowWidth := by decide
  have hparse : GraphInput.parse "3 3\n0 1\n2 7\n5 0\n" =
      .ok ⟨3, [⟨0, 1⟩, ⟨2, 7⟩, ⟨5, 0⟩]⟩ := rfl
  obtain ⟨hjudged, hverdict⟩ := judgedAlike_and_sameVerdict
  refine ⟨⟨by decide, hrows, hjudged _ _ (by decide) hrows⟩, hparse, hverdict _ ?_⟩
  intro input h
  rw [hparse, Except.ok.injEq] at h
  subst h
  exact ⟨by decide, hrows⟩

end ClassicAlgorithms
