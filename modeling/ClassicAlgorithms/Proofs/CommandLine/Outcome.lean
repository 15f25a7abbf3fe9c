import ClassicAlgorithms.CommandLine.Run
import ClassicAlgorithms.Proofs.Graph.Build

/-!
# What a command returns

Spans, fields and events are there for an observer and never change what is returned. So
a command returns what its stages return one after the other, the first failure being
the last of them.
-/
namespace ClassicAlgorithms

theorem mapError_eq_ok_iff {ε δ α : Type} {x : Except ε α} {f : ε → δ} {a : α} :
    x.mapError f = .ok a ↔ x = .ok a := by
  cases x <;> simp [Except.mapError]

namespace Observed

variable {ε δ α β : Type}

@[simp] theorem outcome_pure (a : α) : (pure a : Observed ε α).outcome = .ok a := rfl

@[simp] theorem outcome_ofExcept (x : Except ε α) : (ofExcept x).outcome = x := rfl

@[simp] theorem outcome_record (name value : String) :
    (record name value : Observed ε Unit).outcome = .ok () := rfl

@[simp] theorem outcome_emit (event : EventRecord) :
    (emit event : Observed ε Unit).outcome = .ok () := rfl

@[simp] theorem outcome_mapError (f : ε → δ) (x : Observed ε α) :
    (x.mapError f).outcome = x.outcome.mapError f := rfl

@[simp] theorem outcome_inSpan (name : String) (opened : Fields) (x : Observed ε α) :
    (inSpan name opened x).outcome = x.outcome := rfl

@[simp] theorem outcome_bind (x : Observed ε α) (f : α → Observed ε β) :
    (x >>= f).outcome = x.outcome >>= fun a => (f a).outcome := by
  change (x.bind f).outcome = _
  unfold Observed.bind
  cases x.outcome <;> rfl

@[simp] theorem outcome_reporting (target : String) (describe : ε → String) (x : Observed ε α) :
    (reporting target describe x).outcome = x.outcome := by
  unfold reporting
  split <;> simp_all

end Observed

open Observed Observe

@[simp] theorem Observe.outcome_classification (g : Digraph) :
    (classification g).outcome = classify g := by
  simp only [classification, outcome_inSpan, outcome_reporting, outcome_bind, outcome_ofExcept,
    outcome_record, outcome_emit, outcome_pure]
  cases classify g <;> rfl

@[simp] theorem Observe.outcome_partition [Memory] (nodeCount : Nat) (edges : List Edge) :
    (partition nodeCount edges).outcome = DisjointSet.ofEdges nodeCount edges := by
  simp only [partition, outcome_inSpan, outcome_reporting, outcome_bind, outcome_ofExcept,
    outcome_record, outcome_emit, outcome_pure]
  change DisjointSet.ofEdges nodeCount edges >>= pure = _
  cases DisjointSet.ofEdges nodeCount edges <;> rfl

namespace Command

@[simp] theorem outcome_stage {α : Type} (name : String) (opened : Fields)
    (x : Observed CommandError α) : (stage name opened x).outcome = x.outcome := by
  simp [stage]

@[simp] theorem outcome_readGraph (text : String) :
    (readGraph text).outcome = (GraphInput.parse text).mapError .input := by
  simp only [readGraph, outcome_bind, outcome_ofExcept, outcome_record, outcome_pure]
  cases GraphInput.parse text <;> rfl

/-- Searching a text for its traversal: parse, build, classify. -/
theorem outcome_runDfs [Memory] (text : String) :
    (runDfs text).outcome = do
      let input ← (GraphInput.parse text).mapError .input
      let g ← (Digraph.build input.nodeCount input.edges).mapError .graph
      let t ← (classify g).mapError .graph
      return .traversal g t := by
  simp only [runDfs, completed, outcome_stage, outcome_bind, outcome_readGraph, outcome_ofExcept,
    outcome_mapError, outcome_classification, outcome_emit, outcome_pure]
  rfl

theorem outcome_runDfs_eq_ok_iff [Memory] {text : String} {report : Report} :
    (runDfs text).outcome = .ok report ↔
      ∃ input g t, GraphInput.parse text = .ok input ∧
        Digraph.build input.nodeCount input.edges = .ok g ∧ classify g = .ok t ∧
        report = .traversal g t := by
  simp only [outcome_runDfs, bind_eq_ok_iff, mapError_eq_ok_iff]
  constructor
  · rintro ⟨input, hparse, g, hbuild, t, hclassify, hreport⟩
    exact ⟨input, g, t, hparse, hbuild, hclassify, (Except.ok.inj hreport).symm⟩
  · rintro ⟨input, g, t, hparse, hbuild, hclassify, rfl⟩
    exact ⟨input, hparse, g, hbuild, t, hclassify, rfl⟩

/-- Counting the connecting edges of a text: parse, then merge. -/
theorem outcome_runConnect [Memory] (text : String) :
    (runConnect text).outcome = do
      let input ← (GraphInput.parse text).mapError .input
      let d ← (DisjointSet.ofEdges input.nodeCount input.edges).mapError .graph
      return .connectivity d.components d.minConnectingEdges := by
  simp only [runConnect, completed, outcome_stage, outcome_bind, outcome_readGraph,
    outcome_mapError, outcome_partition, outcome_emit, outcome_pure]
  rfl

theorem outcome_runEditDistance_eq_ok_iff {text : String} {report : Report} :
    (runEditDistance text).outcome = .ok report ↔
      ∃ pair, TextPair.parse text = .ok pair ∧
        report = .alignment (align pair.source pair.target) := by
  rw [runEditDistance, outcome_stage, outcome_bind, outcome_ofExcept, bind_eq_ok_iff]
  refine exists_congr fun pair => and_congr mapError_eq_ok_iff ?_
  constructor
  · exact fun hreport => (Except.ok.inj hreport).symm
  · rintro rfl
    rfl

section
variable {read : Reader} {source : InputSource} {text : String}

end

end Command

end ClassicAlgorithms
