import ClassicAlgorithms.Proofs.Graph.ColourSearch
import ClassicAlgorithms.Proofs.Graph.Completion
import ClassicAlgorithms.Proofs.Graph.Path

/-!
# The two searches agree

Both play the forest of the graph, the stack search by the rule of numbers and the
recursive search by the rule of colours, and on that forest the rules agree.
-/
namespace ClassicAlgorithms

/-- The search with an explicit stack and the recursive search by colours return
the same traversal: order of discovery, kinds, both numberings and roots. -/
theorem classify_eq_classifyByColour [Memory] {nodeCount : ℕ} {edges : List Edge} {g : Digraph}
    (h : Digraph.build nodeCount edges = .ok g) :
    ∃ t, classify g = .ok t ∧ classifyByColour nodeCount edges = .ok t := by
  obtain ⟨hg, rfl, rfl, hrows⟩ := Digraph.sound_of_build h
  obtain ⟨F, hF⟩ := exists_spans hg
  refine ⟨Spans.traversal g F, hF.classify_eq hg, ?_⟩
  rw [hF.classifyByColour_eq hg hrows.not_overflows, hF.play_byColour, Spans.traversal]

theorem classify_tangle_eq_classifyByColour :
    Digraph.build 5 [⟨0, 2⟩, ⟨2, 1⟩, ⟨1, 0⟩, ⟨0, 1⟩, ⟨2, 2⟩, ⟨0, 2⟩, ⟨3, 1⟩] = .ok .tangle ∧
      ∃ t, classify .tangle = .ok t ∧
        classifyByColour 5
          [⟨0, 2⟩, ⟨2, 1⟩, ⟨1, 0⟩, ⟨0, 1⟩, ⟨2, 2⟩, ⟨0, 2⟩, ⟨3, 1⟩] = .ok t :=
  ⟨Digraph.build_tangle, classify_eq_classifyByColour Digraph.build_tangle⟩

end ClassicAlgorithms
