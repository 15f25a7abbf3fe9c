import ClassicAlgorithms.Proofs.Graph.StackSearch

/-!
# The stack search comes to an end

The run from the start plays the forest of the graph and ends with an empty
stack. On the way each edge is pushed, examined, recorded and retired once, and
each root has one seed, so that there is a turn for each examination and each
retirement and the turn limit is never met. No other run exists: a turn depends
on nothing but the state before it.
-/
namespace ClassicAlgorithms

namespace Search

/-- The frames pushed in a run from the start, the first seed included. -/
def pushedIn (g : Digraph) (turns : List Turn) : List Frame :=
  (start g).stack ++ turns.flatMap Turn.pushed

/-- The frames examined in a run, in order. -/
def examinedIn (turns : List Turn) : List Frame := turns.filterMap Turn.examined?

/-- The frames retired in a run, in order. -/
def retiredIn (turns : List Turn) : List Frame := turns.filterMap Turn.retired?

/-- The classifications recorded in a run, in order. -/
def recordedIn (turns : List Turn) : List (ℕ × EdgeKind) := turns.flatMap Turn.recorded

/-- Each edge of the graph goes once through every station, and each root of the
traversal has one seed. -/
structure EachOnce (g : Digraph) (turns : List Turn) (t : Traversal) : Prop where
  pushed : ((pushedIn g turns).filterMap Frame.edge).Perm (List.range g.edgeCount)
  examined : ((examinedIn turns).filterMap Frame.edge).Perm (List.range g.edgeCount)
  recorded : ((recordedIn turns).map Prod.fst).Perm (List.range g.edgeCount)
  retired : ((retiredIn turns).filterMap Frame.edge).Perm (List.range g.edgeCount)
  seeds : ((pushedIn g turns).filterMap Frame.root?).Perm t.roots.toList
  roots_nodup : t.roots.toList.Nodup

/-- The first seed waits on the stack. -/
theorem stage_start (g : Digraph) : ∀ f ∈ (start g).stack, f.stage = .pending := by
  intro f hf
  simp only [start, reseed_eq, empty, List.append_nil, nextSeed] at hf
  split_ifs at hf with h
  · rw [List.mem_singleton.mp hf]
    rfl
  · simp at hf

namespace Turns

variable {g : Digraph} {turns : List Turn} {t : Search}

theorem stage_pushedIn (h : Turns g (start g) turns t) :
    ∀ f ∈ pushedIn g turns, f.stage = .pending := by
  intro f hf
  rcases List.mem_append.mp hf with hf | hf
  · exact stage_start g f hf
  · exact h.account.pushed_pending f hf

/-- When nothing waits any more, all pushed frames have been examined. -/
theorem examinedIn_perm (h : Turns g (start g) turns t) (hdone : t.stack = []) :
    (examinedIn turns).Perm (pushedIn g turns) := by
  have hwaiting : (start g).waiting = (start g).stack :=
    List.filter_eq_self.mpr (by simpa using stage_start g)
  have := h.account.examined_perm
  rw [hwaiting, waiting, hdone, List.filter_nil, List.append_nil] at this
  exact this.symm

/-- When nothing is left on the stack, all pushed frames have been retired. -/
theorem retiredIn_perm (h : Turns g (start g) turns t) (hdone : t.stack = []) :
    ((retiredIn turns).map Frame.renewed).Perm (pushedIn g turns) := by
  have hrenewed : (pushedIn g turns).map Frame.renewed = pushedIn g turns := by
    rw [List.map_congr_left (g := id), List.map_id]
    intro f hf
    rw [Frame.renewed, ← stage_pushedIn h f hf]
    rfl
  have := h.account.retired_perm
  rw [hdone, List.append_nil] at this
  rw [← hrenewed]
  exact this.symm

end Turns

end Search

open Search

namespace Spans

variable {g : Digraph} {F : Forest} {turns : List Turn}

/-- The state in which the search of a graph ends. -/
def final (g : Digraph) (F : Forest) : Search := ofProgress g (F.play byNumber .start) []

theorem recordedIn_eq (h : Turns g (start g) turns (final g F)) :
    recordedIn turns = (F.play byNumber .start).made := by
  have := h.account.decisions_eq
  simpa [recordedIn, start, reseed_eq, empty, final, ofProgress] using this.symm

theorem roots_examinedIn (h : Turns g (start g) turns (final g F)) :
    (examinedIn turns).filterMap Frame.root? = F.roots := by
  have := h.account.roots_eq
  simpa [examinedIn, start, reseed_eq, empty, final, ofProgress, Progress.start] using this.symm

/-- The traversal of the forest. -/
def traversal (g : Digraph) (F : Forest) : Traversal :=
  (F.play byNumber .start).traversal g.nodeCount g.edgeCount

@[simp] theorem roots_traversal (g : Digraph) (F : Forest) :
    (traversal g F).roots.toList = F.roots := by
  simp [traversal, Progress.traversal, Progress.start]

@[simp] theorem mem_roots_traversal {v : ℕ} : v ∈ (traversal g F).roots ↔ v ∈ F.roots := by
  rw [← roots_traversal g F, Array.mem_toList_iff]

theorem eachOnce (hF : Spans g F) (hg : g.Sound) (h : Turns g (start g) turns (final g F)) :
    EachOnce g turns (traversal g F) := by
  have hrecorded : ((recordedIn turns).map Prod.fst).Perm (List.range g.edgeCount) := by
    rw [recordedIn_eq h]
    exact (hF.complete_play hg byNumber).made_perm
  have hexamined : ((examinedIn turns).filterMap Frame.edge).Perm (List.range g.edgeCount) := by
    rw [examinedIn, ← h.account.recorded_eq]
    exact hrecorded
  have hpushed := ((h.examinedIn_perm rfl).filterMap Frame.edge).symm.trans hexamined
  have hretired := (h.retiredIn_perm rfl).filterMap Frame.edge
  simp only [List.filterMap_map, Function.comp_def, Frame.edge_renewed] at hretired
  exact {
    pushed := hpushed
    examined := hexamined
    recorded := hrecorded
    retired := hretired.trans hpushed
    seeds := by
      rw [roots_traversal, ← roots_examinedIn h]
      exact ((h.examinedIn_perm rfl).filterMap Frame.root?).symm
    roots_nodup := by
      rw [roots_traversal]
      exact F.roots_sublist.nodup (Explores.nodes_nodup hF) }

theorem length_le_turnLimit (hF : Spans g F) (hg : g.Sound)
    (h : Turns g (start g) turns (final g F)) : turns.length ≤ turnLimit g := by
  have honce := hF.eachOnce hg h
  have hexamined := (h.examinedIn_perm rfl).length_eq
  have hretired := (h.retiredIn_perm rfl).length_eq
  have hpushed := length_eq_length_filterMap_add (pushedIn g turns) Frame.edge Frame.root?
    fun f => by cases hf : f.edge <;> simp [Frame.root?, hf]
  have hedges := honce.pushed.length_eq
  have hseeds := honce.seeds.length_eq
  have hroots := F.roots_sublist.length_le
  have hnodes := (hF.nodes_perm hg).length_eq
  have hturns := h.length_eq
  simp only [examinedIn, retiredIn, List.length_map, List.length_range, roots_traversal] at *
  unfold turnLimit
  omega

/-- The search is complete before the turns run out. -/
theorem complete_eq (hF : Spans g F) (hg : g.Sound) : complete g = .ok (final g F) := by
  obtain ⟨turns, h⟩ := hF.exists_turns hg
  exact h.run_eq rfl (hF.length_le_turnLimit hg h)

theorem finish_final (hF : Spans g F) (hg : g.Sound) :
    finish (final g F) = .ok (traversal g F) :=
  finish_ofProgress (hF.complete_play hg byNumber) []

theorem classify_eq (hF : Spans g F) (hg : g.Sound) : classify g = .ok (traversal g F) := by
  rw [classify, hF.complete_eq hg]
  exact hF.finish_final hg

end Spans

/-- The search of a built graph returns the traversal of a forest that spans the graph. -/
theorem exists_spans_of_build [Memory] {nodeCount : ℕ} {edges : List Edge} {g : Digraph}
    (h : Digraph.build nodeCount edges = .ok g) :
    ∃ F, Spans g F ∧ g.Sound ∧ g.nodeCount = nodeCount ∧ g.edges.toList = edges ∧
      classify g = .ok (Spans.traversal g F) := by
  obtain ⟨hg, hcount, hedges, -⟩ := Digraph.sound_of_build h
  obtain ⟨F, hF⟩ := exists_spans hg
  exact ⟨F, hF, hg, hcount, hedges, hF.classify_eq hg⟩

/-- The loop ends in `s` after `turns`, and `t` is read off there. Whatever else the
loop may be caught at is a beginning of the same run, so no error is ever met. -/
structure Search.Completes (g : Digraph) (turns : List Turn) (s : Search) (t : Traversal) :
    Prop where
  run : Turns g (start g) turns s
  stack_nil : s.stack = []
  length_le : turns.length ≤ turnLimit g
  only_run : ∀ earlier u, Turns g (start g) earlier u →
    ∃ later, turns = earlier ++ later ∧ Turns g u later s
  complete_eq : complete g = .ok s
  finish_eq : finish s = .ok t
  classify_eq : classify g = .ok t
  each_once : EachOnce g turns t

theorem Spans.completes {g : Digraph} {F : Forest} {turns : List Turn} (hF : Spans g F)
    (hg : g.Sound) (h : Turns g (start g) turns (final g F)) :
    Completes g turns (final g F) (traversal g F) where
  run := h
  stack_nil := rfl
  length_le := hF.length_le_turnLimit hg h
  only_run _ _ hearlier := h.exists_append rfl hearlier
  complete_eq := hF.complete_eq hg
  finish_eq := hF.finish_final hg
  classify_eq := hF.classify_eq hg
  each_once := hF.eachOnce hg h

/-- On every built graph the loop drains its stack without an error, and each edge
is pushed, examined, recorded and retired exactly once on the way. -/
theorem exists_completes_of_build [Memory] {nodeCount : ℕ} {edges : List Edge} {g : Digraph}
    (h : Digraph.build nodeCount edges = .ok g) : ∃ turns s t, Completes g turns s t := by
  obtain ⟨hg, -⟩ := Digraph.sound_of_build h
  obtain ⟨F, hF⟩ := exists_spans hg
  obtain ⟨turns, hturns⟩ := hF.exists_turns hg
  exact ⟨turns, _, _, hF.completes hg hturns⟩

theorem exists_completes_tangle :
    Digraph.build 5 [⟨0, 2⟩, ⟨2, 1⟩, ⟨1, 0⟩, ⟨0, 1⟩, ⟨2, 2⟩, ⟨0, 2⟩, ⟨3, 1⟩] = .ok .tangle ∧
      ∃ turns s t, Completes .tangle turns s t :=
  ⟨Digraph.build_tangle, exists_completes_of_build Digraph.build_tangle⟩

end ClassicAlgorithms
