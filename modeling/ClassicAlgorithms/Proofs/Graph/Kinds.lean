import ClassicAlgorithms.Proofs.Graph.Ancestry
import ClassicAlgorithms.Proofs.Graph.Completion
import ClassicAlgorithms.Proofs.Graph.Discovery

/-!
# What the kinds mean

The search decides the kind of an edge from numbers that are still incomplete. Read
off the finished traversal, the kinds say which endpoint lies below the other one
along tree edges, and the tree edges are those that discovered their heads.
-/
namespace ClassicAlgorithms

namespace Traversal

/-- Some tree edge leads from `u` to `v`. -/
def TreeEdge (g : Digraph) (t : Traversal) (u v : ℕ) : Prop :=
  ∃ i e, g.edges[i]? = some e ∧ t.kind? i = some .tree ∧ e.tail = u ∧ e.head = v

/-- Tree edges lead from `u` to `v`; every node descends from itself. -/
def Descends (g : Digraph) (t : Traversal) : (u v : ℕ) → Prop :=
  Relation.ReflTransGen (TreeEdge g t)

/-- The node `v` descends from the other node `u`. -/
def ProperlyDescends (g : Digraph) (t : Traversal) (u v : ℕ) : Prop :=
  Descends g t u v ∧ v ≠ u

/-- The rules for the kind of the edge `e` at position `i`, after a run with the
given turns. -/
structure Sorts (g : Digraph) (turns : List Search.Turn) (t : Traversal) (i : ℕ) (e : Edge) :
    Prop where
  tree_iff : t.kind? i = some .tree ↔ Search.FirstToFind g turns i e.head
  forward_iff : t.kind? i = some .forward ↔
    t.kind? i ≠ some .tree ∧ t.ProperlyDescends g e.tail e.head
  back_iff : t.kind? i = some .back ↔ e.head = e.tail ∨ t.ProperlyDescends g e.head e.tail
  cross_iff : t.kind? i = some .cross ↔
    ¬ t.Descends g e.tail e.head ∧ ¬ t.Descends g e.head e.tail
  cross_older : t.kind? i = some .cross → ∃ preHead preTail postHead postTail,
    t.preorder? e.head = some preHead ∧ t.preorder? e.tail = some preTail ∧
      t.postorder? e.head = some postHead ∧ t.postorder? e.tail = some postTail ∧
      preHead < preTail ∧ postHead < postTail

end Traversal

namespace Spans

variable {g : Digraph} {F : Forest} {u v i : ℕ} {e : Edge}

/-- The traversal keeps the kind that each edge got at its moment. -/
theorem kind?_traversal (h : Spans g F) (hg : g.Sound) (i : ℕ) (k : EdgeKind) :
    (traversal g F).kind? i = some k ↔
      ∃ m ∈ F.moments [] [], ∃ e, m.arc = .along i e ∧ m.kind e = k := by
  rw [traversal, (h.complete_play hg byNumber).kind?_traversal i k,
    Explores.made_play h byNumber .start rfl, Progress.start, List.nil_append,
    List.mem_filterMap]
  refine exists_congr fun m => and_congr_right fun _ => ?_
  change m.arc.decision? m.kind = _ ↔ _
  cases m.arc with
  | seed v => simp [Arc.decision?]
  | along j d => simp [Arc.decision?, and_comm]

/-- A moment examines an edge of the graph. -/
theorem getElem?_of_moment (h : Spans g F) (hg : g.Sound) {m : Moment}
    (hm : m ∈ F.moments [] []) (ha : m.arc = .along i e) : g.edges[i]? = some e := by
  rw [← h.mem_arcs hg, ← F.map_arc_moments [] [], ← ha]
  exact List.mem_map_of_mem hm

/-- Only edges of the graph have a kind. -/
theorem exists_edge_of_kind? (h : Spans g F) (hg : g.Sound) {k : EdgeKind}
    (hk : (traversal g F).kind? i = some k) : ∃ e, g.edges[i]? = some e := by
  obtain ⟨m, hm, e, ha, -⟩ := (h.kind?_traversal hg i k).mp hk
  exact ⟨e, h.getElem?_of_moment hg hm ha⟩

/-- Every edge has a kind, and it describes how the endpoints stand to each other. -/
theorem exists_kind (h : Spans g F) (hg : g.Sound) (he : g.edges[i]? = some e) :
    ∃ k, (traversal g F).kind? i = some k ∧ k.Describes F e := by
  obtain ⟨m, hm, ha, hdescribes⟩ := h.exists_moment hg he
  exact ⟨m.kind e, (h.kind?_traversal hg i _).mpr ⟨m, hm, e, ha, rfl⟩, hdescribes⟩

/-- The arcs that found new nodes are, besides the seeds, the tree edges. -/
theorem along_mem_grown_iff (h : Spans g F) (hg : g.Sound) :
    Arc.along i e ∈ F.grown ↔ g.edges[i]? = some e ∧ (traversal g F).kind? i = some .tree := by
  rw [h.kind?_traversal hg i .tree]
  constructor
  · intro hgrown
    obtain ⟨m, hm, ha, hnew⟩ := (Explores.mem_grown h [] _).mp hgrown
    exact ⟨h.getElem?_of_moment hg hm ha, m, hm, e, ha, Moment.kind_eq_tree.mpr hnew⟩
  · rintro ⟨he, m, hm, d, ha, htree⟩
    obtain rfl := Option.some.inj (he.symm.trans (h.getElem?_of_moment hg hm ha))
    exact (Explores.mem_grown h [] _).mpr ⟨m, hm, ha, Moment.kind_eq_tree.mp htree⟩

/-- The tree edges of the traversal are the links of the forest. -/
theorem treeEdge_iff (h : Spans g F) (hg : g.Sound) :
    (traversal g F).TreeEdge g u v ↔ F.Link u v := by
  simp only [Traversal.TreeEdge, Forest.Link, h.along_mem_grown_iff hg, and_assoc]

theorem treeEdge_eq_link (h : Spans g F) (hg : g.Sound) :
    Traversal.TreeEdge g (traversal g F) = F.Link := by
  funext u v
  exact propext (h.treeEdge_iff hg)

/-- A node descends from another one exactly when its time lies within that of the other. -/
theorem descends_iff (h : Spans g F) (hg : g.Sound) (hu : u < g.nodeCount) :
    (traversal g F).Descends g u v ↔ F.Encloses u v := by
  rw [Traversal.Descends, h.treeEdge_eq_link hg]
  exact h.reaches_iff hg hu

/-- No two nodes have the same place in the order of discovery. -/
theorem eq_of_encloses (h : Spans g F) (hg : g.Sound) (hu : u < g.nodeCount)
    (huv : F.Encloses u v) (hvu : F.Encloses v u) : u = v :=
  numberIn_inj ((h.mem_nodes hg).mpr hu) (le_antisymm huv.discovered_le hvu.discovered_le)

section
variable {k : EdgeKind}

theorem eq_forward_iff (h : Spans g F) (hg : g.Sound) (he : g.edges[i]? = some e)
    (hk : k.Describes F e) :
    k = .forward ↔ k ≠ .tree ∧ F.Encloses e.tail e.head ∧ e.head ≠ e.tail := by
  constructor
  · rintro rfl
    exact ⟨by simp, hk⟩
  · rintro ⟨hnot, hin, hne⟩
    cases k with
    | tree => exact absurd rfl hnot
    | forward => rfl
    | back => exact absurd (h.eq_of_encloses hg (hg.head_lt_of_getElem? he) hk hin) hne
    | cross => exact absurd hin.discovered_le hk.1.not_ge

theorem eq_back_iff (h : Spans g F) (hg : g.Sound) (he : g.edges[i]? = some e)
    (hk : k.Describes F e) :
    k = .back ↔ e.head = e.tail ∨ F.Encloses e.head e.tail ∧ e.tail ≠ e.head := by
  constructor
  · rintro rfl
    by_cases heq : e.head = e.tail
    · exact Or.inl heq
    · exact Or.inr ⟨hk, Ne.symm heq⟩
  · intro hback
    have hin : F.Encloses e.head e.tail := by
      rcases hback with heq | ⟨hin, -⟩
      · rw [heq]
        exact ⟨le_rfl, le_rfl⟩
      · exact hin
    have hsame := h.eq_of_encloses hg (hg.head_lt_of_getElem? he) hin
    cases k with
    | tree => exact absurd (hsame hk.1) hk.2
    | forward => exact absurd (hsame hk.1) hk.2
    | back => rfl
    | cross => exact absurd hin.finished_le hk.2.not_ge

theorem eq_cross_iff (hk : k.Describes F e) :
    k = .cross ↔ ¬ F.Encloses e.tail e.head ∧ ¬ F.Encloses e.head e.tail := by
  constructor
  · rintro rfl
    exact ⟨fun hin => hk.1.not_ge hin.discovered_le, fun hin => hk.2.not_ge hin.finished_le⟩
  · rintro ⟨hnotDown, hnotUp⟩
    cases k with
    | tree => exact absurd hk.1 hnotDown
    | forward => exact absurd hk.1 hnotDown
    | back => exact absurd hk hnotUp
    | cross => rfl

end

theorem sorts (h : Spans g F) (hg : g.Sound) {turns : List Search.Turn}
    (hturns : Search.Turns g (Search.start g) turns (final g F)) (he : g.edges[i]? = some e) :
    (traversal g F).Sorts g turns i e := by
  have ht := hg.tail_lt_of_getElem? he
  have hh := hg.head_lt_of_getElem? he
  obtain ⟨k, hkind, hk⟩ := h.exists_kind hg he
  constructor
  · rw [traversal, (h.complete_play hg byNumber).kind?_traversal i .tree, ← recordedIn_eq hturns]
    exact hturns.tree_recorded_iff hg he
  · rw [hkind, Option.some.injEq, Traversal.ProperlyDescends, h.descends_iff hg ht, ne_eq,
      Option.some.injEq]
    exact h.eq_forward_iff hg he hk
  · rw [hkind, Option.some.injEq, Traversal.ProperlyDescends, h.descends_iff hg hh]
    exact h.eq_back_iff hg he hk
  · rw [hkind, Option.some.injEq, h.descends_iff hg ht, h.descends_iff hg hh]
    exact eq_cross_iff hk
  · rw [hkind, Option.some.injEq]
    rintro rfl
    refine ⟨_, _, _, _, Progress.preorder?_traversal _ _ hh, Progress.preorder?_traversal _ _ ht,
      Progress.postorder?_traversal _ _ hh, Progress.postorder?_traversal _ _ ht, ?_⟩
    simpa [Progress.start, EdgeKind.Describes] using hk

end Spans

/-- On every built graph each edge is sorted by the ancestry of its endpoints in the
finished forest, and the tree edges are those that discovered their heads. -/
theorem exists_sorts_of_build [Memory] {nodeCount : ℕ} {edges : List Edge} {g : Digraph}
    (h : Digraph.build nodeCount edges = .ok g) :
    ∃ turns s t, Search.Turns g (Search.start g) turns s ∧ s.stack = [] ∧
      Search.finish s = .ok t ∧ classify g = .ok t ∧
      ∀ i e, g.edges[i]? = some e → t.Sorts g turns i e := by
  obtain ⟨hg, -⟩ := Digraph.sound_of_build h
  obtain ⟨F, hF⟩ := exists_spans hg
  obtain ⟨turns, hturns⟩ := hF.exists_turns hg
  exact ⟨turns, _, _, hturns, rfl, hF.finish_final hg, hF.classify_eq hg,
    fun i e he => hF.sorts hg hturns he⟩

theorem exists_sorts_tangle :
    Digraph.build 5 [⟨0, 2⟩, ⟨2, 1⟩, ⟨1, 0⟩, ⟨0, 1⟩, ⟨2, 2⟩, ⟨0, 2⟩, ⟨3, 1⟩] = .ok .tangle ∧
      ∃ turns s t, Search.Turns .tangle (Search.start .tangle) turns s ∧ s.stack = [] ∧
        Search.finish s = .ok t ∧ classify .tangle = .ok t ∧
        ∀ i e, Digraph.tangle.edges[i]? = some e → t.Sorts .tangle turns i e :=
  ⟨Digraph.build_tangle, exists_sorts_of_build Digraph.build_tangle⟩

end ClassicAlgorithms
