import ClassicAlgorithms.Proofs.Graph.Roots

/-!
# The spanning forest

Both numberings count every node once. The tree edges form a forest on all nodes: each
node but the roots is entered by exactly one of them, they lead to later nodes, and going
up along them ends in a root. So there are as many of them as there are nodes besides the
roots.
-/
namespace ClassicAlgorithms

namespace Traversal

/-- The edge at position `i` is a tree edge into `v`. -/
def TreeInto (g : Digraph) (t : Traversal) (i v : ℕ) : Prop :=
  ∃ e, g.edges[i]? = some e ∧ t.kind? i = some .tree ∧ e.head = v

/-- The numberings are arrangements of the nodes, and the tree edges are a forest on them with
the roots of the traversal. No way up along tree edges goes on for ever, and the way up from a
node comes to a root. -/
structure SpanningForest (g : Digraph) (t : Traversal) : Prop where
  discovery_perm : t.discovery.toList.Perm (List.range g.nodeCount)
  preorder_iff : ∀ k v, t.discovery[k]? = some v ↔ t.preorder? v = some (k + 1)
  postorder_perm : t.postorder.toList.Perm (List.range' 1 g.nodeCount)
  not_treeInto_root : ∀ r ∈ t.roots, ∀ i, ¬ t.TreeInto g i r
  existsUnique_treeInto : ∀ v < g.nodeCount, v ∉ t.roots → ∃! i, t.TreeInto g i v
  tail_earlier : ∀ u v, t.TreeEdge g u v → ∃ preU preV,
    t.preorder? u = some preU ∧ t.preorder? v = some preV ∧ preU < preV
  ascent_wellFounded : WellFounded (t.TreeEdge g)
  exists_root : ∀ v < g.nodeCount, ∃ r ∈ t.roots, t.Descends g r v
  count_tree : t.count .tree + t.roots.size = g.nodeCount

/-- Edges are counted by going through all positions. -/
theorem count_eq_length_filter (t : Traversal) (k : EdgeKind) :
    t.count k = ((List.range t.kinds.size).filter fun i => t.kind? i == some k).length := by
  have hkinds : (List.range t.kinds.size).map t.kind? = t.kinds.toList.map some := by
    apply List.ext_getElem
    · simp
    · intro i hi _
      simp only [List.length_map, List.length_range] at hi
      simp [kind?, hi]
  calc
    t.count k = (t.kinds.toList.map some).count (some k) := by
      rw [List.count_map_of_injective _ _ (Option.some_injective _), Array.count_toList, count]
    _ = ((List.range t.kinds.size).map t.kind?).count (some k) := by rw [hkinds]
    _ = ((List.range t.kinds.size).filter fun i => t.kind? i == some k).length := by
      rw [List.count, List.countP_map, List.countP_eq_length_filter]
      rfl

end Traversal

namespace Spans

variable {g : Digraph} {F : Forest} {u v r i k : ℕ}

theorem discovery_traversal : (traversal g F).discovery.toList = F.nodes := by
  simp [traversal, Progress.traversal, Progress.start]

theorem preorder_traversal :
    (traversal g F).preorder.toList = (List.range g.nodeCount).map (numberIn F.nodes) := by
  simp [traversal, Progress.traversal, Progress.start, ← map_range_eq_table]

theorem postorder_traversal :
    (traversal g F).postorder.toList = (List.range g.nodeCount).map (numberIn F.finishes) := by
  simp [traversal, Progress.traversal, Progress.start, ← map_range_eq_table]

/-- The positions of the tree edges are those of the arcs that found new nodes. -/
theorem mem_positions_grown (h : Spans g F) (hg : g.Sound) :
    i ∈ F.grown.filterMap Arc.position? ↔ (traversal g F).kind? i = some .tree := by
  rw [List.mem_filterMap]
  constructor
  · rintro ⟨a, hgrown, hposition⟩
    cases a with
    | seed w => simp [Arc.position?] at hposition
    | along j e =>
      obtain rfl := Option.some.inj hposition
      exact ((h.along_mem_grown_iff hg).mp hgrown).2
  · intro hkind
    obtain ⟨m, hm, e, ha, -⟩ := (h.kind?_traversal hg i .tree).mp hkind
    exact ⟨_, (h.along_mem_grown_iff hg).mpr ⟨h.getElem?_of_moment hg hm ha, hkind⟩, rfl⟩

theorem treeInto_iff (h : Spans g F) (hg : g.Sound) :
    (traversal g F).TreeInto g i v ↔ ∃ e, Arc.along i e ∈ F.grown ∧ e.head = v := by
  simp only [Traversal.TreeInto, h.along_mem_grown_iff hg, and_assoc]

/-- A node that is no root is found by one edge. -/
theorem existsUnique_treeInto (h : Spans g F) (hg : g.Sound) (hv : v < g.nodeCount)
    (hroot : v ∉ F.roots) : ∃! i, (traversal g F).TreeInto g i v := by
  have hfound : v ∈ F.grown.map Arc.head := by
    rw [F.map_head_grown]
    exact (h.mem_nodes hg).mpr hv
  obtain ⟨a, hgrown, hhead⟩ := List.mem_map.mp hfound
  cases a with
  | seed w =>
    obtain rfl : w = v := hhead
    exact absurd (Forest.mem_roots.mpr hgrown) hroot
  | along i e =>
    refine ⟨i, (h.treeInto_iff hg).mpr ⟨e, hgrown, hhead⟩, fun j hj => ?_⟩
    obtain ⟨d, hgrown', hhead'⟩ := (h.treeInto_iff hg).mp hj
    cases Explores.eq_of_grown h hgrown' hgrown (hhead'.trans hhead.symm)
    rfl

/-- A node is discovered after the one from which an edge found it. -/
theorem discovered_lt_of_link (h : Spans g F) (hg : g.Sound) (hlink : F.Link u v) :
    numberIn F.nodes u < numberIn F.nodes v := by
  obtain ⟨i, e, hgrown, rfl, rfl⟩ := hlink
  obtain ⟨he, htree⟩ := (h.along_mem_grown_iff hg).mp hgrown
  obtain ⟨k, hkind, hdescribes⟩ := h.exists_kind hg he
  obtain rfl := Option.some.inj (htree.symm.trans hkind)
  obtain ⟨hin, hne⟩ := hdescribes
  have hhead := (h.mem_nodes hg).mpr (hg.head_lt_of_getElem? he)
  exact lt_of_le_of_ne hin.discovered_le fun heq => hne (numberIn_inj hhead heq.symm)

/-- Each node was found by an edge or by a seed. -/
theorem count_tree (h : Spans g F) (hg : g.Sound) :
    (traversal g F).count .tree + F.roots.length = g.nodeCount := by
  have hnodup : (F.grown.filterMap Arc.position?).Nodup :=
    (F.grown_sublist.filterMap _).nodup ((h.positions_perm hg).nodup_iff.mpr List.nodup_range)
  have hpositions : ((List.range (traversal g F).kinds.size).filter fun i =>
      (traversal g F).kind? i == some .tree).Perm (F.grown.filterMap Arc.position?) := by
    rw [List.perm_ext_iff_of_nodup (List.nodup_range.filter _) hnodup]
    intro i
    rw [h.mem_positions_grown hg, List.mem_filter, List.mem_range, beq_iff_eq]
    exact and_iff_right_of_imp fun hkind => (Array.getElem?_eq_some_iff.mp hkind).1
  have hlength := length_eq_length_filterMap_add F.grown Arc.position? Arc.root?
    fun a => by cases a <;> rfl
  have hgrown : F.grown.length = g.nodeCount := by
    rw [← List.length_map (f := Arc.head), F.map_head_grown, (h.nodes_perm hg).length_eq,
      List.length_range]
  rw [Traversal.count_eq_length_filter, hpositions.length_eq, Forest.roots, ← hlength, hgrown]

theorem spanningForest (h : Spans g F) (hg : g.Sound) : (traversal g F).SpanningForest g where
  discovery_perm := by
    rw [discovery_traversal]
    exact h.nodes_perm hg
  preorder_iff k v := by
    rw [← Array.getElem?_toList, discovery_traversal, preorder?_eq_some_iff,
      getElem?_eq_some_iff_numberIn (Explores.nodes_nodup h)]
    refine (and_iff_right_of_imp fun hnumber => (h.mem_nodes hg).mp ?_).symm
    exact numberIn_pos.mp (by omega)
  postorder_perm := by
    have hperm : F.finishes.Perm (List.range g.nodeCount) :=
      F.finishes_perm.trans (h.nodes_perm hg)
    calc
      (traversal g F).postorder.toList
      _ = (List.range g.nodeCount).map (numberIn F.finishes) := postorder_traversal
      _ |>.Perm (F.finishes.map (numberIn F.finishes)) := hperm.symm.map _
      _ = List.range' 1 g.nodeCount := by
        rw [map_numberIn_self (Explores.finishes_nodup h), hperm.length_eq, List.length_range]
  not_treeInto_root r hr i hinto := by
    obtain ⟨e, hgrown, hhead⟩ := (h.treeInto_iff hg).mp hinto
    exact Explores.not_link_of_root h (mem_roots_traversal.mp hr) ⟨i, e, hgrown, rfl, hhead⟩
  existsUnique_treeInto v hv hroot := by
    rw [mem_roots_traversal] at hroot
    exact h.existsUnique_treeInto hg hv hroot
  tail_earlier u v hedge := by
    have hlt := hg.lt_of_hasEdge hedge.hasEdge
    rw [h.treeEdge_iff hg] at hedge
    exact ⟨_, _, preorder?_eq_some_iff.mpr ⟨hlt.1, rfl⟩, preorder?_eq_some_iff.mpr ⟨hlt.2, rfl⟩,
      h.discovered_lt_of_link hg hedge⟩
  ascent_wellFounded := by
    rw [h.treeEdge_eq_link hg]
    exact Subrelation.wf (h.discovered_lt_of_link hg)
      (InvImage.wf (numberIn F.nodes) wellFounded_lt)
  exists_root v hv := by
    obtain ⟨r, hr, hin⟩ := h.exists_root hg hv
    exact ⟨r, mem_roots_traversal.mpr hr, (h.descends_iff hg (h.root_lt_nodeCount hg hr)).mpr hin⟩
  count_tree := by
    rw [← Array.length_toList, roots_traversal]
    exact h.count_tree hg

end Spans

/-- On every built graph the two numberings arrange all nodes, and the tree edges are a forest
with the roots of the traversal and one edge into every other node. -/
theorem exists_spanningForest_of_build [Memory] {nodeCount : ℕ} {edges : List Edge} {g : Digraph}
    (h : Digraph.build nodeCount edges = .ok g) :
    g.nodeCount = nodeCount ∧ ∃ t, classify g = .ok t ∧ t.SpanningForest g := by
  obtain ⟨F, hF, hg, hcount, -, hclassify⟩ := exists_spans_of_build h
  exact ⟨hcount, _, hclassify, hF.spanningForest hg⟩

theorem exists_spanningForest_tangle :
    Digraph.build 5 [⟨0, 2⟩, ⟨2, 1⟩, ⟨1, 0⟩, ⟨0, 1⟩, ⟨2, 2⟩, ⟨0, 2⟩, ⟨3, 1⟩] = .ok .tangle ∧
      Digraph.tangle.nodeCount = 5 ∧
        ∃ t, classify .tangle = .ok t ∧ t.SpanningForest .tangle :=
  ⟨Digraph.build_tangle, exists_spanningForest_of_build Digraph.build_tangle⟩

end ClassicAlgorithms
