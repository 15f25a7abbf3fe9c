import ClassicAlgorithms.Proofs.Graph.Induced
import ClassicAlgorithms.Proofs.Graph.SpanningForest

/-!
# Graphs that are searched part by part

When no edge leads out of the nodes below some node, the search is through with them before
it comes to the others, and it finds nothing new among them later. So it does one after the
other what it does on each of the two parts alone, and an edge from the second part back to
the first is a cross edge.
-/
namespace ClassicAlgorithms

/-- The traversal goes through `split` nodes as `first` does, and then through the others as
`second` does, with nodes and numbers larger by `split`. -/
structure Traversal.Concatenates (split : ℕ) (t first second : Traversal) : Prop where
  discovery_eq : t.discovery = first.discovery ++ second.discovery.map (· + split)
  preorder_eq : t.preorder = first.preorder ++ second.preorder.map (· + split)
  postorder_eq : t.postorder = first.postorder ++ second.postorder.map (· + split)
  roots_eq : t.roots = first.roots ++ second.roots.map (· + split)

/-- The nodes below `split` come first, and then some of the next `size` nodes. -/
def InParts (split size : ℕ) (l : List ℕ) : Prop :=
  ∃ before after, l = before ++ after ∧ (∀ v ∈ before, v < split) ∧
    ∀ v ∈ after, split ≤ v ∧ v < split + size

namespace InParts

variable {split size : ℕ} {l : List ℕ} {u v : ℕ}

/-- Each part is what the interval keeps of the whole. -/
theorem eq_append (h : InParts split size l) :
    l = l.filterMap (nodeInside 0 split) ++
      (l.filterMap (nodeInside split size)).map (· + split) := by
  obtain ⟨before, after, rfl, hbefore, hafter⟩ := h
  have hfirst : before.filterMap (nodeInside 0 split) = before := by
    have hall : ∀ v ∈ before, 0 ≤ v ∧ v < 0 + split := fun v hv =>
      ⟨Nat.zero_le v, by simpa using hbefore v hv⟩
    simpa using map_add_filterMap_nodeInside hall
  have hrest : after.filterMap (nodeInside 0 split) = [] :=
    filterMap_nodeInside_eq_nil fun v hv => Or.inr (by simpa using (hafter v hv).1)
  have hrest' : before.filterMap (nodeInside split size) = [] :=
    filterMap_nodeInside_eq_nil fun v hv => Or.inl (hbefore v hv)
  rw [List.filterMap_append, List.filterMap_append, hfirst, hrest, hrest', List.append_nil,
    List.nil_append, map_add_filterMap_nodeInside hafter]

/-- What lies in the first part comes before what does not. -/
theorem numberIn_lt (h : InParts split size l) (hu : u ∈ l) (hv : v ∈ l) (hlt : u < split)
    (hle : split ≤ v) : numberIn l u < numberIn l v := by
  obtain ⟨before, after, rfl, hbefore, hafter⟩ := h
  have hu' : u ∈ before := (List.mem_append.mp hu).resolve_right fun hmem =>
    absurd (hafter u hmem).1 hlt.not_ge
  have hv' : v ∉ before := fun hmem => absurd (hbefore v hmem) hle.not_gt
  exact numberIn_lt_of_mem hu' hv' ((List.mem_append.mp hv).resolve_left hv')

end InParts

/-- The part below `split` is discovered and finished first, and has the first roots. -/
structure Forest.InParts (split size : ℕ) (F : Forest) : Prop where
  nodes : ClassicAlgorithms.InParts split size F.nodes
  finishes : ClassicAlgorithms.InParts split size F.finishes
  roots : ClassicAlgorithms.InParts split size F.roots

theorem Forest.inParts_append {split size : ℕ} {F F' : Forest} (hF : ∀ v ∈ F.nodes, v < split)
    (hF' : ∀ v ∈ F'.nodes, split ≤ v ∧ v < split + size) : (F.append F').InParts split size where
  nodes := ⟨_, _, nodes_append F F', hF, hF'⟩
  finishes := ⟨_, _, finishes_append F F', fun v hv => hF v (mem_finishes.mp hv),
    fun v hv => hF' v (mem_finishes.mp hv)⟩
  roots := ⟨_, _, roots_append F F', fun v hv => hF v (F.roots_sublist.subset hv),
    fun v hv => hF' v (F'.roots_sublist.subset hv)⟩

/-- With no edge out of the first part, the search is through with it before it goes on. -/
theorem exists_spans_inParts {g : Digraph} (hg : g.Sound) {split size : ℕ}
    (hcount : g.nodeCount = split + size)
    (hclosed : ∀ e ∈ g.edges.toList, e.tail < split → e.head < split) :
    ∃ F, Spans g F ∧ F.InParts split size := by
  have hseeds : g.seeds = (List.range split).map .seed ++
      ((List.range size).map (split + ·)).map .seed := by
    rw [Digraph.seeds, hcount, List.range_add, List.map_append]
  have hfirst : ∀ a ∈ (List.range split).map Arc.seed, a.head < split :=
    List.forall_mem_map.mpr fun v hv => List.mem_range.mp hv
  have hin : ∀ a ∈ g.seeds, a.head < g.nodeCount :=
    List.forall_mem_map.mpr fun v hv => List.mem_range.mp hv
  rw [hseeds, List.forall_mem_append] at hin
  obtain ⟨F, hF⟩ := exists_explores hg [] _ hin.1
  obtain ⟨F', hF'⟩ := exists_explores hg F.nodes _ hin.2
  refine ⟨F.append F', ?_, Forest.inParts_append ?_ ?_⟩
  · rw [Spans, hseeds]
    exact hF.append hF'
  · refine hF.forall_nodes (fun v hv a ha => ?_) hfirst
    obtain ⟨i, e, he, rfl, rfl⟩ := Digraph.mem_arcs.mp ha
    exact hclosed e (Digraph.mem_edges_of_getElem? he) hv
  · intro v hv
    -- A node below `split` had a seed in the first part and is not new in the second one.
    have hnew : ¬ v < split := by
      intro hlt
      have hmem := hF.head_mem (.seed v) (List.mem_map_of_mem (List.mem_range.mpr hlt))
      exact hF'.fresh v hv (hmem.resolve_left List.not_mem_nil)
    exact ⟨not_lt.mp hnew, hcount ▸ hF'.nodes_lt hg hin.2 v hv⟩

namespace Spans

variable {g g' g'' : Digraph} {F F' F'' : Forest} {split size i : ℕ} {edges : List Edge}
  {e : Edge}

/-- The three orders come apart into those of the two parts. -/
theorem concatenates (h' : Spans g' F') (hg' : g'.Sound) (h'' : Spans g'' F'')
    (hg'' : g''.Sound) (hparts : F.InParts split size) (hcount : g.nodeCount = split + size)
    (hcount' : g'.nodeCount = split) (hcount'' : g''.nodeCount = size)
    (hmirrors : F.Mirrors (induced 0 split edges) F')
    (hmirrors' : F.Mirrors (induced split size edges) F'') :
    (traversal g F).Concatenates split (traversal g' F') (traversal g'' F'') := by
  have hnodes : F.nodes = F'.nodes ++ F''.nodes.map (· + split) := by
    rw [hmirrors.nodes_eq, hmirrors'.nodes_eq]
    exact hparts.nodes.eq_append
  have hfinishes : F.finishes = F'.finishes ++ F''.finishes.map (· + split) := by
    rw [hmirrors.finishes_eq, hmirrors'.finishes_eq]
    exact hparts.finishes.eq_append
  have hroots : F.roots = F'.roots ++ F''.roots.map (· + split) := by
    rw [hmirrors.roots_eq, hmirrors'.roots_eq]
    exact hparts.roots.eq_append
  have hperm := h'.nodes_perm hg'
  have hperm' := h''.nodes_perm hg''
  rw [hcount'] at hperm
  rw [hcount''] at hperm'
  constructor <;> apply Array.toList_inj.mp <;> rw [Array.toList_append, Array.toList_map]
  · simp only [discovery_traversal]
    exact hnodes
  · simp only [preorder_traversal, hcount, hcount', hcount'', hnodes]
    exact map_numberIn_append hperm hperm'
  · simp only [postorder_traversal, hcount, hcount', hcount'', hfinishes]
    exact map_numberIn_append (F'.finishes_perm.trans hperm) (F''.finishes_perm.trans hperm')
  · simp only [roots_traversal]
    exact hroots

/-- An edge from the second part back to the first is a cross edge. -/
theorem kind?_eq_cross (h : Spans g F) (hg : g.Sound) (hparts : F.InParts split size)
    (he : g.edges[i]? = some e) (htail : split ≤ e.tail) (hhead : e.head < split) :
    (traversal g F).kind? i = some .cross := by
  obtain ⟨kind, hkind, hdescribes⟩ := h.exists_kind hg he
  have htail' := (h.mem_nodes hg).mpr (hg.tail_lt_of_getElem? he)
  have hhead' := (h.mem_nodes hg).mpr (hg.head_lt_of_getElem? he)
  have hdiscovered := hparts.nodes.numberIn_lt hhead' htail' hhead htail
  have hfinished := hparts.finishes.numberIn_lt (Forest.mem_finishes.mpr hhead')
    (Forest.mem_finishes.mpr htail') hhead htail
  rw [hkind, (eq_cross_iff hdescribes).mpr]
  exact ⟨fun hin => hin.discovered_le.not_gt hdiscovered,
    fun hin => hin.finished_le.not_gt hfinished⟩

/-- So it has found nothing, and both intervals keep what found their nodes. -/
theorem kept_parts (h : Spans g F) (hg : g.Sound) (hparts : F.InParts split size)
    (hcount : g.nodeCount = split + size)
    (hclosed : ∀ e ∈ g.edges.toList, e.tail < split → e.head < split) (edges : List Edge) :
    F.Kept (induced 0 split edges) ∧ F.Kept (induced split size edges) := by
  refine ⟨Forest.kept_induced fun i e hgrown _ hlt => ?_,
    Forest.kept_induced fun i e hgrown hle _ => ?_⟩
  · obtain ⟨he, htree⟩ := (h.along_mem_grown_iff hg).mp hgrown
    -- From the second part it would be a cross edge.
    by_contra hout
    have hcross := h.kind?_eq_cross hg hparts he (by omega) (by omega)
    exact absurd (htree.symm.trans hcross) (by decide)
  · obtain ⟨he, -⟩ := (h.along_mem_grown_iff hg).mp hgrown
    have htail := hg.tail_lt_of_getElem? he
    have hstays := hclosed e (Digraph.mem_edges_of_getElem? he)
    omega

end Spans

/-- A graph without edges from the nodes below `split` to the others is searched as the graphs
on the two parts are, one after the other. -/
theorem exists_concatenates_of_build [Memory] {nodeCount split : ℕ} {edges : List Edge}
    {g : Digraph} (h : Digraph.build nodeCount edges = .ok g) (hpos : 0 < split)
    (hlt : split < nodeCount)
    (hclosed : ∀ e ∈ edges, e.tail < split → e.head < split) :
    ∃ g' g'' t t' t'', Digraph.build split (inducedEdges 0 split edges) = .ok g' ∧
      Digraph.build (nodeCount - split) (inducedEdges split (nodeCount - split) edges) = .ok g'' ∧
      classify g = .ok t ∧ classify g' = .ok t' ∧ classify g'' = .ok t'' ∧
      t.Concatenates split t' t'' ∧ t'.KeepsKinds 0 split edges t ∧
      t''.KeepsKinds split (nodeCount - split) edges t ∧
      ∀ i e, edges[i]? = some e → split ≤ e.tail → e.head < split → t.kind? i = some .cross := by
  obtain ⟨hg, hcount, hedges, -⟩ := Digraph.sound_of_build h
  have hsum : g.nodeCount = split + (nodeCount - split) := by omega
  rw [← hedges] at hclosed
  obtain ⟨F, hF, hparts⟩ := exists_spans_inParts hg hsum hclosed
  obtain ⟨hkept, hkept'⟩ := hF.kept_parts hg hparts hsum hclosed edges
  obtain ⟨g', F', h', hF', hg', hcount', hmirrors, hkinds⟩ :=
    hF.exists_induced h hpos (by omega) hkept
  obtain ⟨g'', F'', h'', hF'', hg'', hcount'', hmirrors', hkinds'⟩ :=
    hF.exists_induced h (Nat.sub_pos_of_lt hlt) (Nat.add_sub_of_le hlt.le).le hkept'
  refine ⟨g', g'', _, _, _, h', h'', hF.classify_eq hg, hF'.classify_eq hg',
    hF''.classify_eq hg'', ?_, hkinds, hkinds', fun i e he => ?_⟩
  · exact hF'.concatenates hg' hF'' hg'' hparts hsum hcount' hcount'' hmirrors hmirrors'
  · rw [← hedges, Array.getElem?_toList] at he
    exact hF.kind?_eq_cross hg hparts he

/-- The edges of two parts in turn, and two edges from the second part back to the first. -/
def interleaved : List Edge := [⟨3, 2⟩, ⟨0, 1⟩, ⟨2, 1⟩, ⟨2, 3⟩, ⟨1, 0⟩, ⟨3, 0⟩, ⟨4, 4⟩]

theorem exists_concatenates_interleaved :
    (∀ e ∈ interleaved, e.tail < 2 → e.head < 2) ∧
      ∃ g g' g'' t t' t'', Digraph.build 5 interleaved = .ok g ∧
        Digraph.build 2 [⟨0, 1⟩, ⟨1, 0⟩] = .ok g' ∧
        Digraph.build 3 [⟨1, 0⟩, ⟨0, 1⟩, ⟨2, 2⟩] = .ok g'' ∧
        classify g = .ok t ∧ classify g' = .ok t' ∧ classify g'' = .ok t'' ∧
        t.Concatenates 2 t' t'' ∧ t'.KeepsKinds 0 2 interleaved t ∧
        t''.KeepsKinds 2 3 interleaved t ∧
        t.kind? 2 = some .cross ∧ t.kind? 5 = some .cross := by
  have hclosed : ∀ e ∈ interleaved, e.tail < 2 → e.head < 2 := by decide
  obtain ⟨g, h⟩ : ∃ g, Digraph.build 5 interleaved = .ok g :=
    Digraph.exists_build_iff.mpr (by decide)
  obtain ⟨g', g'', t, t', t'', h', h'', ht, ht', ht'', hparts, hkinds, hkinds', hcross⟩ :=
    exists_concatenates_of_build h (by decide) (by decide) hclosed
  exact ⟨hclosed, g, g', g'', t, t', t'', h, h', h'', ht, ht', ht'', hparts, hkinds, hkinds',
    hcross 2 _ rfl (by decide) (by decide), hcross 5 _ rfl (by decide) (by decide)⟩

end ClassicAlgorithms
