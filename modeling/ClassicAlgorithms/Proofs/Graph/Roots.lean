import ClassicAlgorithms.Proofs.Graph.WhitePath
import Mathlib.Data.List.Sort
import Mathlib.Order.Bounds.Basic

/-!
# Roots and reachability

A tree is seeded at the smallest node left, and it takes everything that can still be
reached. So a node ends in the tree of the smallest node from which a path leads to it,
and the roots are the nodes that no smaller node reaches. This is said without the order
of the edges: roots and trees are the same for every arrangement of the edge list.
-/
namespace ClassicAlgorithms

namespace Digraph

/-- A directed path leads from `u` to `v`; the path of no edges leads from `u` to `u`. -/
def Reaches (g : Digraph) : (u v : ℕ) → Prop := Relation.ReflTransGen g.HasEdge

theorem hasEdge_iff_mem {g : Digraph} {u v : ℕ} :
    g.HasEdge u v ↔ (⟨u, v⟩ : Edge) ∈ g.edges.toList := by
  simp only [HasEdge, List.mem_iff_getElem?, Array.getElem?_toList]
  constructor
  · rintro ⟨i, e, he, rfl, rfl⟩
    exact ⟨i, he⟩
  · rintro ⟨i, he⟩
    exact ⟨i, _, he, rfl, rfl⟩

/-- Which nodes reach which depends on the edges but not on their order. -/
theorem reaches_congr {g g' : Digraph} (h : g'.edges.toList.Perm g.edges.toList) :
    g'.Reaches = g.Reaches := by
  have hedge : g'.HasEdge = g.HasEdge := by
    funext u v
    rw [eq_iff_iff, hasEdge_iff_mem, hasEdge_iff_mem, h.mem_iff]
  rw [Reaches, Reaches, hedge]

theorem Sound.lt_of_hasEdge {g : Digraph} (hg : g.Sound) {u v : ℕ} (h : g.HasEdge u v) :
    u < g.nodeCount ∧ v < g.nodeCount := by
  obtain ⟨i, e, he, rfl, rfl⟩ := h
  exact ⟨hg.tail_lt_of_getElem? he, hg.head_lt_of_getElem? he⟩

/-- What reaches a node of the graph is a node of the graph. -/
theorem Sound.lt_of_reaches {g : Digraph} (hg : g.Sound) {u v : ℕ} (h : g.Reaches u v)
    (hv : v < g.nodeCount) : u < g.nodeCount := by
  rcases Relation.ReflTransGen.cases_head h with rfl | ⟨w, hedge, -⟩
  · exact hv
  · exact (hg.lt_of_hasEdge hedge).1

end Digraph

theorem Traversal.Descends.reaches {g : Digraph} {t : Traversal} {u v : ℕ}
    (h : t.Descends g u v) : g.Reaches u v :=
  Relation.ReflTransGen.mono (fun _ _ hedge => hedge.hasEdge) u v h

/-- The roots are the nodes that no smaller node reaches, in ascending order, and each node is
in the tree of the smallest node that reaches it. -/
structure Traversal.RootedAtLeast (g : Digraph) (t : Traversal) : Prop where
  ascending : t.roots.toList.SortedLT
  first_eq : t.roots[0]? = some 0
  mem_roots_iff : ∀ r, r ∈ t.roots ↔ r < g.nodeCount ∧ ∀ q < r, ¬ g.Reaches q r
  tree_iff : ∀ v < g.nodeCount, ∀ r,
    r ∈ t.roots ∧ t.Descends g r v ↔ IsLeast {q | g.Reaches q v} r

namespace Explores

variable {g : Digraph} {seen : List ℕ} {arcs : List Arc} {F : Forest}

/-- Where no arc is a seed, no root is made. -/
theorem roots_eq_nil (h : Explores g seen arcs F) (harcs : ∀ a ∈ arcs, a.root? = none) :
    F.roots = [] := by
  induction h with
  | nil => rfl
  | skip hseen hrest ih => exact ih fun a ha => harcs a (List.mem_cons_of_mem _ ha)
  | grow hnew hbelow hrest ihb ihr =>
    have hb := ihb fun b hb => Digraph.root?_of_mem_arcs hb
    have hr := ihr fun a ha => harcs a (List.mem_cons_of_mem _ ha)
    rw [Forest.roots_grow, harcs _ List.mem_cons_self, hb, hr]
    rfl

/-- When a seed finds a new node, all smaller nodes have been discovered. -/
theorem discovered_lt_of_root (h : Explores g seen arcs F) {k : ℕ} (hbefore : ∀ v < k, v ∈ seen)
    (hseeds : arcs = (List.range' k (g.nodeCount - k)).map .seed) {r v : ℕ} (hr : r ∈ F.roots)
    (hv : v < r) : numberIn (seen ++ F.nodes) v < numberIn (seen ++ F.nodes) r := by
  induction h generalizing k with
  | nil => simp [Forest.roots, Forest.grown] at hr
  | skip hseen _ ih =>
    obtain ⟨-, rfl, harcs⟩ := seeds_from_cons hseeds
    exact ih (Nat.forall_lt_succ_right.mpr ⟨hbefore, hseen⟩) harcs hr
  | @grow seen a arcs below rest hnew hbelow _ _ ihr =>
    obtain ⟨-, rfl, harcs⟩ := seeds_from_cons hseeds
    have hroots : (Forest.grow (.seed k) below rest).roots = k :: rest.roots := by
      rw [Forest.roots_grow, hbelow.roots_eq_nil fun b hb => Digraph.root?_of_mem_arcs hb]
      rfl
    rcases List.mem_cons.mp (hroots ▸ hr) with rfl | hr
    · exact numberIn_lt_of_mem (hbefore v hv) hnew List.mem_cons_self
    · have hlater := ihr (mem_of_lt_succ hbefore below.nodes) harcs hr
      simpa [Forest.nodes, Arc.head] using hlater

end Explores

namespace Spans

variable {g : Digraph} {F : Forest} {q r v : ℕ}

/-- What is discovered from a root on is no smaller than the root. -/
theorem root_le_of_discovered_le (h : Spans g F) (hr : r ∈ F.roots)
    (hle : numberIn F.nodes r ≤ numberIn F.nodes v) : r ≤ v := by
  by_contra hlt
  have hdiscovered := Explores.discovered_lt_of_root h (by simp) (Explores.seeds_eq_from_zero g) hr
    (not_le.mp hlt)
  rw [List.nil_append] at hdiscovered
  exact absurd hle hdiscovered.not_ge

theorem roots_sortedLT (h : Spans g F) : F.roots.SortedLT := by
  have hnumbers := (pairwise_numberIn (Explores.nodes_nodup h)).sublist F.roots_sublist
  refine List.sortedLT_iff_pairwise.mpr (hnumbers.imp_of_mem fun hr _ hlt => ?_)
  refine lt_of_le_of_ne (h.root_le_of_discovered_le hr hlt.le) ?_
  rintro rfl
  exact absurd hlt (lt_irrefl _)

theorem root_lt_nodeCount (h : Spans g F) (hg : g.Sound) (hr : r ∈ F.roots) : r < g.nodeCount :=
  (h.mem_nodes hg).mp (F.roots_sublist.subset hr)

/-- Every node lies in the tree of a root. -/
theorem exists_root (h : Spans g F) (hg : g.Sound) (hv : v < g.nodeCount) :
    ∃ r ∈ F.roots, F.Encloses r v := by
  obtain ⟨-, depth, -, hdepth⟩ := h.exists_block hg hv
  obtain ⟨r, hr, hreach⟩ := DepthBelow.exists_root hdepth
  exact ⟨r, hr, h.encloses_of_reaches hreach⟩

/-- No node lies in two trees. -/
theorem root_unique (h : Spans g F) (hg : g.Sound) {r' : ℕ} (hr : r ∈ F.roots)
    (hr' : r' ∈ F.roots) (hin : F.Encloses r v) (hin' : F.Encloses r' v) : r = r' := by
  wlog hle : numberIn F.nodes r ≤ numberIn F.nodes r' generalizing r r'
  · exact (this hr' hr hin' hin (not_le.mp hle).le).symm
  -- The later root would lie in the tree of the earlier one, but no edge has found it.
  have hlt := h.root_lt_nodeCount hg hr
  have hbetween := h.encloses_of_between hg hlt hin hle hin'.discovered_le
  rcases Relation.ReflTransGen.cases_tail ((h.reaches_iff hg hlt).mpr hbetween) with
    heq | ⟨u, -, hlink⟩
  · exact heq.symm
  · exact absurd hlink (Explores.not_link_of_root h hr')

/-- A node that can be reached from `q` lies in a tree whose root is not larger than `q`. -/
theorem exists_root_le (h : Spans g F) (hg : g.Sound) (hq : q < g.nodeCount)
    (hreach : g.Reaches q v) : ∃ r ∈ F.roots, F.Encloses r v ∧ r ≤ q := by
  induction hreach with
  | refl =>
    obtain ⟨r, hr, hin⟩ := h.exists_root hg hq
    exact ⟨r, hr, hin, h.root_le_of_discovered_le hr hin.discovered_le⟩
  | @tail x y _ hedge ih =>
    obtain ⟨r, hr, hin, hle⟩ := ih
    -- The edge stays in the tree of `r` or leads to a tree that was finished before `r`.
    by_cases hy : numberIn F.nodes r ≤ numberIn F.nodes y
    · exact ⟨r, hr, h.encloses_of_hasEdge hg (h.root_lt_nodeCount hg hr) hedge hin hy, hle⟩
    · obtain ⟨r', hr', hin'⟩ := h.exists_root hg (hg.lt_of_hasEdge hedge).2
      have hearlier := hin'.discovered_le.trans (not_le.mp hy).le
      exact ⟨r', hr', hin', (h.root_le_of_discovered_le hr' hearlier).trans hle⟩

/-- The tree of a node is that of the smallest node that reaches it. -/
theorem tree_iff (h : Spans g F) (hg : g.Sound) (hv : v < g.nodeCount) :
    r ∈ F.roots ∧ (traversal g F).Descends g r v ↔ IsLeast {q | g.Reaches q v} r := by
  constructor
  · rintro ⟨hr, hdescends⟩
    have hin := (h.descends_iff hg (h.root_lt_nodeCount hg hr)).mp hdescends
    refine ⟨hdescends.reaches, fun q hq => ?_⟩
    obtain ⟨r', hr', hin', hle⟩ := h.exists_root_le hg (hg.lt_of_reaches hq hv) hq
    rwa [h.root_unique hg hr hr' hin hin']
  · rintro ⟨hreach, hleast⟩
    obtain ⟨r', hr', hin', hle⟩ := h.exists_root_le hg (hg.lt_of_reaches hreach hv) hreach
    have hdescends := (h.descends_iff hg (h.root_lt_nodeCount hg hr')).mpr hin'
    obtain rfl : r = r' := le_antisymm (hleast hdescends.reaches) hle
    exact ⟨hr', hdescends⟩

theorem mem_roots_iff (h : Spans g F) (hg : g.Sound) :
    r ∈ F.roots ↔ r < g.nodeCount ∧ ∀ q < r, ¬ g.Reaches q r := by
  constructor
  · intro hr
    have hlt := h.root_lt_nodeCount hg hr
    have hleast := (h.tree_iff hg hlt).mp ⟨hr, .refl⟩
    exact ⟨hlt, fun q hq hreach => absurd (hleast.2 hreach) hq.not_ge⟩
  · rintro ⟨hlt, hnone⟩
    have hleast : IsLeast {q | g.Reaches q r} r :=
      ⟨.refl, fun q hreach => not_lt.mp fun hq => hnone q hq hreach⟩
    exact ((h.tree_iff hg hlt).mpr hleast).1

theorem rootedAtLeast (h : Spans g F) (hg : g.Sound) : (traversal g F).RootedAtLeast g where
  ascending := by
    rw [roots_traversal]
    exact h.roots_sortedLT
  first_eq := by
    have hzero : 0 ∈ F.roots := (h.mem_roots_iff hg).mpr ⟨hg.nodes_pos, by simp⟩
    have hsorted := h.roots_sortedLT.pairwise
    rw [← Array.getElem?_toList, roots_traversal]
    cases hroots : F.roots with
    | nil => simp [hroots] at hzero
    | cons r rest =>
      rw [hroots] at hzero hsorted
      rcases List.mem_cons.mp hzero with rfl | hmem
      · rfl
      · exact absurd (List.rel_of_pairwise_cons hsorted hmem) (Nat.not_lt_zero r)
  mem_roots_iff r := by
    rw [mem_roots_traversal]
    exact h.mem_roots_iff hg
  tree_iff v hv r := by
    rw [mem_roots_traversal]
    exact h.tree_iff hg hv

end Spans

namespace Traversal.RootedAtLeast

variable {g g' : Digraph} {t t' : Traversal}

/-- Roots are determined by the nodes and by which of them reach which. -/
theorem roots_eq (h : t.RootedAtLeast g) (h' : t'.RootedAtLeast g')
    (hnodes : g'.nodeCount = g.nodeCount) (hreaches : g'.Reaches = g.Reaches) :
    t'.roots = t.roots := by
  rw [← Array.toList_inj]
  refine h'.ascending.eq_of_mem_iff h.ascending fun r => ?_
  rw [Array.mem_toList_iff, Array.mem_toList_iff, h'.mem_roots_iff, h.mem_roots_iff, hnodes,
    hreaches]

/-- And so is the tree of each root. -/
theorem descends_iff (h : t.RootedAtLeast g) (h' : t'.RootedAtLeast g')
    (hnodes : g'.nodeCount = g.nodeCount) (hreaches : g'.Reaches = g.Reaches) {r v : ℕ}
    (hr : r ∈ t.roots) (hv : v < g.nodeCount) : t'.Descends g' r v ↔ t.Descends g r v := by
  have hr' : r ∈ t'.roots := (h.roots_eq h' hnodes hreaches).symm ▸ hr
  have htree := h.tree_iff v hv r
  have htree' := h'.tree_iff v (hnodes.symm ▸ hv) r
  rw [hreaches] at htree'
  constructor
  · exact fun hdescends => (htree.mpr (htree'.mp ⟨hr', hdescends⟩)).2
  · exact fun hdescends => (htree'.mpr (htree.mp ⟨hr, hdescends⟩)).2

end Traversal.RootedAtLeast

/-- On every built graph the roots are the nodes that no smaller node reaches, and each node is
in the tree of the smallest node that reaches it. Any other order of the edges gives the same
roots and the same trees. -/
theorem exists_rootedAtLeast_of_build [Memory] {nodeCount : ℕ} {edges : List Edge} {g : Digraph}
    (h : Digraph.build nodeCount edges = .ok g) :
    ∃ t, classify g = .ok t ∧ t.RootedAtLeast g ∧
      ∀ edges' : List Edge, edges'.Perm edges → ∃ g' t',
        Digraph.build nodeCount edges' = .ok g' ∧ classify g' = .ok t' ∧ t'.roots = t.roots ∧
          ∀ r ∈ t.roots, ∀ v < nodeCount, t'.Descends g' r v ↔ t.Descends g r v := by
  obtain ⟨F, hF, hg, hcount, hedges, hclassify⟩ := exists_spans_of_build h
  have ht := hF.rootedAtLeast hg
  refine ⟨_, hclassify, ht, fun edges' hperm => ?_⟩
  obtain ⟨g', h'⟩ := Digraph.exists_build_of_perm h hperm
  obtain ⟨F', hF', hg', hcount', hedges', hclassify'⟩ := exists_spans_of_build h'
  have ht' := hF'.rootedAtLeast hg'
  have hnodes : g'.nodeCount = g.nodeCount := hcount'.trans hcount.symm
  have hreaches : g'.Reaches = g.Reaches := Digraph.reaches_congr (by rwa [hedges, hedges'])
  refine ⟨g', _, h', hclassify', ht.roots_eq ht' hnodes hreaches, ?_⟩
  intro r hr v hv
  exact ht.descends_iff ht' hnodes hreaches hr (hcount.symm ▸ hv)

theorem exists_rootedAtLeast_tangle :
    Digraph.build 5 [⟨0, 2⟩, ⟨2, 1⟩, ⟨1, 0⟩, ⟨0, 1⟩, ⟨2, 2⟩, ⟨0, 2⟩, ⟨3, 1⟩] = .ok .tangle ∧
      [⟨3, 1⟩, ⟨0, 2⟩, ⟨2, 2⟩, ⟨0, 1⟩, ⟨1, 0⟩, ⟨2, 1⟩, (⟨0, 2⟩ : Edge)].Perm
        [⟨0, 2⟩, ⟨2, 1⟩, ⟨1, 0⟩, ⟨0, 1⟩, ⟨2, 2⟩, ⟨0, 2⟩, ⟨3, 1⟩] ∧
      ∃ t g' t', classify .tangle = .ok t ∧ t.RootedAtLeast .tangle ∧
        Digraph.build 5 [⟨3, 1⟩, ⟨0, 2⟩, ⟨2, 2⟩, ⟨0, 1⟩, ⟨1, 0⟩, ⟨2, 1⟩, ⟨0, 2⟩] = .ok g' ∧
        classify g' = .ok t' ∧ t'.roots = t.roots ∧
        ∀ r ∈ t.roots, ∀ v < 5, t'.Descends g' r v ↔ t.Descends .tangle r v := by
  have hperm : [⟨3, 1⟩, ⟨0, 2⟩, ⟨2, 2⟩, ⟨0, 1⟩, ⟨1, 0⟩, ⟨2, 1⟩, (⟨0, 2⟩ : Edge)].Perm
      [⟨0, 2⟩, ⟨2, 1⟩, ⟨1, 0⟩, ⟨0, 1⟩, ⟨2, 2⟩, ⟨0, 2⟩, ⟨3, 1⟩] := by decide
  obtain ⟨t, hclassify, hrooted, hreordered⟩ :=
    exists_rootedAtLeast_of_build Digraph.build_tangle
  obtain ⟨g', t', hbuild', hclassify', hroots, htrees⟩ := hreordered _ hperm
  exact ⟨Digraph.build_tangle, hperm, t, g', t', hclassify, hrooted, hbuild', hclassify', hroots,
    htrees⟩

end ClassicAlgorithms
