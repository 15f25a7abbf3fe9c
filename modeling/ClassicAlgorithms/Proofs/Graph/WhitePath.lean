import ClassicAlgorithms.Proofs.Graph.Intervals
import Mathlib.Data.List.Chain

/-!
# The white-path law

A node becomes a descendant of `u` exactly when some path leads to it on which nothing
was discovered before `u`. The tree edges are such a path. Conversely no edge leads out
of the subtree of `u` to a later node: an edge to an ancestor of its tail stays below
`u` when it does not end before `u`, and all other edges end at earlier nodes or at
descendants of their tails.
-/
namespace ClassicAlgorithms

namespace Digraph

/-- Some edge leads from `u` to `v`. -/
def HasEdge (g : Digraph) (u v : ℕ) : Prop := ∃ (i : ℕ) (e : Edge),
  g.edges[i]? = some e ∧ e.tail = u ∧ e.head = v

/-- The nodes of a directed path, from `u` to `v` and both included. -/
structure IsPath (g : Digraph) (u v : ℕ) (path : List ℕ) : Prop where
  edges : path.IsChain g.HasEdge
  first : path.head? = some u
  last : path.getLast? = some v

end Digraph

/-- By the preorder numbers, `w` was not discovered before `u`. -/
def Traversal.NoEarlier (t : Traversal) (u w : ℕ) : Prop := ∃ preU preW,
  t.preorder? u = some preU ∧ t.preorder? w = some preW ∧ preU ≤ preW

theorem Traversal.TreeEdge.hasEdge {g : Digraph} {t : Traversal} {u v : ℕ}
    (h : t.TreeEdge g u v) : g.HasEdge u v := by
  obtain ⟨i, e, he, -, ht, hh⟩ := h
  exact ⟨i, e, he, ht, hh⟩

namespace Spans

variable {g : Digraph} {F : Forest} {u v w x y : ℕ}

theorem noEarlier_iff (h : Spans g F) (hg : g.Sound) (hu : u < g.nodeCount) :
    (traversal g F).NoEarlier u w ↔ numberIn F.nodes u ≤ numberIn F.nodes w := by
  simp only [Traversal.NoEarlier, preorder?_eq_some_iff]
  constructor
  · rintro ⟨_, _, ⟨-, rfl⟩, ⟨-, rfl⟩, hle⟩
    exact hle
  · intro hle
    have hw := mem_of_numberIn_le ((h.mem_nodes hg).mpr hu) hle
    exact ⟨_, _, ⟨hu, rfl⟩, ⟨(h.mem_nodes hg).mp hw, rfl⟩, hle⟩

/-- What is discovered between a node and one of its descendants is a descendant, too. -/
theorem encloses_of_between (h : Spans g F) (hg : g.Sound) (hu : u < g.nodeCount)
    (hx : F.Encloses u x) (huy : numberIn F.nodes u ≤ numberIn F.nodes y)
    (hyx : numberIn F.nodes y ≤ numberIn F.nodes x) : F.Encloses u y := by
  obtain ⟨block, depth, hblock, -⟩ := h.exists_block hg hu
  have hlast := ((hblock.mem_iff_discovered x).mp ((hblock.mem_iff_encloses x).mpr hx)).2
  exact (hblock.mem_iff_encloses y).mp
    ((hblock.mem_iff_discovered y).mpr ⟨huy, hyx.trans_lt hlast⟩)

/-- An edge from the subtree of `u` leads to an earlier node or stays in the subtree. -/
theorem encloses_of_hasEdge (h : Spans g F) (hg : g.Sound) (hu : u < g.nodeCount)
    (hedge : g.HasEdge x y) (hx : F.Encloses u x)
    (hy : numberIn F.nodes u ≤ numberIn F.nodes y) : F.Encloses u y := by
  obtain ⟨i, e, he, rfl, rfl⟩ := hedge
  obtain ⟨kind, -, hkind⟩ := h.exists_kind hg he
  cases kind with
  | tree => exact hx.trans hkind.1
  | forward => exact hx.trans hkind.1
  | back => exact h.encloses_of_between hg hu hx hy hkind.discovered_le
  | cross => exact ⟨hy, hkind.2.le.trans hx.finished_le⟩

/-- The tree edges to a descendant are a path of descendants. -/
theorem exists_isPath_of_descends (h : Spans g F) (hg : g.Sound) (hu : u < g.nodeCount)
    (hv : (traversal g F).Descends g u v) :
    ∃ path, g.IsPath u v path ∧ ∀ w ∈ path, (traversal g F).NoEarlier u w := by
  obtain ⟨rest, hchain, hlast⟩ := List.exists_isChain_cons_of_relationReflTransGen hv
  have hdescends : ∀ w ∈ u :: rest, (traversal g F).Descends g u w :=
    hchain.induction _ _ (fun _ _ hedge hw => hw.tail hedge) fun _ => .refl
  refine ⟨u :: rest, ⟨hchain.imp fun _ _ hedge => hedge.hasEdge, rfl, ?_⟩, ?_⟩
  · rw [List.getLast?_eq_some_getLast (List.cons_ne_nil _ _), hlast]
  · intro w hw
    exact (h.noEarlier_iff hg hu).mpr ((h.descends_iff hg hu).mp (hdescends w hw)).discovered_le

/-- A path of nodes that are no earlier than `u` never leaves the subtree of `u`. -/
theorem descends_of_isPath (h : Spans g F) (hg : g.Sound) (hu : u < g.nodeCount) {path : List ℕ}
    (hpath : g.IsPath u v path) (hlater : ∀ w ∈ path, (traversal g F).NoEarlier u w) :
    (traversal g F).Descends g u v := by
  have hchain : path.IsChain fun x y =>
      g.HasEdge x y ∧ numberIn F.nodes u ≤ numberIn F.nodes y :=
    hpath.edges.imp_of_mem_imp fun x y _ hy hedge =>
      ⟨hedge, (h.noEarlier_iff hg hu).mp (hlater y hy)⟩
  have hbelow : ∀ w ∈ path, F.Encloses u w := by
    refine hchain.induction _ _ ?_ ?_
    · rintro x y ⟨hedge, hy⟩ hx
      exact h.encloses_of_hasEdge hg hu hedge hx hy
    · intro hne
      have hfirst := hpath.first
      rw [List.head?_eq_some_head hne, Option.some.injEq] at hfirst
      rw [hfirst]
      exact ⟨le_rfl, le_rfl⟩
  exact (h.descends_iff hg hu).mpr (hbelow v (List.mem_of_getLast? hpath.last))

end Spans

/-- On every built graph, `v` is `u` or one of its descendants exactly when a directed path leads
from `u` to `v` whose nodes have no smaller preorder number than `u`. -/
theorem descends_iff_exists_isPath_of_build [Memory] {nodeCount : ℕ} {edges : List Edge}
    {g : Digraph} (h : Digraph.build nodeCount edges = .ok g) :
    ∃ t, classify g = .ok t ∧ ∀ u < nodeCount, ∀ v < nodeCount,
      t.Descends g u v ↔ ∃ path, g.IsPath u v path ∧ ∀ w ∈ path, t.NoEarlier u w := by
  obtain ⟨hg, rfl, -⟩ := Digraph.sound_of_build h
  obtain ⟨F, hF⟩ := exists_spans hg
  refine ⟨Spans.traversal g F, hF.classify_eq hg, ?_⟩
  intro u hu v _
  constructor
  · exact hF.exists_isPath_of_descends hg hu
  · rintro ⟨path, hpath, hlater⟩
    exact hF.descends_of_isPath hg hu hpath hlater

theorem descends_iff_exists_isPath_tangle :
    Digraph.build 5 [⟨0, 2⟩, ⟨2, 1⟩, ⟨1, 0⟩, ⟨0, 1⟩, ⟨2, 2⟩, ⟨0, 2⟩, ⟨3, 1⟩] = .ok .tangle ∧
      ∃ t, classify .tangle = .ok t ∧ ∀ u < 5, ∀ v < 5,
        t.Descends .tangle u v ↔
          ∃ path, Digraph.tangle.IsPath u v path ∧ ∀ w ∈ path, t.NoEarlier u w :=
  ⟨Digraph.build_tangle, descends_iff_exists_isPath_of_build Digraph.build_tangle⟩

end ClassicAlgorithms
