import ClassicAlgorithms.Proofs.Graph.Kinds
import ClassicAlgorithms.Proofs.Graph.Subtree
import Mathlib.Data.Set.Card

/-!
# Subtrees are intervals of numbers

The two numberings are handed out by counters of their own, one at the first visit of
a node and one at its end. Each of them runs through a subtree without a gap, and the
depth of a node accounts for the difference between the two. So the numbers of two
nodes tell whether one of them is an ancestor of the other.
-/
namespace ClassicAlgorithms

namespace Traversal

/-- So many tree edges lead from a root to the node. -/
def HasDepth (g : Digraph) (t : Traversal) : (node depth : ℕ) → Prop :=
  DepthBelow (· ∈ t.roots) (TreeEdge g t)

/-- The subtree of `u` has `size` nodes, and they take up the `size` preorder numbers from that
of `u` on and the `size` postorder numbers up to that of `u`. -/
structure Contiguous (g : Digraph) (t : Traversal) (u pre post size depth : ℕ) : Prop where
  preorder_eq : t.preorder? u = some pre
  postorder_eq : t.postorder? u = some post
  size_eq : {v | t.Descends g u v}.ncard = size
  depth_iff : ∀ d, t.HasDepth g u d ↔ d = depth
  descends_iff_preorder : ∀ v, t.Descends g u v ↔
    ∃ number, t.preorder? v = some number ∧ pre ≤ number ∧ number < pre + size
  descends_iff_postorder : ∀ v, t.Descends g u v ↔
    ∃ number, t.postorder? v = some number ∧ post < number + size ∧ number ≤ post
  balance : post + depth + 1 = pre + size

/-- By both of its numbers, `v` comes no earlier and ends no later than `u`. -/
def Within (t : Traversal) (u v : ℕ) : Prop := ∃ preU preV postU postV,
  t.preorder? u = some preU ∧ t.preorder? v = some preV ∧
    t.postorder? u = some postU ∧ t.postorder? v = some postV ∧ preU ≤ preV ∧ postV ≤ postU

end Traversal

namespace Spans

variable {g : Digraph} {F : Forest} {u v depth number : ℕ} {block : List ℕ}

theorem preorder?_eq_some_iff :
    (traversal g F).preorder? v = some number ↔ v < g.nodeCount ∧ numberIn F.nodes v = number := by
  simp [Traversal.preorder?, traversal, Progress.traversal, Progress.start,
    getElem?_table_eq_some_iff]

theorem postorder?_eq_some_iff :
    (traversal g F).postorder? v = some number ↔
      v < g.nodeCount ∧ numberIn F.finishes v = number := by
  simp [Traversal.postorder?, traversal, Progress.traversal, Progress.start,
    getElem?_table_eq_some_iff]

@[simp] theorem size_postorder : (traversal g F).postorder.size = g.nodeCount := size_table

theorem getD_postorder (hv : v < g.nodeCount) :
    (traversal g F).postorder.getD v 0 = numberIn F.finishes v := by
  simp [traversal, Progress.traversal, Progress.start, getD_table hv]

theorem hasDepth_eq_depth (h : Spans g F) (hg : g.Sound) :
    (traversal g F).HasDepth g = F.Depth := by
  simp only [Traversal.HasDepth, Forest.Depth, mem_roots_traversal, h.treeEdge_eq_link hg]

/-- The subtree of `u` is the block of `u`. -/
theorem descends_iff_mem_block (h : Spans g F) (hg : g.Sound) (hu : u < g.nodeCount)
    (hblock : F.Block u block depth) (v : ℕ) :
    (traversal g F).Descends g u v ↔ v ∈ block := by
  rw [h.descends_iff hg hu, hblock.mem_iff_encloses]

theorem ncard_descends (h : Spans g F) (hg : g.Sound) (hu : u < g.nodeCount)
    (hblock : F.Block u block depth) :
    {v | (traversal g F).Descends g u v}.ncard = block.length := by
  have hset : {v | (traversal g F).Descends g u v} = (block.toFinset : Set ℕ) := by
    ext v
    simp [h.descends_iff_mem_block hg hu hblock]
  rw [hset, Set.ncard_coe_finset, List.toFinset_card_of_nodup hblock.nodup]

theorem lt_of_mem_block (h : Spans g F) (hg : g.Sound) (hu : u < g.nodeCount)
    (hblock : F.Block u block depth) (hv : v ∈ block) : v < g.nodeCount := by
  have hle := ((hblock.mem_iff_encloses v).mp hv).discovered_le
  exact (h.mem_nodes hg).mp (mem_of_numberIn_le ((h.mem_nodes hg).mpr hu) hle)

theorem contiguous (h : Spans g F) (hg : g.Sound) (hu : u < g.nodeCount)
    (hblock : F.Block u block depth) (hdepth : F.Depth u depth) :
    (traversal g F).Contiguous g u (numberIn F.nodes u) (numberIn F.finishes u) block.length
      depth where
  preorder_eq := preorder?_eq_some_iff.mpr ⟨hu, rfl⟩
  postorder_eq := postorder?_eq_some_iff.mpr ⟨hu, rfl⟩
  size_eq := h.ncard_descends hg hu hblock
  depth_iff d := by
    rw [h.hasDepth_eq_depth hg]
    constructor
    · exact fun hd => Explores.depth_unique h hd hdepth
    · rintro rfl
      exact hdepth
  descends_iff_preorder v := by
    simp only [preorder?_eq_some_iff, h.descends_iff_mem_block hg hu hblock]
    constructor
    · intro hv
      exact ⟨_, ⟨h.lt_of_mem_block hg hu hblock hv, rfl⟩, (hblock.mem_iff_discovered v).mp hv⟩
    · rintro ⟨_, ⟨-, rfl⟩, hbetween⟩
      exact (hblock.mem_iff_discovered v).mpr hbetween
  descends_iff_postorder v := by
    simp only [postorder?_eq_some_iff, h.descends_iff_mem_block hg hu hblock]
    constructor
    · intro hv
      exact ⟨_, ⟨h.lt_of_mem_block hg hu hblock hv, rfl⟩, (hblock.mem_iff_finished v).mp hv⟩
    · rintro ⟨_, ⟨-, rfl⟩, hbetween⟩
      exact (hblock.mem_iff_finished v).mpr hbetween
  balance := hblock.balance

/-- Both numbers of a node are at hand. -/
theorem within_iff_encloses (hu : u < g.nodeCount) (hv : v < g.nodeCount) :
    (traversal g F).Within u v ↔ F.Encloses u v := by
  simp only [Traversal.Within, preorder?_eq_some_iff, postorder?_eq_some_iff]
  constructor
  · rintro ⟨_, _, _, _, ⟨-, rfl⟩, ⟨-, rfl⟩, ⟨-, rfl⟩, ⟨-, rfl⟩, hdiscovered, hfinished⟩
    exact ⟨hdiscovered, hfinished⟩
  · rintro ⟨hdiscovered, hfinished⟩
    exact ⟨_, _, _, _, ⟨hu, rfl⟩, ⟨hv, rfl⟩, ⟨hu, rfl⟩, ⟨hv, rfl⟩, hdiscovered, hfinished⟩

end Spans

/-- On every built graph each subtree takes up an interval of either numbering, and the depth of
its root is the difference between the two. Ancestors are told by the numbers alone. -/
theorem exists_contiguous_of_build [Memory] {nodeCount : ℕ} {edges : List Edge} {g : Digraph}
    (h : Digraph.build nodeCount edges = .ok g) :
    ∃ t, classify g = .ok t ∧
      (∀ u < nodeCount, ∃ pre post size depth, t.Contiguous g u pre post size depth) ∧
      ∀ u < nodeCount, ∀ v < nodeCount, t.Descends g u v ↔ t.Within u v := by
  obtain ⟨hg, rfl, -⟩ := Digraph.sound_of_build h
  obtain ⟨F, hF⟩ := exists_spans hg
  refine ⟨Spans.traversal g F, hF.classify_eq hg, ?_, ?_⟩
  · intro u hu
    obtain ⟨block, depth, hblock, hdepth⟩ := hF.exists_block hg hu
    exact ⟨_, _, _, _, hF.contiguous hg hu hblock hdepth⟩
  · intro u hu v hv
    rw [hF.descends_iff hg hu, Spans.within_iff_encloses hu hv]

theorem exists_contiguous_tangle :
    Digraph.build 5 [⟨0, 2⟩, ⟨2, 1⟩, ⟨1, 0⟩, ⟨0, 1⟩, ⟨2, 2⟩, ⟨0, 2⟩, ⟨3, 1⟩] = .ok .tangle ∧
      ∃ t, classify .tangle = .ok t ∧
        (∀ u < 5, ∃ pre post size depth, t.Contiguous .tangle u pre post size depth) ∧
        ∀ u < 5, ∀ v < 5, t.Descends .tangle u v ↔ t.Within u v :=
  ⟨Digraph.build_tangle, exists_contiguous_of_build Digraph.build_tangle⟩

end ClassicAlgorithms
