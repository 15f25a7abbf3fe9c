import ClassicAlgorithms.Proofs.Graph.Ancestry

/-!
# Subtrees are blocks

In both orders of a forest the nodes of a subtree stand next to each other, its root
first in the order of discovery and last in the order of finishing. Whatever is
finished before a subtree was also discovered before it; the nodes that make the
difference are the ones that the subtree lies below.
-/
namespace ClassicAlgorithms

/-- The number of links that lead from a root to a node. -/
inductive DepthBelow (IsRoot : ℕ → Prop) (Link : ℕ → ℕ → Prop) : (node depth : ℕ) → Prop
  | root {v} (hroot : IsRoot v) : DepthBelow IsRoot Link v 0
  | link {u v d} (hu : DepthBelow IsRoot Link u d) (hlink : Link u v) :
      DepthBelow IsRoot Link v (d + 1)

/-- Going up from a node that lies so deep ends in a root. -/
theorem DepthBelow.exists_root {IsRoot : ℕ → Prop} {Link : ℕ → ℕ → Prop} {v d : ℕ}
    (h : DepthBelow IsRoot Link v d) : ∃ r, IsRoot r ∧ Relation.ReflTransGen Link r v := by
  induction h with
  | root hroot => exact ⟨_, hroot, .refl⟩
  | link _ hlink ih =>
    obtain ⟨r, hroot, hreach⟩ := ih
    exact ⟨r, hroot, hreach.tail hlink⟩

namespace Forest

/-- The arc with everything below it is a tree of the forest, and `depth` trees are around it. -/
inductive HasTree (a : Arc) (below : Forest) : Forest → (depth : ℕ) → Prop
  | here {rest} : HasTree a below (grow a below rest) 0
  | skip {b rest d} (h : HasTree a below rest d) : HasTree a below (skip b rest) d
  | under {b inner rest d} (h : HasTree a below inner d) :
      HasTree a below (grow b inner rest) (d + 1)
  | beside {b inner rest d} (h : HasTree a below rest d) : HasTree a below (grow b inner rest) d

variable {F below : Forest} {a : Arc} {u v d : ℕ}

theorem exists_hasTree (hu : u ∈ F.nodes) : ∃ a below d, HasTree a below F d ∧ a.head = u := by
  induction F with
  | nil => simp [nodes] at hu
  | skip b rest ih =>
    obtain ⟨a, below, d, h, ha⟩ := ih hu
    exact ⟨a, below, d, h.skip, ha⟩
  | grow b inner rest ihb ihr =>
    simp only [nodes, List.mem_cons, List.mem_append] at hu
    rcases hu with rfl | hu | hu
    · exact ⟨b, inner, 0, .here, rfl⟩
    · obtain ⟨a, below, d, h, ha⟩ := ihb hu
      exact ⟨a, below, d + 1, h.under, ha⟩
    · obtain ⟨a, below, d, h, ha⟩ := ihr hu
      exact ⟨a, below, d, h.beside, ha⟩

/-- The place of a tree in the two orders. It is discovered as `block` and finished as
`finished`; `depth` of the nodes discovered before it are still open then. -/
structure Split (F : Forest) (block finished : List ℕ) (depth : ℕ) where
  before : List ℕ
  after : List ℕ
  doneBefore : List ℕ
  doneAfter : List ℕ
  nodes_eq : F.nodes = before ++ (block ++ after)
  finishes_eq : F.finishes = doneBefore ++ (finished ++ doneAfter)
  done_subset : doneBefore ⊆ before
  length_eq : before.length = doneBefore.length + depth

theorem HasTree.nonempty_split (h : HasTree a below F d) :
    Nonempty (F.Split (a.head :: below.nodes) (below.finishes ++ [a.head]) d) := by
  induction h with
  | @here rest =>
    exact ⟨[], rest.nodes, [], rest.finishes, by simp [nodes], by simp [finishes], by simp, rfl⟩
  | skip h ih => exact ih.map fun s => { s with }
  | @under b inner rest d h ih =>
    obtain ⟨s⟩ := ih
    refine ⟨b.head :: s.before, s.after ++ rest.nodes, s.doneBefore,
      s.doneAfter ++ b.head :: rest.finishes, ?_, ?_, ?_, ?_⟩
    · simp [nodes, s.nodes_eq]
    · simp [finishes, s.finishes_eq]
    · exact fun v hv => List.mem_cons_of_mem _ (s.done_subset hv)
    · have hlength := s.length_eq
      rw [List.length_cons]
      omega
  | @beside b inner rest d h ih =>
    obtain ⟨s⟩ := ih
    refine ⟨b.head :: (inner.nodes ++ s.before), s.after,
      inner.finishes ++ b.head :: s.doneBefore, s.doneAfter, ?_, ?_, ?_, ?_⟩
    · simp [nodes, s.nodes_eq]
    · simp [finishes, s.finishes_eq]
    · intro v hv
      have hsub := @s.done_subset v
      simp only [List.mem_append, List.mem_cons, mem_finishes] at hv ⊢
      tauto
    · have hlength := s.length_eq
      have hinner := inner.finishes_perm.length_eq
      simp only [List.length_cons, List.length_append]
      omega

namespace Split

variable {block finished : List ℕ}

theorem mem_iff_discovered (s : F.Split block finished d) (hnodup : F.nodes.Nodup) (v : ℕ) :
    v ∈ block ↔ s.before.length < numberIn F.nodes v ∧
      numberIn F.nodes v ≤ s.before.length + block.length := by
  have h := mem_block_iff (v := v) (s.nodes_eq ▸ hnodup)
  rwa [← s.nodes_eq] at h

theorem mem_iff_finished (s : F.Split block finished d) (hnodup : F.finishes.Nodup) (v : ℕ) :
    v ∈ finished ↔ s.doneBefore.length < numberIn F.finishes v ∧
      numberIn F.finishes v ≤ s.doneBefore.length + finished.length := by
  have h := mem_block_iff (v := v) (s.finishes_eq ▸ hnodup)
  rwa [← s.finishes_eq] at h

theorem nodup_block (s : F.Split block finished d) (hnodup : F.nodes.Nodup) : block.Nodup := by
  rw [s.nodes_eq] at hnodup
  exact (List.nodup_append.mp (List.nodup_append.mp hnodup).2.1).1

/-- The first of the block is discovered right after what comes before the block. -/
theorem numberIn_nodes_first (s : F.Split (u :: block) finished d) (hnodup : F.nodes.Nodup) :
    numberIn F.nodes u = s.before.length + 1 := by
  rw [s.nodes_eq] at hnodup
  have hbefore : u ∉ s.before := fun hmem =>
    List.disjoint_of_nodup_append hnodup hmem (by simp)
  rw [s.nodes_eq, List.cons_append, numberIn_append_cons_self hbefore]

/-- The last of the block is finished right after the others. -/
theorem numberIn_finishes_last (s : F.Split block (finished ++ [u]) d)
    (hnodup : F.finishes.Nodup) :
    numberIn F.finishes u = s.doneBefore.length + finished.length + 1 := by
  have hparts : F.finishes = s.doneBefore ++ finished ++ u :: s.doneAfter := by
    rw [s.finishes_eq]
    simp
  rw [hparts] at hnodup
  have hbefore : u ∉ s.doneBefore ++ finished := fun hmem =>
    List.disjoint_of_nodup_append hnodup hmem List.mem_cons_self
  rw [hparts, numberIn_append_cons_self hbefore, List.length_append]

/-- Whatever is finished before the tree was discovered before it. -/
theorem discovered_of_done (s : F.Split block finished d) (hnodup : F.finishes.Nodup)
    (hv : v ∈ F.nodes) (hdone : numberIn F.finishes v ≤ s.doneBefore.length) :
    numberIn F.nodes v ≤ s.before.length := by
  have hpos := numberIn_pos.mpr (mem_finishes.mpr hv)
  rw [s.finishes_eq] at hnodup hdone hpos
  have hmem : v ∈ s.doneBefore :=
    (@mem_block_iff [] _ _ hnodup v).mpr ⟨hpos, by simpa using hdone⟩
  rw [s.nodes_eq, numberIn_append_left (s.done_subset hmem)]
  exact numberIn_le_length _ _

end Split

/-- The nodes of `block` are those whose time lies within that of `u`. They are consecutive in
both orders, with `u` first in one and last in the other. -/
structure Block (F : Forest) (u : ℕ) (block : List ℕ) (depth : ℕ) : Prop where
  nodup : block.Nodup
  mem_iff_encloses : ∀ v, v ∈ block ↔ F.Encloses u v
  mem_iff_discovered : ∀ v, v ∈ block ↔ numberIn F.nodes u ≤ numberIn F.nodes v ∧
    numberIn F.nodes v < numberIn F.nodes u + block.length
  mem_iff_finished : ∀ v, v ∈ block ↔
    numberIn F.finishes u < numberIn F.finishes v + block.length ∧
      numberIn F.finishes v ≤ numberIn F.finishes u
  balance : numberIn F.finishes u + depth + 1 = numberIn F.nodes u + block.length

theorem HasTree.block (h : HasTree a below F d) (hnodup : F.nodes.Nodup) :
    F.Block a.head (a.head :: below.nodes) d := by
  obtain ⟨s⟩ := h.nonempty_split
  have hdone : F.finishes.Nodup := F.finishes_perm.nodup_iff.mpr hnodup
  have htree : ∀ v, v ∈ a.head :: below.nodes ↔ v ∈ below.finishes ++ [a.head] := by
    simp [or_comm]
  have hnodes := s.mem_iff_discovered hnodup
  have hfinishes := s.mem_iff_finished hdone
  have hfirst := s.numberIn_nodes_first hnodup
  have hlast := s.numberIn_finishes_last hdone
  have hopen := s.length_eq
  have hlength := below.finishes_perm.length_eq
  simp only [List.length_append, List.length_cons, List.length_nil] at hnodes hfinishes
  constructor
  · exact s.nodup_block hnodup
  · intro v
    constructor
    · intro hv
      have hdiscovered := (hnodes v).mp hv
      have hfinished := (hfinishes v).mp ((htree v).mp hv)
      constructor <;> omega
    · rintro ⟨hdiscovered, hfinished⟩
      rw [htree, hfinishes v]
      -- Finished before the tree means discovered before it, and so before its root.
      have hv : v ∈ F.nodes := numberIn_pos.mp (by omega)
      refine ⟨?_, by omega⟩
      by_contra hle
      have := s.discovered_of_done hdone hv (by omega)
      omega
  · intro v
    rw [hnodes v, List.length_cons]
    omega
  · intro v
    rw [htree v, hfinishes v, List.length_cons]
    omega
  · rw [List.length_cons]
    omega

theorem mem_roots : v ∈ F.roots ↔ Arc.seed v ∈ F.grown := by
  simp only [roots, List.mem_filterMap]
  constructor
  · rintro ⟨b, hb, hroot⟩
    cases b with
    | seed w => rwa [Option.some.inj hroot] at hb
    | along i e => simp [Arc.root?] at hroot
  · exact fun h => ⟨_, h, rfl⟩

/-- How far below its root a node was found. -/
def Depth (F : Forest) : (node depth : ℕ) → Prop := DepthBelow (· ∈ F.roots) F.Link

end Forest

namespace Explores

variable {g : Digraph} {seen : List ℕ} {arcs : List Arc} {F : Forest}

/-- If the heads of the arcs are `base` below the root, a tree with `d` trees around it is `d`
further down. -/
theorem depth_of_hasTree (h : Explores g seen arcs F) {G : Forest} (hsub : F.grown ⊆ G.grown)
    {base : ℕ} (harcs : ∀ b ∈ arcs, b ∈ G.grown → G.Depth b.head base) {a : Arc}
    {below : Forest} {d : ℕ} (ht : Forest.HasTree a below F d) : G.Depth a.head (base + d) := by
  induction h generalizing base d with
  | nil => cases ht
  | skip hseen hrest ih =>
    cases ht with
    | skip ht => exact ih hsub (fun b hb => harcs b (List.mem_cons_of_mem _ hb)) ht
  | @grow seen c arcs inner rest hnew hinner hrest ihb ihr =>
    simp only [Forest.grown, List.cons_subset, List.append_subset] at hsub
    obtain ⟨hc, hsubInner, hsubRest⟩ := hsub
    have hdepth := harcs c List.mem_cons_self hc
    cases ht with
    | here => exact hdepth
    | under ht =>
      rw [Nat.add_comm _ 1, ← Nat.add_assoc]
      refine ihb hsubInner ?_ ht
      intro b hb hgrown
      obtain ⟨i, e, -, htail, rfl⟩ := Digraph.mem_arcs.mp hb
      exact .link hdepth ⟨i, e, hgrown, htail, rfl⟩
    | beside ht => exact ihr hsubRest (fun b hb => harcs b (List.mem_cons_of_mem _ hb)) ht

/-- Only one arc finds a node. -/
theorem eq_of_grown (h : Explores g seen arcs F) {a b : Arc} (ha : a ∈ F.grown) (hb : b ∈ F.grown)
    (hhead : a.head = b.head) : a = b := by
  have hnodup : (F.grown.map Arc.head).Nodup := by
    rw [F.map_head_grown]
    exact h.nodes_nodup
  exact List.inj_on_of_nodup_map hnodup ha hb hhead

/-- A root is found by its seed and by no edge. -/
theorem not_link_of_root (h : Explores g seen arcs F) {u r : ℕ} (hroot : r ∈ F.roots) :
    ¬ F.Link u r := by
  rintro ⟨i, e, hgrown, -, hhead⟩
  cases h.eq_of_grown (Forest.mem_roots.mp hroot) hgrown hhead.symm

/-- A node has one depth. -/
theorem depth_unique (h : Explores g seen arcs F) {v d d' : ℕ} (hd : F.Depth v d)
    (hd' : F.Depth v d') : d = d' := by
  induction hd generalizing d' with
  | root hroot =>
    cases hd' with
    | root _ => rfl
    | link _ hlink => exact absurd hlink (h.not_link_of_root hroot)
  | link _ hlink ih =>
    cases hd' with
    | root hroot => exact absurd hlink (h.not_link_of_root hroot)
    | link hu hlink' =>
      obtain ⟨i, e, hgrown, htail, hhead⟩ := hlink
      obtain ⟨j, c, hgrown', htail', hhead'⟩ := hlink'
      cases h.eq_of_grown hgrown hgrown' (hhead.trans hhead'.symm)
      rw [ih (htail.symm.trans htail' ▸ hu)]

end Explores

namespace Spans

variable {g : Digraph} {F : Forest} {u : ℕ}

/-- Below each node lies a block of the two orders, as deep as the node. -/
theorem exists_block (h : Spans g F) (hg : g.Sound) (hu : u < g.nodeCount) :
    ∃ block depth, F.Block u block depth ∧ F.Depth u depth := by
  obtain ⟨a, below, depth, ht, rfl⟩ := Forest.exists_hasTree ((h.mem_nodes hg).mpr hu)
  refine ⟨_, depth, ht.block (Explores.nodes_nodup h), ?_⟩
  have hseeds : ∀ b ∈ g.seeds, b ∈ F.grown → F.Depth b.head 0 := by
    intro b hb hgrown
    obtain ⟨v, -, rfl⟩ := List.mem_map.mp hb
    exact .root (Forest.mem_roots.mpr hgrown)
  simpa using Explores.depth_of_hasTree h (List.Subset.refl _) hseeds ht

end Spans

end ClassicAlgorithms
