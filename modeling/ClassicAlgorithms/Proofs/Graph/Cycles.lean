import ClassicAlgorithms.Proofs.Graph.Roots

/-!
# Back edges and cycles

Every edge but a back edge leads to a node that is finished earlier. Without back edges
the order of finishing therefore rules out cycles, and read backwards it is a topological
order. A back edge closes a cycle with the tree edges between its endpoints.
-/
namespace ClassicAlgorithms

namespace Digraph

/-- Some path of at least one edge comes back to its first node. A self-loop is such a path. -/
def Cyclic (g : Digraph) : Prop := ∃ v, Relation.TransGen g.HasEdge v v

/-- A list of all nodes in which every edge leads from an earlier node to a later one. -/
structure Topological (g : Digraph) (order : List ℕ) : Prop where
  perm : order.Perm (List.range g.nodeCount)
  forward : ∀ e ∈ g.edges, order.idxOf e.tail < order.idxOf e.head

end Digraph

namespace Traversal

/-- The nodes by decreasing postorder number. -/
def byDecreasingPostorder (t : Traversal) : List ℕ :=
  (List.range t.postorder.size).mergeSort fun u v => t.postorder.getD v 0 ≤ t.postorder.getD u 0

/-- By the postorder numbers, `u` is finished no later than `v`. -/
def FinishedBy (t : Traversal) (u v : ℕ) : Prop := ∃ postU postV,
  t.postorder? u = some postU ∧ t.postorder? v = some postV ∧ postU ≤ postV

/-- Back edges are told by the postorder numbers, there are none exactly without cycles, and
then the nodes by decreasing postorder number are in topological order. -/
structure DetectsCycles (g : Digraph) (t : Traversal) : Prop where
  back_iff : ∀ i e, g.edges[i]? = some e →
    (t.kind? i = some .back ↔ t.FinishedBy e.tail e.head)
  count_back_eq_zero_iff : t.count .back = 0 ↔ ¬ g.Cyclic
  topological : t.count .back = 0 → g.Topological t.byDecreasingPostorder

theorem pairwise_byDecreasingPostorder (t : Traversal) :
    t.byDecreasingPostorder.Pairwise fun u v => t.postorder.getD v 0 ≤ t.postorder.getD u 0 := by
  refine (List.pairwise_mergeSort ?_ ?_ _).imp fun h => of_decide_eq_true h
  · intro u v w huv hvw
    simp only [decide_eq_true_eq] at huv hvw ⊢
    exact hvw.trans huv
  · intro u v
    simpa using Nat.le_total _ _

theorem count_eq_zero_iff {t : Traversal} {k : EdgeKind} :
    t.count k = 0 ↔ ∀ i, t.kind? i ≠ some k := by
  rw [count, Array.count_eq_zero, Array.mem_iff_getElem?, not_exists]
  rfl

end Traversal

/-- In a list by decreasing values, the greater value stands first. -/
theorem idxOf_lt_of_pairwise {order : List ℕ} {value : ℕ → ℕ}
    (h : order.Pairwise fun u v => value v ≤ value u) {u v : ℕ} (hu : u ∈ order) (hv : v ∈ order)
    (hlt : value v < value u) : order.idxOf u < order.idxOf v := by
  by_contra hle
  rcases Nat.eq_or_lt_of_le (not_lt.mp hle) with heq | hlater
  · obtain rfl := (List.idxOf_inj hv).mp heq
    exact absurd hlt (lt_irrefl _)
  · have hu' := List.idxOf_lt_length_of_mem hu
    have hv' := List.idxOf_lt_length_of_mem hv
    have hge := List.pairwise_iff_getElem.mp h _ _ hv' hu' hlater
    rw [List.getElem_idxOf, List.getElem_idxOf] at hge
    exact absurd hlt hge.not_gt

namespace Spans

variable {g : Digraph} {F : Forest} {u v i : ℕ} {e : Edge}

/-- Numbers given at the end of a node are all different. -/
theorem finished_inj (h : Spans g F) (hg : g.Sound) (hu : u < g.nodeCount)
    (heq : numberIn F.finishes u = numberIn F.finishes v) : u = v :=
  numberIn_inj (Forest.mem_finishes.mpr ((h.mem_nodes hg).mpr hu)) heq

/-- A back edge is one whose head is not finished before its tail. -/
theorem eq_back_iff_finished_le (h : Spans g F) (hg : g.Sound) (he : g.edges[i]? = some e)
    {k : EdgeKind} (hk : k.Describes F e) :
    k = .back ↔ numberIn F.finishes e.tail ≤ numberIn F.finishes e.head := by
  have hbelow : F.Encloses e.tail e.head ∧ e.head ≠ e.tail →
      ¬ numberIn F.finishes e.tail ≤ numberIn F.finishes e.head := by
    rintro ⟨hin, hne⟩ hle
    exact hne (h.finished_inj hg (hg.head_lt_of_getElem? he) (le_antisymm hin.finished_le hle))
  cases k with
  | tree => simpa using hbelow hk
  | forward => simpa using hbelow hk
  | back => simpa using hk.finished_le
  | cross => simpa using hk.2

theorem kind?_eq_back_iff (h : Spans g F) (hg : g.Sound) (he : g.edges[i]? = some e) :
    (traversal g F).kind? i = some .back ↔
      numberIn F.finishes e.tail ≤ numberIn F.finishes e.head := by
  obtain ⟨k, hkind, hk⟩ := h.exists_kind hg he
  rw [hkind, Option.some.injEq]
  exact h.eq_back_iff_finished_le hg he hk

theorem finishedBy_iff (hu : u < g.nodeCount) (hv : v < g.nodeCount) :
    (traversal g F).FinishedBy u v ↔ numberIn F.finishes u ≤ numberIn F.finishes v := by
  simp only [Traversal.FinishedBy, postorder?_eq_some_iff]
  constructor
  · rintro ⟨_, _, ⟨-, rfl⟩, ⟨-, rfl⟩, hle⟩
    exact hle
  · exact fun hle => ⟨_, _, ⟨hu, rfl⟩, ⟨hv, rfl⟩, hle⟩

/-- Without back edges, every edge leads to a node that is finished earlier. -/
theorem finished_lt_of_hasEdge (h : Spans g F) (hg : g.Sound)
    (hnone : (traversal g F).count .back = 0) (hedge : g.HasEdge u v) :
    numberIn F.finishes v < numberIn F.finishes u := by
  obtain ⟨i, e, he, rfl, rfl⟩ := hedge
  have hnot := Traversal.count_eq_zero_iff.mp hnone i
  rw [ne_eq, h.kind?_eq_back_iff hg he] at hnot
  exact not_le.mp hnot

theorem not_cyclic_of_count_back (h : Spans g F) (hg : g.Sound)
    (hnone : (traversal g F).count .back = 0) : ¬ g.Cyclic := by
  rintro ⟨v, hcycle⟩
  have hearlier : ∀ u w, Relation.TransGen g.HasEdge u w →
      numberIn F.finishes w < numberIn F.finishes u := by
    intro u w hpath
    induction hpath with
    | single hedge => exact h.finished_lt_of_hasEdge hg hnone hedge
    | tail _ hedge ih => exact (h.finished_lt_of_hasEdge hg hnone hedge).trans ih
  exact absurd (hearlier v v hcycle) (lt_irrefl _)

/-- A back edge and the tree edges down from its head to its tail are a cycle. -/
theorem cyclic_of_back (h : Spans g F) (hg : g.Sound)
    (hback : (traversal g F).kind? i = some .back) : g.Cyclic := by
  obtain ⟨m, hm, e, ha, hkind⟩ := (h.kind?_traversal hg i .back).mp hback
  have he := h.getElem?_of_moment hg hm ha
  obtain ⟨k, hk, hdescribes⟩ := h.exists_kind hg he
  obtain rfl := Option.some.inj (hback.symm.trans hk)
  have hdown := (h.descends_iff hg (hg.head_lt_of_getElem? he)).mpr hdescribes
  exact ⟨e.tail, .head' ⟨i, e, he, rfl, rfl⟩ hdown.reaches⟩

theorem topological (h : Spans g F) (hg : g.Sound)
    (hnone : (traversal g F).count .back = 0) :
    g.Topological (traversal g F).byDecreasingPostorder := by
  have hperm : (traversal g F).byDecreasingPostorder.Perm (List.range g.nodeCount) := by
    rw [Traversal.byDecreasingPostorder, size_postorder]
    exact List.mergeSort_perm _ _
  refine ⟨hperm, fun e he => ?_⟩
  obtain ⟨i, hi⟩ := Array.mem_iff_getElem?.mp he
  have ht := hg.tail_lt_of_getElem? hi
  have hh := hg.head_lt_of_getElem? hi
  refine idxOf_lt_of_pairwise (traversal g F).pairwise_byDecreasingPostorder
    (hperm.mem_iff.mpr (List.mem_range.mpr ht)) (hperm.mem_iff.mpr (List.mem_range.mpr hh)) ?_
  rw [getD_postorder ht, getD_postorder hh]
  exact h.finished_lt_of_hasEdge hg hnone ⟨i, e, hi, rfl, rfl⟩

theorem detectsCycles (h : Spans g F) (hg : g.Sound) :
    (traversal g F).DetectsCycles g where
  back_iff i e he := by
    rw [h.kind?_eq_back_iff hg he,
      finishedBy_iff (hg.tail_lt_of_getElem? he) (hg.head_lt_of_getElem? he)]
  count_back_eq_zero_iff := by
    constructor
    · exact h.not_cyclic_of_count_back hg
    · intro hacyclic
      exact Traversal.count_eq_zero_iff.mpr fun i hback => hacyclic (h.cyclic_of_back hg hback)
  topological := h.topological hg

end Spans

/-- On every built graph an edge is a back edge exactly when its tail is finished no later than
its head, there are no back edges exactly when there is no cycle, and then the nodes by
decreasing postorder number are in topological order. -/
theorem exists_detectsCycles_of_build [Memory] {nodeCount : ℕ} {edges : List Edge} {g : Digraph}
    (h : Digraph.build nodeCount edges = .ok g) :
    ∃ t, classify g = .ok t ∧ t.DetectsCycles g := by
  obtain ⟨F, hF, hg, -, -, hclassify⟩ := exists_spans_of_build h
  exact ⟨_, hclassify, hF.detectsCycles hg⟩

/-- Two ways down from node 0 and a later node that leads into both of them: no cycle, but
forward, cross and parallel edges. -/
def Digraph.braid : Digraph where
  edges := #[⟨0, 1⟩, ⟨1, 2⟩, ⟨0, 2⟩, ⟨3, 1⟩, ⟨3, 0⟩, ⟨0, 2⟩]
  adjacency := #[#[0, 2, 5], #[1], #[], #[3, 4]]

theorem exists_detectsCycles_braid :
    Digraph.build 4 [⟨0, 1⟩, ⟨1, 2⟩, ⟨0, 2⟩, ⟨3, 1⟩, ⟨3, 0⟩, ⟨0, 2⟩] = .ok .braid ∧
      ∃ t, classify .braid = .ok t ∧ t.DetectsCycles .braid ∧ t.count .back = 0 ∧
        ¬ Digraph.braid.Cyclic ∧ Digraph.braid.Topological t.byDecreasingPostorder := by
  have hbuild : Digraph.build 4 [⟨0, 1⟩, ⟨1, 2⟩, ⟨0, 2⟩, ⟨3, 1⟩, ⟨3, 0⟩, ⟨0, 2⟩] =
      .ok .braid := by decide
  have hbraid : classify .braid = .ok ⟨#[0, 1, 2, 3],
      #[.tree, .tree, .forward, .cross, .cross, .forward], #[1, 2, 3, 4], #[3, 2, 1, 4],
      #[0, 3]⟩ := by cbv
  obtain ⟨t, hclassify, hcycles⟩ := exists_detectsCycles_of_build hbuild
  have hnone : t.count .back = 0 := by
    rw [← Except.ok.inj (hbraid.symm.trans hclassify)]
    decide
  exact ⟨hbuild, t, hclassify, hcycles, hnone, hcycles.count_back_eq_zero_iff.mp hnone,
    hcycles.topological hnone⟩

end ClassicAlgorithms
