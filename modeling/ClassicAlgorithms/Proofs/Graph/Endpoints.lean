import ClassicAlgorithms.Proofs.DisjointSet.Closure
import ClassicAlgorithms.Proofs.Input.GraphWords

/-!
# The first endpoint out of range

A graph is checked edge by edge while it is built, and a partition has all its endpoints
checked beforehand. Both read the endpoints in the same order, the tail of an edge before
its head, so both stop at the same one and give it as the reason.
-/
namespace ClassicAlgorithms

open GraphInput (endpoints)

/-- Of these identifiers, `node` is the first that is not below `size`. -/
def FirstOutside (size : ℕ) (ids : List ℕ) (node : ℕ) : Prop :=
  ∃ before after, ids = before ++ node :: after ∧ (∀ v ∈ before, v < size) ∧ size ≤ node

section
variable {size v node : ℕ} {ids : List ℕ} {edges : List Edge}

theorem firstOutside_cons_iff :
    FirstOutside size (v :: ids) node ↔
      (size ≤ v ∧ node = v) ∨ (v < size ∧ FirstOutside size ids node) := by
  constructor
  · rintro ⟨before, after, hids, hbefore, hnode⟩
    cases before with
    | nil =>
      obtain ⟨rfl, rfl⟩ := List.cons.inj hids
      exact .inl ⟨hnode, rfl⟩
    | cons w before =>
      obtain ⟨rfl, rfl⟩ := List.cons.inj hids
      obtain ⟨hv, hbefore⟩ := List.forall_mem_cons.mp hbefore
      exact .inr ⟨hv, before, after, rfl, hbefore, hnode⟩
  · rintro (⟨hv, rfl⟩ | ⟨hv, before, after, rfl, hbefore, hnode⟩)
    · exact ⟨[], ids, rfl, by simp, hv⟩
    · exact ⟨v :: before, after, rfl, List.forall_mem_cons.mpr ⟨hv, hbefore⟩, hnode⟩

theorem invalidEndpoint?_eq_some_iff :
    DisjointSet.invalidEndpoint? size edges = some node ↔
      FirstOutside size (endpoints edges) node := by
  rw [DisjointSet.invalidEndpoint?, List.find?_eq_some_iff_append]
  simp only [decide_eq_true_eq, Bool.not_eq_true', decide_eq_false_iff_not, Nat.not_le]
  constructor
  · rintro ⟨hnode, before, after, hids, hbefore⟩
    exact ⟨before, after, hids, hbefore, hnode⟩
  · rintro ⟨before, after, hids, hbefore, hnode⟩
    exact ⟨hnode, before, after, hids, hbefore⟩

/-- Either all edges are in range, or there is a first endpoint that is not. -/
theorem edges_lt_or_exists_firstOutside (size : ℕ) (edges : List Edge) :
    (∀ e ∈ edges, e.tail < size ∧ e.head < size) ∨
      ∃ node, FirstOutside size (endpoints edges) node := by
  cases h : DisjointSet.invalidEndpoint? size edges with
  | none => exact .inl (DisjointSet.invalidEndpoint?_eq_none.mp h)
  | some node => exact .inr ⟨node, invalidEndpoint?_eq_some_iff.mp h⟩

namespace Digraph

/-- Adding edges stops at the first endpoint out of range, whatever edges there are already. -/
theorem foldlM_addEdge_of_firstOutside {g : Digraph}
    (h : FirstOutside g.nodeCount (endpoints edges) node) :
    edges.foldlM addEdge g = .error (.invalidNodeId node g.nodeCount) := by
  -- The graph grows from edge to edge, while its node count stays.
  induction edges generalizing g with
  | nil =>
    obtain ⟨before, after, hids, -⟩ := h
    simp [endpoints] at hids
  | cons e rest ih =>
    have hends : endpoints (e :: rest) = e.tail :: e.head :: endpoints rest := rfl
    rw [hends, firstOutside_cons_iff, firstOutside_cons_iff] at h
    rw [List.foldlM_cons]
    rcases h with ⟨htail, rfl⟩ | ⟨htail, ⟨hhead, rfl⟩ | ⟨hhead, hrest⟩⟩
    · simp [addEdge, htail, bind, Except.bind]
    · simp [addEdge, Nat.not_le.mpr htail, hhead, bind, Except.bind]
    · have hnext : g.addEdge e = .ok (g.withEdge e) := addEdge_eq_ok_iff.mpr ⟨htail, hhead, rfl⟩
      have hstop := ih (g := g.withEdge e) (by rwa [nodeCount_withEdge])
      rw [nodeCount_withEdge] at hstop
      rw [hnext]
      exact hstop

theorem build_of_firstOutside [Memory] (hpos : 0 < size) (hrows : Memory.Grants size rowWidth)
    (h : FirstOutside size (endpoints edges) node) :
    build size edges = .error (.invalidNodeId node size) := by
  rw [build, if_neg (by omega), if_pos hrows]
  have hstop := foldlM_addEdge_of_firstOutside (g := Digraph.discrete size) (by simpa using h)
  rwa [nodeCount_discrete] at hstop

end Digraph

namespace DisjointSet

theorem ofEdges_of_firstOutside [Memory] (h : FirstOutside size (endpoints edges) node) :
    ofEdges size edges = .error (.invalidNodeId node size) := by
  rw [ofEdges, buildCounted, invalidEndpoint?_eq_some_iff.mpr h]
  rfl

theorem exists_ofEdges [Memory] (hlinks : Memory.Grants size linkWidth)
    (hin : ∀ e ∈ edges, e.tail < size ∧ e.head < size) : ∃ d, ofEdges size edges = .ok d := by
  obtain ⟨d, flags, _, hall, -⟩ := exists_rooted_uniteAll hin
  exact ⟨d, map_eq_ok_iff.mpr ⟨(d, flags), buildCounted_eq_ok_iff.mpr ⟨hin, hlinks, hall⟩, rfl⟩⟩

end DisjointSet

end

end ClassicAlgorithms
