import ClassicAlgorithms.Proofs.DisjointSet.Closure
import Mathlib.Order.Bounds.Basic

/-!
# The fewest edges that connect everything

A merge takes away one component at most, so that many merges are needed, and two
different roots can be merged as long as there are two: so many are enough.
-/
namespace ClassicAlgorithms

namespace DisjointSet

variable {d d' : DisjointSet} {size left right : ℕ} {merged : Bool} {edges : List Edge}
  {flags : List Bool} {root : ℕ → ℕ}

/-- The pairs are in range, and merging along them leaves one component at most. -/
def ConnectedBy (d : DisjointSet) (edges : List Edge) : Prop :=
  (∀ e ∈ edges, e.tail < d.size ∧ e.head < d.size) ∧
    ∃ d' flags, d.uniteAll edges = .ok (d', flags) ∧ d'.components ≤ 1

/-- A merge takes away one component at most. -/
theorem components_le_of_union (h : d.union left right = .ok (d', merged)) :
    d.components ≤ d'.components + 1 := by
  simp only [union, bind_eq_ok_iff] at h
  obtain ⟨leftRoot, -, rightRoot, -, h⟩ := h
  split_ifs at h
  · cases h
    omega
  · cases h
    simp only
    omega

theorem components_le_of_uniteAll (h : d.uniteAll edges = .ok (d', flags)) :
    d.components ≤ d'.components + edges.length := by
  induction edges generalizing d flags with
  | nil =>
    cases h
    exact le_rfl
  | cons e rest ih =>
    simp only [uniteAll, bind_eq_ok_iff, Prod.exists] at h
    obtain ⟨next, merged, hunion, last, laterFlags, hrest, h⟩ := h
    cases h
    have hfirst := components_le_of_union hunion
    have hlater := ih hrest
    rw [List.length_cons]
    omega

/-- As long as there are two components, there are two roots to be merged. -/
theorem Rooted.exists_ne (h : d.Rooted root) (hmany : 1 < d.components) :
    ∃ left right, left < d.size ∧ right < d.size ∧ root left ≠ root right := by
  rw [h.components_eq, Finset.one_lt_card] at hmany
  obtain ⟨left, hleft, right, hright, hne⟩ := hmany
  obtain ⟨hl, hself⟩ := Finset.mem_filter.mp hleft
  obtain ⟨hr, hself'⟩ := Finset.mem_filter.mp hright
  refine ⟨left, right, Finset.mem_range.mp hl, Finset.mem_range.mp hr, ?_⟩
  rwa [hself, hself']

/-- As many pairs as there are components to spare connect everything. -/
theorem Rooted.exists_connectedBy (h : d.Rooted root) :
    ∃ edges, d.ConnectedBy edges ∧ edges.length = d.minConnectingEdges := by
  induction hspare : d.minConnectingEdges generalizing d root with
  | zero =>
    refine ⟨[], ⟨by simp, d, [], rfl, ?_⟩, rfl⟩
    unfold minConnectingEdges at hspare
    omega
  | succ spare ih =>
    unfold minConnectingEdges at hspare
    obtain ⟨left, right, hl, hr, hne⟩ := h.exists_ne (by omega)
    have hunion := h.union_of_ne hl hr hne
    obtain ⟨rest, ⟨hin, last, flags, hrest, hone⟩, hlength⟩ := ih (h.hang hl hr hne) (by
      rw [minConnectingEdges, components_hang]
      omega)
    rw [size_hang] at hin
    refine ⟨⟨left, right⟩ :: rest, ⟨?_, last, true :: flags, ?_, hone⟩, ?_⟩
    · exact List.forall_mem_cons.mpr ⟨⟨hl, hr⟩, hin⟩
    · simp [uniteAll, hunion, hrest, bind, Except.bind, pure, Except.pure]
    · rw [List.length_cons, hlength]

theorem Rooted.isLeast_minConnectingEdges (h : d.Rooted root) :
    IsLeast {k | ∃ edges, d.ConnectedBy edges ∧ edges.length = k} d.minConnectingEdges := by
  refine ⟨h.exists_connectedBy, ?_⟩
  rintro k ⟨edges, ⟨-, d', flags, hall, hone⟩, rfl⟩
  have hle := components_le_of_uniteAll hall
  unfold minConnectingEdges
  omega

/-- However a partition came about by merges, the number that it reports is the length of a
shortest list of pairs that connects everything. With no elements it is 0. -/
theorem isLeast_minConnectingEdges_of_unions {d : DisjointSet} (hcreate : create size = .ok d)
    (hin : ∀ e ∈ edges, e.tail < size ∧ e.head < size) :
    ∃ d' flags, d.uniteAll edges = .ok (d', flags) ∧ d'.size = size ∧
      IsLeast {k | ∃ more, d'.ConnectedBy more ∧ more.length = k} d'.minConnectingEdges ∧
      (size = 0 → d'.minConnectingEdges = 0) := by
  unfold create at hcreate
  split_ifs at hcreate
  obtain rfl := Except.ok.inj hcreate
  obtain ⟨d', flags, root, hall, hsize, hrooted, -⟩ := exists_rooted_uniteAll hin
  refine ⟨d', flags, hall, hsize, hrooted.isLeast_minConnectingEdges, fun hempty => ?_⟩
  have hle := hrooted.components_le_size
  unfold minConnectingEdges
  omega

theorem isLeast_minConnectingEdges_of_triangle :
    (create 7 = .ok (discrete 7) ∧
      (∀ e ∈ [⟨0, 1⟩, ⟨3, 2⟩, ⟨2, 0⟩, (⟨1, 3⟩ : Edge)], e.tail < 7 ∧ e.head < 7) ∧
      ∃ d flags, (discrete 7).uniteAll [⟨0, 1⟩, ⟨3, 2⟩, ⟨2, 0⟩, ⟨1, 3⟩] = .ok (d, flags) ∧
        d.size = 7 ∧ d.minConnectingEdges = 3 ∧
        IsLeast {k | ∃ more, d.ConnectedBy more ∧ more.length = k} d.minConnectingEdges) ∧
    create 0 = .ok (discrete 0) ∧ ∃ d flags, (discrete 0).uniteAll [] = .ok (d, flags) ∧
      d.minConnectingEdges = 0 := by
  have hcreate : create 7 = .ok (discrete 7) := by decide
  have hin : ∀ e ∈ [⟨0, 1⟩, ⟨3, 2⟩, ⟨2, 0⟩, (⟨1, 3⟩ : Edge)], e.tail < 7 ∧ e.head < 7 := by decide
  have hforest : (discrete 7).uniteAll [⟨0, 1⟩, ⟨3, 2⟩, ⟨2, 0⟩, ⟨1, 3⟩] =
      .ok (⟨#[3, 0, 3, 3, 4, 5, 6], 4⟩, [true, true, true, false]) := by decide
  obtain ⟨d, flags, hall, hsize, hleast, -⟩ := isLeast_minConnectingEdges_of_unions hcreate hin
  have hthree : d.minConnectingEdges = 3 := by
    obtain ⟨rfl, -⟩ := Prod.mk.inj (Except.ok.inj (hforest.symm.trans hall))
    rfl
  have hempty : create 0 = .ok (discrete 0) := by decide
  have hnoPairs : ∀ e ∈ ([] : List Edge), e.tail < 0 ∧ e.head < 0 := by simp
  obtain ⟨d', flags', hnone, -, -, hzero⟩ := isLeast_minConnectingEdges_of_unions hempty hnoPairs
  exact ⟨⟨hcreate, hin, d, flags, hall, hsize, hthree, hleast⟩, hempty, d', flags', hnone,
    hzero rfl⟩

end DisjointSet

end ClassicAlgorithms
