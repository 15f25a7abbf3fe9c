import ClassicAlgorithms.DisjointSet
import Mathlib.Data.Finset.Card
import Mathlib.Data.Finset.Range

/-!
# Climbing to a root

Links are never compressed, so the way up from an element grows with the merges. It
grows by one link at most in each merge, and each merge costs a component: the way
is never longer than what is missing from the full count of components. Hence `find`
has enough looks in every forest that merges can produce.
-/
namespace ClassicAlgorithms

namespace DisjointSet

/-- Parent links lead from `node` to `root`, which is its own parent. -/
inductive Climbs (d : DisjointSet) : (links node root : ℕ) → Prop
  | root {v} (hself : d.parent[v]? = some v) : Climbs d 0 v v
  | up {k v w r} (hlink : d.parent[v]? = some w) (hne : w ≠ v) (hrest : Climbs d k w r) :
      Climbs d (k + 1) v r

/-- The forest after the root `root` has been hung under `top`. -/
def hang (d : DisjointSet) (root top : ℕ) : DisjointSet :=
  ⟨d.parent.setIfInBounds root top, d.components - 1⟩

variable {d : DisjointSet} {k v r root top left right : ℕ}

@[simp] theorem size_hang (d : DisjointSet) (root top : ℕ) : (d.hang root top).size = d.size := by
  simp [hang, size]

@[simp] theorem components_hang (d : DisjointSet) (root top : ℕ) :
    (d.hang root top).components = d.components - 1 := rfl

theorem getElem?_hang (hroot : root < d.size) (top v : ℕ) :
    (d.hang root top).parent[v]? = if root = v then some top else d.parent[v]? := by
  unfold size at hroot
  by_cases h : root = v
  · subst h
    simp [hang, hroot]
  · simp [hang, h]

theorem lt_size_of_getElem? (h : d.parent[v]? = some r) : v < d.size :=
  (Array.getElem?_eq_some_iff.mp h).1

namespace Climbs

theorem root_self (h : d.Climbs k v r) : d.parent[r]? = some r := by
  induction h with
  | root hself => exact hself
  | up _ _ _ ih => exact ih

/-- The way up from a root ends there. -/
theorem eq_of_self (h : d.Climbs k v r) (hself : d.parent[v]? = some v) : r = v := by
  cases h with
  | root => rfl
  | up hlink hne _ => exact absurd (Option.some.inj (hlink.symm.trans hself)) hne

/-- A look is needed for each link and one for the root. -/
theorem climb_eq (h : d.Climbs k v r) {looks : ℕ} (hlooks : k < looks) :
    d.climb looks v = .ok r := by
  induction h generalizing looks with
  | root hself =>
    obtain ⟨looks, rfl⟩ : ∃ n, looks = n + 1 := ⟨looks - 1, by omega⟩
    simp [climb, parentOf, hself, bind, Except.bind, pure, Except.pure]
  | @up k v w r hlink hne _ ih =>
    obtain ⟨looks, rfl⟩ : ∃ n, looks = n + 1 := ⟨looks - 1, by omega⟩
    have hrest : d.climb looks w = .ok r := ih (by omega)
    simp [climb, parentOf, hlink, hne, hrest, bind, Except.bind]

/-- Hanging a root under another one moves the ends at the first root to the second, one link
further up, and leaves all others. -/
protected theorem hang (h : d.Climbs k v r) (hroot : d.parent[root]? = some root)
    (htop : d.parent[top]? = some top) (hne : top ≠ root) :
    ∃ links ≤ k + 1, (d.hang root top).Climbs links v (if r = root then top else r) := by
  have hentry := getElem?_hang (lt_size_of_getElem? hroot) top
  induction h with
  | @root v hself =>
    by_cases hv : v = root
    · subst hv
      have hend : (d.hang v top).parent[top]? = some top := by
        rw [hentry, if_neg (Ne.symm hne), htop]
      refine ⟨1, le_rfl, ?_⟩
      rw [if_pos rfl]
      exact .up (by rw [hentry, if_pos rfl]) hne (.root hend)
    · refine ⟨0, by omega, ?_⟩
      rw [if_neg hv]
      exact .root (by rw [hentry, if_neg (Ne.symm hv), hself])
  | @up k v w r hlink hup _ ih =>
    obtain ⟨links, hlinks, hclimbs⟩ := ih
    have hv : root ≠ v := by
      rintro rfl
      rw [hroot, Option.some.injEq] at hlink
      exact hup hlink.symm
    exact ⟨links + 1, by omega, .up (by rw [hentry, if_neg hv, hlink]) hup hclimbs⟩

end Climbs

/-- The forest climbs to the root that `root` names for each element, on a way that is not
longer than the merges made, and the count is that of the roots. -/
structure Rooted (d : DisjointSet) (root : ℕ → ℕ) : Prop where
  climbs : ∀ v < d.size, ∃ k, k + d.components ≤ d.size ∧ d.Climbs k v (root v)
  components_eq : d.components = ((Finset.range d.size).filter fun v => root v = v).card

/-- The roots after a merge: those at the root of `right` are now at the root of `left`. -/
def mergedRoot (root : ℕ → ℕ) (left right v : ℕ) : ℕ :=
  if root v = root right then root left else root v

theorem mergedRoot_of_eq {root : ℕ → ℕ} (h : root left = root right) :
    mergedRoot root left right = root := by
  funext v
  unfold mergedRoot
  split_ifs with hv
  · rw [h, hv]
  · rfl

namespace Rooted

variable {root : ℕ → ℕ}

protected theorem discrete (n : ℕ) : (discrete n).Rooted id where
  climbs v hv := by
    rw [size_discrete] at hv
    exact ⟨0, by simp [DisjointSet.discrete, size], .root (by simp [DisjointSet.discrete, hv])⟩
  components_eq := by simp [DisjointSet.discrete, size]

theorem components_le_size (h : d.Rooted root) : d.components ≤ d.size := by
  rw [h.components_eq]
  simpa using Finset.card_filter_le (Finset.range d.size) fun v => root v = v

theorem root_self (h : d.Rooted root) (hv : v < d.size) : d.parent[root v]? = some (root v) := by
  obtain ⟨k, -, hclimbs⟩ := h.climbs v hv
  exact hclimbs.root_self

theorem root_lt (h : d.Rooted root) (hv : v < d.size) : root v < d.size :=
  lt_size_of_getElem? (h.root_self hv)

theorem find_eq (h : d.Rooted root) (hv : v < d.size) : d.find v = .ok (root v) := by
  obtain ⟨k, hk, hclimbs⟩ := h.climbs v hv
  exact hclimbs.climb_eq (by omega)

/-- The root of a root is the root itself. -/
theorem root_root (h : d.Rooted root) (hv : v < d.size) : root (root v) = root v := by
  obtain ⟨k, -, hclimbs⟩ := h.climbs (root v) (h.root_lt hv)
  exact hclimbs.eq_of_self (h.root_self hv)

/-- The component of an element is counted. -/
theorem components_pos (h : d.Rooted root) (hv : v < d.size) : 0 < d.components := by
  rw [h.components_eq, Finset.card_pos]
  exact ⟨root v, by simp [h.root_lt hv, h.root_root hv]⟩

/-- The merge leaves the roots that there were, except for the root of `right`. -/
theorem mergedRoot_eq_self_iff (h : d.Rooted root) (hl : left < d.size) (hr : right < d.size)
    (hne : root left ≠ root right) :
    mergedRoot root left right v = v ↔ v ≠ root right ∧ root v = v := by
  have hleft := h.root_root hl
  have hright := h.root_root hr
  unfold mergedRoot
  split_ifs with hv
  · constructor
    · rintro rfl
      exact absurd (hleft.symm.trans hv) hne
    · rintro ⟨hvr, hself⟩
      exact absurd (hself.symm.trans hv) hvr
  · constructor
    · intro hself
      refine ⟨?_, hself⟩
      rintro rfl
      exact hv hright
    · exact And.right

/-- Hanging one root under another takes exactly one root away. -/
protected theorem hang (h : d.Rooted root) (hl : left < d.size) (hr : right < d.size)
    (hne : root left ≠ root right) :
    (d.hang (root right) (root left)).Rooted (mergedRoot root left right) := by
  have hmem : root right ∈ (Finset.range d.size).filter fun v => root v = v := by
    simp [h.root_lt hr, h.root_root hr]
  have hroots : ((Finset.range d.size).filter fun v => mergedRoot root left right v = v) =
      ((Finset.range d.size).filter fun v => root v = v).erase (root right) := by
    ext v
    simp only [Finset.mem_filter, Finset.mem_erase, h.mergedRoot_eq_self_iff hl hr hne]
    tauto
  constructor
  · intro v hv
    rw [size_hang] at hv
    obtain ⟨k, hk, hclimbs⟩ := h.climbs v hv
    obtain ⟨links, hlinks, hnew⟩ := hclimbs.hang (h.root_self hr) (h.root_self hl) hne
    have hpos := h.components_pos hr
    refine ⟨links, ?_, hnew⟩
    rw [components_hang, size_hang]
    omega
  · rw [size_hang, hroots, Finset.card_erase_of_mem hmem, ← h.components_eq]
    rfl

/-- A merge within a component changes nothing. -/
theorem union_of_eq (h : d.Rooted root) (hl : left < d.size) (hr : right < d.size)
    (hsame : root left = root right) : d.union left right = .ok (d, false) := by
  unfold union
  rw [h.find_eq hl, h.find_eq hr]
  simp [bind, Except.bind, hsame, pure, Except.pure]

/-- A merge of two components hangs the root of the right one under that of the left one. -/
theorem union_of_ne (h : d.Rooted root) (hl : left < d.size) (hr : right < d.size)
    (hne : root left ≠ root right) :
    d.union left right = .ok (d.hang (root right) (root left), true) := by
  unfold union
  rw [h.find_eq hl, h.find_eq hr]
  simp [bind, Except.bind, hne, pure, Except.pure, DisjointSet.hang]

/-- A merge of two elements is always made, and it moves roots as described. -/
theorem exists_union (h : d.Rooted root) (hl : left < d.size) (hr : right < d.size) :
    ∃ d' merged, d.union left right = .ok (d', merged) ∧ d'.size = d.size ∧
      d'.Rooted (mergedRoot root left right) := by
  by_cases hsame : root left = root right
  · refine ⟨d, false, h.union_of_eq hl hr hsame, rfl, ?_⟩
    rw [mergedRoot_of_eq hsame]
    exact h
  · exact ⟨_, true, h.union_of_ne hl hr hsame, size_hang _ _ _, h.hang hl hr hsame⟩

end Rooted

end DisjointSet

end ClassicAlgorithms
