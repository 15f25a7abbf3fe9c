import ClassicAlgorithms.Proofs.DisjointSet.Reachable

/-!
# What a merge leaves alone

A merge of two components writes one link, that of the root on the right. Whatever climbed
to this root, from however deep in its tree, now climbs one link further to the root on the
left, and everything else keeps its root. A merge within a component writes nothing, and
neither does one that is asked for with an identifier that is no element. As a failed merge
has no set to show, this is said of the merge that is made in place.
-/
namespace ClassicAlgorithms

namespace DisjointSet

/-- `union` on a set that is changed in place, write by write. If it fails, what has been written
until then stays. -/
def unionInPlace (left right : ℕ) : EStateM Fault DisjointSet Bool := do
  let leftRoot ← MonadExcept.ofExcept ((← get).find left)
  let rightRoot ← MonadExcept.ofExcept ((← get).find right)
  if leftRoot = rightRoot then return false
  modify fun d => { d with parent := d.parent.setIfInBounds rightRoot leftRoot }
  modify fun d => { d with components := d.components - 1 }
  return true

/-- Asking for something writes nothing, whether there is an answer or not. -/
theorem run_ofExcept {α : Type} (answer : Except Fault α) (d : DisjointSet) :
    (MonadExcept.ofExcept answer : EStateM Fault DisjointSet α).run d =
      match answer with
      | .ok a => .ok a d
      | .error fault => .error fault d := by
  cases answer <;> rfl

/-- Both ways to merge agree. Both roots are known before anything is written, so a failure leaves
the set as it was. -/
theorem run_unionInPlace (d : DisjointSet) (left right : ℕ) :
    (unionInPlace left right).run d =
      match d.union left right with
      | .ok (d', merged) => .ok merged d'
      | .error fault => .error fault d := by
  simp only [unionInPlace, union, EStateM.run_bind, EStateM.run_get, run_ofExcept]
  cases d.find left with
  | error fault => rfl
  | ok leftRoot =>
    cases hright : d.find right with
    | error fault =>
      simp only [hright]
      rfl
    | ok rightRoot =>
      simp only [hright]
      by_cases hsame : leftRoot = rightRoot
      · simp only [hsame, if_true, bind, Except.bind]
        rfl
      · simp only [hsame, if_false, bind, Except.bind]
        rfl

/-- The forest `d'` is `d` with the root `root` hung under `top`. One link and the count are
different, and the elements that climbed to `root` are the only ones that climb elsewhere. -/
structure HungUnder (d' d : DisjointSet) (root top : ℕ) : Prop where
  size_eq : d'.size = d.size
  link_before : d.parent[root]? = some root
  link_after : d'.parent[root]? = some top
  other_links : ∀ v ≠ root, d'.parent[v]? = d.parent[v]?
  components_eq : d.components = d'.components + 1
  find_moved : ∀ v, d.find v = .ok root → d'.find v = .ok top
  find_kept : ∀ v, d.find v ≠ .ok root → d'.find v = d.find v

variable {d : DisjointSet} {fault : Fault} {v r left right : ℕ} {root : ℕ → ℕ}

theorem run_unionInPlace_of_error (h : d.union left right = .error fault) :
    (unionInPlace left right).run d = .error fault d := by
  rw [run_unionInPlace, h]

theorem find_of_size_le (hv : d.size ≤ v) : d.find v = .error (.indexOutOfBounds d.size v) := by
  have hnone : d.parent[v]? = none := Array.getElem?_eq_none hv
  simp [find, climb, parentOf, hnone, bind, Except.bind]

theorem lt_size_of_find (h : d.find v = .ok r) : v < d.size := by
  by_contra hv
  rw [find_of_size_le (not_lt.mp hv)] at h
  cases h

theorem union_of_size_le_left (hl : d.size ≤ left) :
    d.union left right = .error (.indexOutOfBounds d.size left) := by
  rw [union, find_of_size_le hl]
  rfl

namespace Rooted

/-- Whether an element is moved is a question of its old root alone. -/
theorem find_hang (h : d.Rooted root) (hl : left < d.size) (hr : right < d.size)
    (hne : root left ≠ root right) (hv : v < d.size) :
    (d.hang (root right) (root left)).find v =
      .ok (if root v = root right then root left else root v) := by
  have hmerged := h.hang hl hr hne
  rw [hmerged.find_eq (by rwa [size_hang]), mergedRoot]

theorem hungUnder (h : d.Rooted root) (hl : left < d.size) (hr : right < d.size)
    (hne : root left ≠ root right) :
    (d.hang (root right) (root left)).HungUnder d (root right) (root left) := by
  have hlink := getElem?_hang (h.root_lt hr) (root left)
  constructor
  · exact size_hang _ _ _
  · exact h.root_self hr
  · rw [hlink, if_pos rfl]
  · intro v hv
    rw [hlink, if_neg (Ne.symm hv)]
  · have hpos := h.components_pos hr
    rw [components_hang]
    omega
  · intro v hfind
    have hv := lt_size_of_find hfind
    rw [h.find_eq hv, Except.ok.injEq] at hfind
    rw [h.find_hang hl hr hne hv, if_pos hfind]
  · intro v hfind
    by_cases hv : v < d.size
    · rw [h.find_eq hv, ne_eq, Except.ok.injEq] at hfind
      rw [h.find_hang hl hr hne hv, if_neg hfind, h.find_eq hv]
    · -- What is no element has no root before the merge or after it.
      have hle := not_lt.mp hv
      rw [find_of_size_le hle, find_of_size_le (by rwa [size_hang]), size_hang]

/-- An element on the left does not save a merge with something that is none. -/
theorem union_of_size_le_right (h : d.Rooted root) (hl : left < d.size) (hr : d.size ≤ right) :
    d.union left right = .error (.indexOutOfBounds d.size right) := by
  rw [union, h.find_eq hl, find_of_size_le hr]
  rfl

end Rooted

/-- In every forest that can be made, a merge of two elements either finds them in one component
and changes nothing, or hangs the root of the right one under that of the left one and changes
nothing else. A merge with an identifier that is no element names the first such identifier and,
where it is made in place, leaves the set as it was. -/
theorem union_frame [Memory] (h : d.Reachable) (left right : ℕ) :
    (left < d.size → right < d.size →
      ∃ top root, d.find left = .ok top ∧ d.find right = .ok root ∧
        (top = root → d.union left right = .ok (d, false)) ∧
        (top ≠ root → ∃ d', d.union left right = .ok (d', true) ∧ d'.HungUnder d root top)) ∧
    (d.size ≤ left →
      d.union left right = .error (.indexOutOfBounds d.size left) ∧
        (unionInPlace left right).run d = .error (.indexOutOfBounds d.size left) d) ∧
    (left < d.size → d.size ≤ right →
      d.union left right = .error (.indexOutOfBounds d.size right) ∧
        (unionInPlace left right).run d = .error (.indexOutOfBounds d.size right) d) := by
  obtain ⟨root, hrooted⟩ := h.exists_rooted
  refine ⟨?_, ?_, ?_⟩
  · intro hl hr
    refine ⟨root left, root right, hrooted.find_eq hl, hrooted.find_eq hr, ?_, ?_⟩
    · exact hrooted.union_of_eq hl hr
    · intro hne
      exact ⟨_, hrooted.union_of_ne hl hr hne, hrooted.hungUnder hl hr hne⟩
  · intro hl
    have hunion : d.union left right = .error (.indexOutOfBounds d.size left) :=
      union_of_size_le_left hl
    exact ⟨hunion, run_unionInPlace_of_error hunion⟩
  · intro hl hr
    have hunion := hrooted.union_of_size_le_right hl hr
    exact ⟨hunion, run_unionInPlace_of_error hunion⟩

/-- Two trees, one of which is three links deep. -/
def grove : DisjointSet := ⟨#[3, 0, 1, 3, 4], 2⟩

theorem union_frame_grove :
    grove.Reachable ∧
      (∃ d, grove.union 4 2 = .ok (d, true) ∧ d.HungUnder grove 3 4 ∧ d.find 2 = .ok 4) ∧
      grove.union 1 2 = .ok (grove, false) ∧
      (unionInPlace 5 6).run grove = .error (.indexOutOfBounds 5 5) grove ∧
      (unionInPlace 2 6).run grove = .error (.indexOutOfBounds 5 6) grove := by
  have hbuild : ofEdges 5 [⟨1, 2⟩, ⟨0, 1⟩, ⟨3, 2⟩] = .ok grove := by decide
  have hreachable : grove.Reachable := .ofEdges hbuild
  have hapart := (union_frame hreachable 4 2).1 (by decide) (by decide)
  have htogether := (union_frame hreachable 1 2).1 (by decide) (by decide)
  have hfind1 : grove.find 1 = .ok 3 := by decide
  have hfind2 : grove.find 2 = .ok 3 := by decide
  have hfind4 : grove.find 4 = .ok 4 := by decide
  refine ⟨hreachable, ?_, ?_, ?_, ?_⟩
  · obtain ⟨top, root, htop, hroot, -, hmerge⟩ := hapart
    obtain rfl := Except.ok.inj (htop.symm.trans hfind4)
    obtain rfl := Except.ok.inj (hroot.symm.trans hfind2)
    obtain ⟨d, hunion, hhung⟩ := hmerge (by decide)
    exact ⟨d, hunion, hhung, hhung.find_moved 2 hfind2⟩
  · obtain ⟨top, root, htop, hroot, hsame, -⟩ := htogether
    obtain rfl := Except.ok.inj (htop.symm.trans hfind1)
    obtain rfl := Except.ok.inj (hroot.symm.trans hfind2)
    exact hsame rfl
  · exact ((union_frame hreachable 5 6).2.1 (by decide)).2
  · exact ((union_frame hreachable 2 6).2.2 (by decide) (by decide)).2

end DisjointSet

end ClassicAlgorithms
