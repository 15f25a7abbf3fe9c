import ClassicAlgorithms.Proofs.DisjointSet.Closure

/-!
# Forests that can be made

A partition can be made in three ways, and then elements can be merged. However it was
made, its links lead from elements to elements and never around in a circle, because
each link takes one step off the way up to the root. That way is at most as long as the
number of merges made, so following links ends without a bound being put on it, and the
counter of components has always something to give for a merge.
-/
namespace ClassicAlgorithms

namespace DisjointSet

/-- What comes from a new partition, or from one that is read off edges, by merging elements. -/
inductive Reachable [Memory] : DisjointSet → Prop
  | create {size d} (h : create size = .ok d) : Reachable d
  | tryCreate {size d} (h : tryCreate size = .ok d) : Reachable d
  | ofEdges {size edges d} (h : ofEdges size edges = .ok d) : Reachable d
  | union {d left right d' merged} (h : Reachable d) (hl : left < d.size) (hr : right < d.size)
      (hunion : d.union left right = .ok (d', merged)) : Reachable d'

variable {d : DisjointSet} {j k v w r s size : ℕ}

/-- A link to another element. The link of a root to itself does not count. -/
def LinksTo (d : DisjointSet) (v w : ℕ) : Prop := d.parent[v]? = some w ∧ w ≠ v

/-- Links stay inside and make no circle. From each element, `find` comes to a root after no
more links than there are components missing, whatever bound past that is put on it. A merge
of two elements is always made, and the counter goes down by exactly one if they were apart. -/
structure WellLinked (d : DisjointSet) : Prop where
  parent_lt : ∀ v w : ℕ, d.parent[v]? = some w → w < d.size
  acyclic : ∀ v, ¬ Relation.TransGen d.LinksTo v v
  components_le : d.components ≤ d.size
  find_eq : ∀ v < d.size, ∃ links root, links ≤ d.size - d.components ∧
    d.Climbs links v root ∧ (∀ looks, d.size - d.components < looks → d.climb looks v = .ok root) ∧
    d.find v = .ok root ∧ d.find root = .ok root
  union_eq : ∀ left < d.size, ∀ right < d.size, ∃ d' merged,
    d.union left right = .ok (d', merged) ∧
      d.components = d'.components + if merged then 1 else 0

theorem eq_discrete_of_create (h : create size = .ok d) : d = discrete size := by
  unfold create at h
  split_ifs at h
  exact (Except.ok.inj h).symm

theorem eq_discrete_of_tryCreate [Memory] (h : tryCreate size = .ok d) : d = discrete size := by
  unfold tryCreate at h
  split_ifs at h
  exact (Except.ok.inj h).symm

/-- Every forest that can be made climbs to roots. -/
theorem Reachable.exists_rooted [Memory] (h : d.Reachable) : ∃ root, d.Rooted root := by
  induction h with
  | create h =>
    rw [eq_discrete_of_create h]
    exact ⟨_, .discrete _⟩
  | tryCreate h =>
    rw [eq_discrete_of_tryCreate h]
    exact ⟨_, .discrete _⟩
  | ofEdges h =>
    obtain ⟨⟨d, flags⟩, hcounted, rfl⟩ := map_eq_ok_iff.mp h
    obtain ⟨hin, -, hall⟩ := buildCounted_eq_ok_iff.mp hcounted
    obtain ⟨_, _, root, hall', -, hrooted, -⟩ := exists_rooted_uniteAll hin
    rw [hall, Except.ok.injEq, Prod.mk.injEq] at hall'
    obtain ⟨rfl, -⟩ := hall'
    exact ⟨root, hrooted⟩
  | union _ hl hr hunion ih =>
    obtain ⟨root, hrooted⟩ := ih
    obtain ⟨_, _, hunion', -, hmerged⟩ := hrooted.exists_union hl hr
    rw [hunion, Except.ok.injEq, Prod.mk.injEq] at hunion'
    obtain ⟨rfl, -⟩ := hunion'
    exact ⟨_, hmerged⟩

namespace Climbs

theorem lt_size (h : d.Climbs k v r) : v < d.size := by
  cases h with
  | root hself => exact lt_size_of_getElem? hself
  | up hlink _ _ => exact lt_size_of_getElem? hlink

/-- The way up is the same for everyone who takes it. -/
theorem links_unique (h : d.Climbs j v r) (h' : d.Climbs k v s) : j = k := by
  induction h generalizing k with
  | root hself =>
    cases h' with
    | root => rfl
    | up hlink hne _ => exact absurd (Option.some.inj (hlink.symm.trans hself)) hne
  | up hlink hne _ ih =>
    cases h' with
    | root hself => exact absurd (Option.some.inj (hlink.symm.trans hself)) hne
    | up hlink' _ hrest =>
      obtain rfl := Option.some.inj (hlink.symm.trans hlink')
      rw [ih hrest]

/-- A link takes one step off the way to the root. -/
theorem of_linksTo (h : d.Climbs k v r) (hlink : d.LinksTo v w) : ∃ j < k, d.Climbs j w r := by
  obtain ⟨hlink, hne⟩ := hlink
  cases h with
  | root hself => exact absurd (Option.some.inj (hlink.symm.trans hself)) hne
  | up hlink' _ hrest =>
    obtain rfl := Option.some.inj (hlink.symm.trans hlink')
    exact ⟨_, Nat.lt_succ_self _, hrest⟩

theorem of_transGen (h : d.Climbs k v r) (hpath : Relation.TransGen d.LinksTo v w) :
    ∃ j < k, d.Climbs j w r := by
  induction hpath with
  | single hlink => exact h.of_linksTo hlink
  | tail _ hlink ih =>
    obtain ⟨j, hj, hclimbs⟩ := ih
    obtain ⟨i, hi, hrest⟩ := hclimbs.of_linksTo hlink
    exact ⟨i, hi.trans hj, hrest⟩

end Climbs

namespace Rooted

variable {root : ℕ → ℕ}

theorem parent_lt (h : d.Rooted root) (hlink : d.parent[v]? = some w) : w < d.size := by
  by_cases hself : w = v
  · rw [hself]
    exact lt_size_of_getElem? hlink
  · obtain ⟨k, -, hclimbs⟩ := h.climbs v (lt_size_of_getElem? hlink)
    obtain ⟨j, -, hrest⟩ := hclimbs.of_linksTo ⟨hlink, hself⟩
    exact hrest.lt_size

/-- Going around in a circle would shorten a way that stays the same. -/
theorem acyclic (h : d.Rooted root) (v : ℕ) : ¬ Relation.TransGen d.LinksTo v v := by
  intro hcircle
  obtain ⟨w, hfirst, -⟩ := Relation.TransGen.head'_iff.mp hcircle
  obtain ⟨k, -, hclimbs⟩ := h.climbs v (lt_size_of_getElem? hfirst.1)
  obtain ⟨j, hj, hrest⟩ := hclimbs.of_transGen hcircle
  have hsame := hrest.links_unique hclimbs
  omega

/-- A merge of two components takes one of them away, and there was one to take. -/
theorem exists_union_components {left right : ℕ} (h : d.Rooted root) (hl : left < d.size)
    (hr : right < d.size) :
    ∃ d' merged, d.union left right = .ok (d', merged) ∧
      d.components = d'.components + if merged then 1 else 0 := by
  by_cases hsame : root left = root right
  · exact ⟨d, false, h.union_of_eq hl hr hsame, rfl⟩
  · refine ⟨_, true, h.union_of_ne hl hr hsame, ?_⟩
    have hpos := h.components_pos hl
    rw [components_hang, if_pos rfl]
    omega

theorem wellLinked (h : d.Rooted root) : d.WellLinked where
  parent_lt _ _ := h.parent_lt
  acyclic := h.acyclic
  components_le := h.components_le_size
  find_eq v hv := by
    obtain ⟨k, hk, hclimbs⟩ := h.climbs v hv
    refine ⟨k, root v, by omega, hclimbs, ?_, h.find_eq hv, ?_⟩
    · intro looks hlooks
      exact hclimbs.climb_eq (by omega)
    · rw [h.find_eq (h.root_lt hv), h.root_root hv]
  union_eq _ hl _ hr := h.exists_union_components hl hr

end Rooted

/-- However a partition was made, its links are in order, and nothing that follows or counts
them can fail. -/
theorem wellLinked_of_reachable [Memory] (h : d.Reachable) : d.WellLinked := by
  obtain ⟨root, hrooted⟩ := h.exists_rooted
  exact hrooted.wellLinked

/-- A chain of merges needs as many links as the bound allows. -/
theorem wellLinked_chain :
    Reachable ⟨#[0, 0, 1, 2], 1⟩ ∧ WellLinked ⟨#[0, 0, 1, 2], 1⟩ ∧
      Climbs ⟨#[0, 0, 1, 2], 1⟩ (4 - 1) 3 0 := by
  have hcreate : create 4 = .ok ⟨#[0, 1, 2, 3], 4⟩ := by decide
  have hlow : union ⟨#[0, 1, 2, 3], 4⟩ 2 3 = .ok (⟨#[0, 1, 2, 2], 3⟩, true) := by decide
  have hmiddle : union ⟨#[0, 1, 2, 2], 3⟩ 1 2 = .ok (⟨#[0, 1, 1, 2], 2⟩, true) := by decide
  have htop : union ⟨#[0, 1, 1, 2], 2⟩ 0 1 = .ok (⟨#[0, 0, 1, 2], 1⟩, true) := by decide
  have hchain : Reachable ⟨#[0, 0, 1, 2], 1⟩ :=
    .union (.union (.union (.create hcreate) (by decide) (by decide) hlow) (by decide) (by decide)
      hmiddle) (by decide) (by decide) htop
  refine ⟨hchain, wellLinked_of_reachable hchain, ?_⟩
  exact .up rfl (by decide) (.up rfl (by decide) (.up rfl (by decide) (.root rfl)))

end DisjointSet

end ClassicAlgorithms
