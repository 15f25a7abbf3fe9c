import ClassicAlgorithms.Proofs.DisjointSet.Connecting
import ClassicAlgorithms.Proofs.DisjointSet.Reachable

/-!
# The merges that count

A pair whose elements are connected already leaves the forest as it is. The other pairs make
the same forest by themselves, link for link. There are as many of them as components have
gone, so none can be spared: without one of them one component more is left, although the
roots may all be different then.
-/
namespace ClassicAlgorithms

theorem joined_eq_of_perm {edges edges' : List Edge} (h : edges.Perm edges') :
    Joined edges = Joined edges' := by
  unfold Joined
  simp only [h.mem_iff]

theorem joinedSetoid_eq_of_perm {edges edges' : List Edge} (h : edges.Perm edges') (size : ℕ) :
    joinedSetoid size edges = joinedSetoid size edges' := by
  ext a b
  change Joined edges a b ↔ Joined edges' a b
  rw [joined_eq_of_perm h]

namespace DisjointSet

variable {d d' start : DisjointSet} {size left right : ℕ} {edges pairs : List Edge} {e : Edge}
  {flags : List Bool} {root : ℕ → ℕ}

/-- The pairs whose merge joined two components, in order. -/
def mergingPairs (edges : List Edge) (flags : List Bool) : List Edge :=
  ((edges.zip flags).filter Prod.snd).map Prod.fst

@[simp] theorem mergingPairs_cons_true :
    mergingPairs (e :: edges) (true :: flags) = e :: mergingPairs edges flags := rfl

/-- The pairs make the forest `d` out of `start` without a merge in vain, there are as many as
components have gone, and without any one of them one component more is left. -/
structure SpannedFrom (d start : DisjointSet) (pairs : List Edge) : Prop where
  remakes : start.uniteAll pairs = .ok (d, List.replicate pairs.length true)
  length_add : pairs.length + d.components = start.size
  indispensable : ∀ i < pairs.length, ∃ d' flags,
    start.uniteAll (pairs.eraseIdx i) = .ok (d', flags) ∧ d'.components = d.components + 1

theorem uniteAll_cons_eq_ok_iff :
    d.uniteAll (e :: edges) = .ok (d', flags) ↔ ∃ next merged later,
      d.union e.tail e.head = .ok (next, merged) ∧ next.uniteAll edges = .ok (d', later) ∧
        flags = merged :: later := by
  simp only [uniteAll, bind_eq_ok_iff, Prod.exists]
  constructor
  · rintro ⟨next, merged, hunion, last, later, hrest, h⟩
    obtain ⟨rfl, rfl⟩ := Prod.mk.inj (Except.ok.inj h)
    exact ⟨next, merged, later, hunion, hrest, rfl⟩
  · rintro ⟨next, merged, later, hunion, hrest, hflags⟩
    exact ⟨next, merged, hunion, d', later, hrest, by rw [hflags]; rfl⟩

/-- A merge in vain changes nothing. -/
theorem eq_of_union_false (h : d.union left right = .ok (d', false)) : d' = d := by
  simp only [union, bind_eq_ok_iff] at h
  obtain ⟨leftRoot, -, rightRoot, -, h⟩ := h
  split_ifs at h
  · cases h
    rfl
  · cases h

/-- Every pair has a flag. -/
theorem length_flags (h : d.uniteAll edges = .ok (d', flags)) : flags.length = edges.length := by
  induction edges generalizing d flags with
  | nil =>
    cases h
    rfl
  | cons e edges ih =>
    obtain ⟨next, merged, later, -, hrest, rfl⟩ := uniteAll_cons_eq_ok_iff.mp h
    rw [List.length_cons, List.length_cons, ih hrest]

/-- Without the merges in vain the same forest is made. -/
theorem uniteAll_mergingPairs (h : d.uniteAll edges = .ok (d', flags)) :
    d.uniteAll (mergingPairs edges flags) =
      .ok (d', List.replicate (mergingPairs edges flags).length true) := by
  induction edges generalizing d flags with
  | nil =>
    cases h
    rfl
  | cons e edges ih =>
    obtain ⟨next, merged, later, hunion, hrest, rfl⟩ := uniteAll_cons_eq_ok_iff.mp h
    cases merged with
    | false =>
      obtain rfl := eq_of_union_false hunion
      exact ih hrest
    | true =>
      rw [mergingPairs_cons_true, List.length_cons, List.replicate_succ]
      exact uniteAll_cons_eq_ok_iff.mpr ⟨next, true, _, hunion, ih hrest, rfl⟩

/-- The counter goes down once for each merge that counts. -/
theorem Rooted.components_eq_add_count (h : d.Rooted root)
    (hin : ∀ e ∈ edges, e.tail < d.size ∧ e.head < d.size)
    (hall : d.uniteAll edges = .ok (d', flags)) :
    d.components = d'.components + flags.count true := by
  induction edges generalizing d root flags with
  | nil =>
    cases hall
    rfl
  | cons e edges ih =>
    obtain ⟨next, merged, later, hunion, hrest, rfl⟩ := uniteAll_cons_eq_ok_iff.mp hall
    obtain ⟨ht, hh⟩ := hin e List.mem_cons_self
    obtain ⟨_, _, hunion', hsize, hnext⟩ := h.exists_union ht hh
    obtain ⟨_, _, hunion'', hcount⟩ := h.exists_union_components ht hh
    rw [hunion, Except.ok.injEq, Prod.mk.injEq] at hunion' hunion''
    obtain ⟨rfl, rfl⟩ := hunion'
    obtain ⟨rfl, rfl⟩ := hunion''
    have hlater := ih hnext (fun e he => by
      rw [hsize]
      exact hin e (List.mem_cons_of_mem _ he)) hrest
    rw [List.count_cons, hcount, hlater]
    cases merged <;> simp [Nat.add_assoc]

/-- From the singletons on, the merges that count are what is missing from the full count. -/
theorem components_add_count (hin : ∀ e ∈ edges, e.tail < size ∧ e.head < size)
    (hall : (discrete size).uniteAll edges = .ok (d, flags)) :
    d.components + flags.count true = size := by
  have hcount := (Rooted.discrete size).components_eq_add_count (by simpa using hin) hall
  exact hcount.symm

/-- Forests of the same pairs have as many components, in whatever order the pairs were merged. -/
theorem components_eq_of_perm {edges' : List Edge} {flags' : List Bool}
    (hperm : edges'.Perm edges) (hin : ∀ e ∈ edges, e.tail < size ∧ e.head < size)
    (hall : (discrete size).uniteAll edges = .ok (d, flags))
    (hall' : (discrete size).uniteAll edges' = .ok (d', flags')) :
    d'.components = d.components := by
  have hin' : ∀ e ∈ edges', e.tail < size ∧ e.head < size := fun e he =>
    hin e (hperm.mem_iff.mp he)
  obtain ⟨_, _, hmade, hparts⟩ := exists_partitions_uniteAll hin
  obtain ⟨_, _, hmade', hparts'⟩ := exists_partitions_uniteAll hin'
  rw [hall, Except.ok.injEq, Prod.mk.injEq] at hmade
  rw [hall', Except.ok.injEq, Prod.mk.injEq] at hmade'
  rw [← hmade.1] at hparts
  rw [← hmade'.1] at hparts'
  rw [hparts.components_eq_classes, hparts'.components_eq_classes, joinedSetoid_eq_of_perm hperm]

theorem uniteAll_concat {merged : Bool} (hall : start.uniteAll edges = .ok (d, flags))
    (hunion : d.union e.tail e.head = .ok (d', merged)) :
    start.uniteAll (edges ++ [e]) = .ok (d', flags ++ [merged]) := by
  induction edges generalizing start flags with
  | nil =>
    cases hall
    exact uniteAll_cons_eq_ok_iff.mpr ⟨d', merged, [], hunion, rfl, rfl⟩
  | cons c edges ih =>
    obtain ⟨next, first, later, hfirst, hrest, rfl⟩ := uniteAll_cons_eq_ok_iff.mp hall
    exact uniteAll_cons_eq_ok_iff.mpr ⟨next, first, _, hfirst, ih hrest, rfl⟩

/-- Where no merge is in vain, leaving one out leaves one component more. Putting the pair back
at the end takes one component away at most, and without it there are too few merges to take
away as many. -/
theorem exists_components_eraseIdx (hin : ∀ e ∈ pairs, e.tail < size ∧ e.head < size)
    (hall : (discrete size).uniteAll pairs = .ok (d, List.replicate pairs.length true)) {i : ℕ}
    (hi : i < pairs.length) :
    ∃ d' flags, (discrete size).uniteAll (pairs.eraseIdx i) = .ok (d', flags) ∧
      d'.components = d.components + 1 := by
  have hin' : ∀ e ∈ pairs.eraseIdx i, e.tail < size ∧ e.head < size := fun e he =>
    hin e (List.mem_of_mem_eraseIdx he)
  obtain ⟨d', flags, root, hless, hsize, hrooted, -⟩ := exists_rooted_uniteAll hin'
  obtain ⟨ht, hh⟩ := hin pairs[i] (List.getElem_mem hi)
  rw [← hsize] at ht hh
  obtain ⟨d'', merged, hunion, -⟩ := hrooted.exists_union ht hh
  have hperm : (pairs.eraseIdx i ++ [pairs[i]]).Perm pairs :=
    (List.perm_append_singleton _ _).trans (List.getElem_cons_eraseIdx_perm hi)
  have hback := components_eq_of_perm hperm hin hall (uniteAll_concat hless hunion)
  have hone := components_le_of_union hunion
  have hfull := components_add_count hin hall
  have hfewer := components_add_count hin' hless
  have hflags := List.count_le_length (a := true) (l := flags)
  rw [length_flags hless, List.length_eraseIdx_of_lt hi] at hflags
  rw [List.count_replicate_self] at hfull
  refine ⟨d', flags, hless, ?_⟩
  omega

/-- However elements are merged from the singletons on, the pairs that joined two components
span the forest: they make it again, there are exactly as many as components are missing from
the full count, and none of them can be left out. -/
theorem exists_spannedFrom_of_unions (hcreate : create size = .ok start)
    (hin : ∀ e ∈ edges, e.tail < size ∧ e.head < size) :
    ∃ d flags, start.uniteAll edges = .ok (d, flags) ∧ flags.length = edges.length ∧
      d.SpannedFrom start (mergingPairs edges flags) := by
  obtain rfl := eq_discrete_of_create hcreate
  obtain ⟨d, flags, hall, -⟩ := exists_partitions_uniteAll hin
  have hremakes := uniteAll_mergingPairs hall
  have hin' : ∀ e ∈ mergingPairs edges flags, e.tail < size ∧ e.head < size := by
    intro e he
    obtain ⟨⟨e, flag⟩, hmem, rfl⟩ := List.mem_map.mp he
    exact hin e (List.of_mem_zip (List.mem_of_mem_filter hmem)).1
  have hlength := components_add_count hin' hremakes
  rw [List.count_replicate_self] at hlength
  refine ⟨d, flags, hall, length_flags hall, hremakes, ?_, fun i hi => ?_⟩
  · rw [size_discrete]
    omega
  · exact exists_components_eraseIdx hin' hremakes hi

/-- Pairs in both directions, a pair of an element with itself and one that closes a circle. -/
def detours : List Edge := [⟨0, 1⟩, ⟨1, 0⟩, ⟨2, 2⟩, ⟨3, 1⟩, ⟨4, 3⟩, ⟨0, 4⟩]

theorem exists_spannedFrom_of_detours :
    create 6 = .ok (discrete 6) ∧ (∀ e ∈ detours, e.tail < 6 ∧ e.head < 6) ∧
      ∃ d flags, (discrete 6).uniteAll detours = .ok (d, flags) ∧
        flags.length = detours.length ∧ mergingPairs detours flags = [⟨0, 1⟩, ⟨3, 1⟩, ⟨4, 3⟩] ∧
        d.SpannedFrom (discrete 6) (mergingPairs detours flags) := by
  have hcreate : create 6 = .ok (discrete 6) := by decide
  have hin : ∀ e ∈ detours, e.tail < 6 ∧ e.head < 6 := by decide
  have hforest : (discrete 6).uniteAll detours =
      .ok (⟨#[3, 0, 2, 4, 4, 5], 3⟩, [true, false, false, true, true, false]) := by decide
  obtain ⟨d, flags, hall, hlength, hspanned⟩ := exists_spannedFrom_of_unions hcreate hin
  have hpairs : mergingPairs detours flags = [⟨0, 1⟩, ⟨3, 1⟩, ⟨4, 3⟩] := by
    obtain ⟨-, rfl⟩ := Prod.mk.inj (Except.ok.inj (hforest.symm.trans hall))
    rfl
  exact ⟨hcreate, hin, d, flags, hall, hlength, hpairs, hspanned⟩

end DisjointSet

end ClassicAlgorithms
