import ClassicAlgorithms.Proofs.EditDistance.Symmetry

/-!
# Joining and cutting alignments

Alignments of two pairs of texts can be put one behind the other, and an alignment can be
cut where a first part of its source ends. So an optimal alignment of a joined source falls
into optimal alignments of the parts. Parts that both texts have in common at their ends
are kept by some optimal alignment: at the end this is what the recurrence does, and at the
beginning it follows for the reversed texts.
-/
namespace ClassicAlgorithms

open EditTable

namespace Spells

variable {first second columns : List Column} {a b c d : List Char}

theorem append (hfirst : Spells first a b) (hsecond : Spells second c d) :
    Spells (first ++ second) (a ++ c) (b ++ d) where
  source_eq := by rw [List.filterMap_append, hfirst.source_eq, hsecond.source_eq]
  target_eq := by rw [List.filterMap_append, hfirst.target_eq, hsecond.target_eq]
  not_gap column hcolumn := by
    rcases List.mem_append.mp hcolumn with hmem | hmem
    · exact hfirst.not_gap column hmem
    · exact hsecond.not_gap column hmem

/-- The columns are cut where the first part of the source has been spelled. -/
theorem exists_cut (h : Spells columns (a ++ c) b) :
    ∃ before after left right, before ++ after = columns ∧ left ++ right = b ∧
      Spells before a left ∧ Spells after c right := by
  obtain ⟨before, after, rfl, hbefore, hafter⟩ := List.filterMap_eq_append_iff.mp h.source_eq
  refine ⟨before, after, before.filterMap Column.target, after.filterMap Column.target, rfl, ?_,
    ⟨hbefore, rfl, ?_⟩, ⟨hafter, rfl, ?_⟩⟩
  · rw [← List.filterMap_append, h.target_eq]
  · exact fun column hmem => h.not_gap column (List.mem_append_left _ hmem)
  · exact fun column hmem => h.not_gap column (List.mem_append_right _ hmem)

/-- No alignment is cheaper than the distance. -/
theorem editDistance_le {source target : String}
    (h : Spells columns source.toList target.toList) :
    editDistance source target ≤ mismatches columns :=
  (isLeast_editDistance source target).2 ⟨columns, h, rfl⟩

end Spells

/-- Texts that are aligned part by part are at most as far apart as their parts together. -/
theorem editDistance_append_le (first second left right : String) :
    editDistance (first ++ second) (left ++ right) ≤
      editDistance first left + editDistance second right := by
  have hfirst := optimal_align first left
  have hsecond := optimal_align second right
  have hjoined := hfirst.spells.append hsecond.spells
  rw [← String.toList_append, ← String.toList_append] at hjoined
  rw [← hfirst.mismatches_eq, ← hsecond.mismatches_eq, ← mismatches_append]
  exact hjoined.editDistance_le

/-- Both parts of an optimal alignment are optimal. -/
theorem Optimal.exists_cut {columns : List Column} {first second target : String}
    (h : Optimal columns (first ++ second) target) :
    ∃ before after left right, before ++ after = columns ∧ left ++ right = target ∧
      Optimal before first left ∧ Optimal after second right := by
  have hspells := h.spells
  rw [String.toList_append] at hspells
  obtain ⟨before, after, left, right, rfl, htarget, hbefore, hafter⟩ := hspells.exists_cut
  obtain ⟨left, rfl⟩ : ∃ text : String, text.toList = left := ⟨_, String.toList_ofList⟩
  obtain ⟨right, rfl⟩ : ∃ text : String, text.toList = right := ⟨_, String.toList_ofList⟩
  rw [← String.toList_append, String.toList_inj] at htarget
  subst htarget
  -- Neither part costs less than its distance, and together they cost no more than both.
  have hwhole : mismatches before + mismatches after =
      editDistance (first ++ second) (left ++ right) := by
    rw [← mismatches_append, h.mismatches_eq]
  have hjoin := editDistance_append_le first second left right
  have hleft := hbefore.editDistance_le
  have hright := hafter.editDistance_le
  exact ⟨before, after, left, right, rfl, rfl, ⟨hbefore, by omega⟩, ⟨hafter, by omega⟩⟩

/-- What it costs to cut `target` in two and to align the parts with `first` and `second`. -/
def cutCosts (first second target : String) : Set ℕ :=
  {k | ∃ left right, left ++ right = target ∧
    editDistance first left + editDistance second right = k}

/-- The distance from a joined text is the least sum over all cuts of the other, and the reported
alignment shows a best cut: it consists of optimal alignments of the parts. -/
theorem isLeast_cutCosts_and_exists_cut (first second target : String) :
    IsLeast (cutCosts first second target) (editDistance (first ++ second) target) ∧
      ∃ before after left right, before ++ after = (align (first ++ second) target).columns ∧
        left ++ right = target ∧ Optimal before first left ∧ Optimal after second right := by
  have hcut := (optimal_align (first ++ second) target).exists_cut
  refine ⟨⟨?_, ?_⟩, hcut⟩
  · obtain ⟨before, after, left, right, hcolumns, htarget, hbefore, hafter⟩ := hcut
    refine ⟨left, right, htarget, ?_⟩
    rw [← hbefore.mismatches_eq, ← hafter.mismatches_eq, ← mismatches_append, hcolumns,
      (optimal_align (first ++ second) target).mismatches_eq]
  · rintro k ⟨left, right, rfl, rfl⟩
    exact editDistance_append_le first second left right

theorem distanceBack_append_left (c a b : List Char) :
    distanceBack (c ++ a) (c ++ b) = distanceBack a b := by
  induction c with
  | nil => rfl
  | cons x c ih => rw [List.cons_append, List.cons_append, distanceBack_cons_self, ih]

/-- A common end is what the recurrence reads first, and it costs nothing. -/
theorem editDistance_append_right (source target after : String) :
    editDistance (source ++ after) (target ++ after) = editDistance source target := by
  rw [editDistance, editDistance, distance_build, distance_build, String.toList_append,
    String.toList_append, List.reverse_append, List.reverse_append, distanceBack_append_left]

/-- A common beginning is a common end of the reversed texts. -/
theorem editDistance_append_left (before source target : String) :
    editDistance (before ++ source) (before ++ target) = editDistance source target := by
  calc editDistance (before ++ source) (before ++ target)
      = editDistance (reversed (before ++ source)) (reversed (before ++ target)) :=
        (editDistance_reversed _ _).symm
    _ = editDistance (reversed source ++ reversed before) (reversed target ++ reversed before) := by
        rw [reversed_append, reversed_append]
    _ = editDistance (reversed source) (reversed target) := editDistance_append_right _ _ _
    _ = editDistance source target := editDistance_reversed source target

/-- The columns that keep every character of the text. -/
def keeping (text : String) : List Column := text.toList.map fun c => ⟨some c, some c⟩

theorem spells_keeping (text : String) : Spells (keeping text) text.toList text.toList where
  source_eq := by
    rw [keeping, List.filterMap_map]
    exact List.filterMap_some
  target_eq := by
    rw [keeping, List.filterMap_map]
    exact List.filterMap_some
  not_gap := by simp [keeping]

theorem mismatches_keeping (text : String) : mismatches (keeping text) = 0 := by
  simp [mismatches, keeping, Column.operation]

/-- What the texts have in common at both ends can be kept. -/
theorem Optimal.between_kept {columns : List Column} {source target : String}
    (h : Optimal columns source target) (before after : String) :
    Optimal (keeping before ++ columns ++ keeping after) (before ++ source ++ after)
      (before ++ target ++ after) where
  spells := by
    simp only [String.toList_append]
    exact ((spells_keeping before).append h.spells).append (spells_keeping after)
  mismatches_eq := by
    rw [mismatches_append, mismatches_append, mismatches_keeping, mismatches_keeping, Nat.zero_add,
      Nat.add_zero, h.mismatches_eq, editDistance_append_right, editDistance_append_left]

/-- Common beginnings and ends can be cut off: the distance is the same without them, and putting
them back around the reported alignment of the rest gives an optimal alignment. -/
theorem editDistance_between_and_optimal_between_kept (before source target after : String) :
    editDistance (before ++ source ++ after) (before ++ target ++ after) =
        editDistance source target ∧
      Optimal (keeping before ++ (align source target).columns ++ keeping after)
        (before ++ source ++ after) (before ++ target ++ after) := by
  constructor
  · rw [editDistance_append_right, editDistance_append_left]
  · exact (optimal_align source target).between_kept before after

end ClassicAlgorithms
