import ClassicAlgorithms.Proofs.EditDistance.Concatenation
import Mathlib.Algebra.Order.Group.Abs
import Mathlib.Algebra.Order.Group.Int

/-!
# The least and the greatest distance

The lengths of two texts alone say that their distance is no less than the difference of
the lengths and no more than the greater one. The least value is taken exactly when the
shorter text can be found in the longer one with other characters in between: then nothing
has to be done but to insert these, and an alignment that only keeps and inserts shows
where they are. For texts of one length this says that only equal texts have distance 0.
-/
namespace ClassicAlgorithms

section
variable {columns : List Column} {a b : List Char}

/-- The lengths differ by one edit each at most. -/
theorem Spells.length_le_add_mismatches (h : Spells columns a b) :
    a.length ≤ b.length + mismatches columns ∧ b.length ≤ a.length + mismatches columns := by
  obtain ⟨hsource, htarget⟩ := h.length_eq
  have hedits := edits_ofColumns columns
  rw [OperationCounts.edits] at hedits
  constructor <;> omega

/-- A column that keeps or inserts takes nothing away. -/
theorem Column.sublist {c : Column} (hsubstitute : c.operation ≠ .substitute)
    (hdelete : c.operation ≠ .delete) : c.source.toList.Sublist c.target.toList := by
  obtain ⟨_ | x, target⟩ := c
  · exact List.nil_sublist _
  · rcases target with _ | y
    · exact absurd rfl hdelete
    · by_cases h : x = y
      · subst h
        exact .refl _
      · exact absurd (by simp [operation, h]) hsubstitute

/-- Where nothing is substituted or deleted, the source is left standing in the target. -/
theorem Spells.sublist (h : Spells columns a b)
    (hsubstitute : (OperationCounts.ofColumns columns).substitutions = 0)
    (hdelete : (OperationCounts.ofColumns columns).deletions = 0) : a.Sublist b := by
  simp only [OperationCounts.ofColumns, List.count_eq_zero, List.mem_map, not_exists,
    not_and] at hsubstitute hdelete
  induction columns generalizing a b with
  | nil =>
    obtain ⟨rfl, rfl, -⟩ := h
    exact .slnil
  | cons c rest ih =>
    obtain ⟨a', b', rfl, rfl, -, hrest⟩ := h.uncons
    have hc := Column.sublist (hsubstitute c List.mem_cons_self) (hdelete c List.mem_cons_self)
    exact hc.append (ih hrest (fun d hd => hsubstitute d (List.mem_cons_of_mem _ hd))
      fun d hd => hdelete d (List.mem_cons_of_mem _ hd))

/-- What a text does not have of its subsequence can be inserted. -/
theorem mem_alignmentCosts_of_sublist (h : a.Sublist b) :
    b.length - a.length ∈ alignmentCosts a b := by
  induction h with
  | slnil => exact ⟨[], .nil, rfl⟩
  | @cons a b y h ih =>
    have hle := h.length_le
    have hlength : (y :: b).length - a.length = 1 + (b.length - a.length) := by
      rw [List.length_cons]
      omega
    rw [hlength]
    exact mem_alignmentCosts_insert ih y
  | @cons_cons a b x h ih =>
    rw [List.length_cons, List.length_cons, Nat.add_sub_add_right]
    exact mem_alignmentCosts_keep ih x

/-- Substituting as long as there are characters of both, and then inserting or deleting the
rest, is always possible. -/
theorem distanceBack_le_max (a b : List Char) : distanceBack a b ≤ max a.length b.length := by
  fun_induction distanceBack a b with
  | case1 b => exact le_max_right _ _
  | case2 a => exact le_max_left _ _
  | case3 x a y b ihDiagonal _ _ =>
    simp only [EditTable.cellValue, List.length_cons]
    split_ifs <;> omega

end

section
variable {source target : String}

theorem length_le_editDistance_add (source target : String) :
    source.length ≤ target.length + editDistance source target ∧
      target.length ≤ source.length + editDistance source target := by
  have hoptimal := optimal_align source target
  rw [← hoptimal.mismatches_eq, ← String.length_toList, ← String.length_toList]
  exact hoptimal.spells.length_le_add_mismatches

theorem editDistance_le_max (source target : String) :
    editDistance source target ≤ max source.length target.length := by
  have hle := distanceBack_le_max source.toList.reverse target.toList.reverse
  rw [List.length_reverse, List.length_reverse, String.length_toList, String.length_toList] at hle
  rw [editDistance, EditTable.distance_build]
  exact hle

/-- The characters that the target has more than the source are all that has to be paid for
exactly when the source is a subsequence of the target. -/
theorem editDistance_add_length_eq_iff :
    editDistance source target + source.length = target.length ↔
      source.toList.Sublist target.toList := by
  constructor
  · intro hshort
    -- No edit is left for a substitution or a deletion.
    have hoptimal := optimal_align source target
    obtain ⟨hsource, htarget⟩ := hoptimal.spells.length_eq
    have hedits := edits_ofColumns (align source target).columns
    rw [hoptimal.mismatches_eq, OperationCounts.edits] at hedits
    rw [String.length_toList] at hsource htarget
    exact hoptimal.spells.sublist (by omega) (by omega)
  · intro hsublist
    have hle := (isLeast_editDistance source target).2 (mem_alignmentCosts_of_sublist hsublist)
    have hge := (length_le_editDistance_add source target).2
    have hlength := hsublist.length_le
    rw [String.length_toList, String.length_toList] at hle hlength
    omega

theorem editDistance_eq_zero_iff : editDistance source target = 0 ↔ source = target := by
  constructor
  · intro hzero
    have hle := length_le_editDistance_add source target
    have hsublist : source.toList.Sublist target.toList :=
      editDistance_add_length_eq_iff.mp (by omega)
    rw [← String.toList_inj]
    refine hsublist.eq_of_length ?_
    rw [String.length_toList, String.length_toList]
    omega
  · rintro rfl
    have hsame := editDistance_add_length_eq_iff.mpr (List.Sublist.refl source.toList)
    omega

end

/-- The distance is 0 for equal texts only. It lies between the difference of the lengths and the
greater length, and a text that is not longer than the other has the least distance from it
exactly when it is a subsequence of it. -/
theorem editDistance_extremes (source target : String) :
    (editDistance source target = 0 ↔ source = target) ∧
      |(source.length : ℤ) - target.length| ≤ editDistance source target ∧
      editDistance source target ≤ max source.length target.length ∧
      (source.length ≤ target.length →
        (editDistance source target = target.length - source.length ↔
          source.toList.Sublist target.toList)) := by
  refine ⟨editDistance_eq_zero_iff, ?_, editDistance_le_max source target, ?_⟩
  · have hle := length_le_editDistance_add source target
    rw [abs_le]
    constructor <;> omega
  · intro hlength
    rw [← editDistance_add_length_eq_iff]
    omega

theorem editDistance_extremes_scattered :
    "aca".length ≤ "abcba".length ∧ editDistance "aca" "abcba" = "abcba".length - "aca".length ∧
      "acca".length ≤ "abcba".length ∧
      editDistance "acca" "abcba" ≠ "abcba".length - "acca".length := by
  have hshort : "aca".length ≤ "abcba".length := by decide
  have hlong : "acca".length ≤ "abcba".length := by decide
  have hscattered : "aca".toList.Sublist "abcba".toList := by decide
  have hmissing : ¬ "acca".toList.Sublist "abcba".toList := by decide
  refine ⟨hshort, ?_, hlong, ?_⟩
  · exact ((editDistance_extremes "aca" "abcba").2.2.2 hshort).mpr hscattered
  · exact fun hleast =>
      hmissing (((editDistance_extremes "acca" "abcba").2.2.2 hlong).mp hleast)

end ClassicAlgorithms
