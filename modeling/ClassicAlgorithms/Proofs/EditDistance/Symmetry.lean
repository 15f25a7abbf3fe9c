import ClassicAlgorithms.Proofs.EditDistance.Minimum
import ClassicAlgorithms.Proofs.EditDistance.Rendering

/-!
# Texts turned round and tables turned over

A table is filled from prefixes, so inside its border the table of two reversed texts need
agree with the table of the texts in nothing but the last cell. That cell does agree, since
an alignment can be read from either end and costs the same. Exchanging the two texts only
turns the table over, cell by cell.
-/
namespace ClassicAlgorithms

open EditTable

/-- The columns align the two texts at the cost of their distance, which is the least. -/
structure Optimal (columns : List Column) (source target : String) : Prop where
  spells : Spells columns source.toList target.toList
  mismatches_eq : mismatches columns = editDistance source target

theorem optimal_align (source target : String) :
    Optimal (align source target).columns source target where
  spells := spells_align source target
  mismatches_eq := mismatches_align source target

/-- The text with its characters from the last to the first. -/
def reversed (text : String) : String := String.ofList text.toList.reverse

@[simp] theorem toList_reversed (text : String) : (reversed text).toList = text.toList.reverse := by
  rw [reversed, String.toList_ofList]

theorem reversed_append (first second : String) :
    reversed (first ++ second) = reversed second ++ reversed first := by
  rw [← String.toList_inj]
  simp

/-- Reading the columns backwards aligns the reversed texts. -/
theorem mem_alignmentCosts_reverse {a b : List Char} {k : ℕ} (h : k ∈ alignmentCosts a b) :
    k ∈ alignmentCosts a.reverse b.reverse := by
  obtain ⟨columns, hspells, hcost⟩ := h
  exact ⟨columns.reverse, hspells.reverse, (mismatches_reverse columns).trans hcost⟩

theorem alignmentCosts_reverse (a b : List Char) :
    alignmentCosts a.reverse b.reverse = alignmentCosts a b := by
  ext k
  constructor
  · intro h
    simpa using mem_alignmentCosts_reverse h
  · exact mem_alignmentCosts_reverse

theorem editDistance_reversed (source target : String) :
    editDistance (reversed source) (reversed target) = editDistance source target := by
  have hleast := isLeast_editDistance (reversed source) (reversed target)
  rw [toList_reversed, toList_reversed, alignmentCosts_reverse] at hleast
  exact hleast.unique (isLeast_editDistance source target)

theorem Optimal.reverse {columns : List Column} {source target : String}
    (h : Optimal columns source target) :
    Optimal columns.reverse (reversed source) (reversed target) where
  spells := by
    rw [toList_reversed, toList_reversed]
    exact h.spells.reverse
  mismatches_eq := by
    rw [mismatches_reverse, h.mismatches_eq, editDistance_reversed]

/-- Reversing both texts keeps their distance, and the reported alignment read backwards is an
optimal alignment of the reversed texts. -/
theorem editDistance_reversed_and_optimal_reverse (source target : String) :
    editDistance (reversed source) (reversed target) = editDistance source target ∧
      Optimal (align source target).columns.reverse (reversed source) (reversed target) := by
  constructor
  · exact editDistance_reversed source target
  · exact (optimal_align source target).reverse

theorem editDistance_comm (source target : String) :
    editDistance source target = editDistance target source := by
  rw [editDistance, editDistance, distance_build, distance_build, distanceBack_comm]

/-- Exchanging the texts exchanges the rows of their table with its columns: two cells that lie
across from each other hold the same value, the least cost for the two prefixes. So the distance
is the same both ways. -/
theorem transposed_build (source target : List Char) :
    (build target source).rows = (build source target).columns ∧
      (build target source).columns = (build source target).rows ∧
      (∀ i j, i ≤ source.length → j ≤ target.length →
        ∃ d, (build source target).get? i j = some d ∧ (build target source).get? j i = some d ∧
          IsLeast (alignmentCosts (source.take i) (target.take j)) d) ∧
      editDistance (String.ofList source) (String.ofList target) =
        editDistance (String.ofList target) (String.ofList source) := by
  refine ⟨?_, ?_, ?_, editDistance_comm _ _⟩
  · rw [rows_build, columns_build]
  · rw [rows_build, columns_build]
  · intro i j hi hj
    refine ⟨prefixDistance source target i j, get?_build hi hj, ?_, isLeast_distanceBack _ _⟩
    rw [get?_build hj hi, prefixDistance_comm]

theorem transposed_build_last_row :
    (build ['a', 'b', 'c'] ['b', 'd']).get? 3 1 = some 2 ∧
      (build ['b', 'd'] ['a', 'b', 'c']).get? 1 3 = some 2 := by
  have hget : (build ['a', 'b', 'c'] ['b', 'd']).get? 3 1 = some 2 := by decide
  obtain ⟨d, hd, hturned, -⟩ :=
    (transposed_build ['a', 'b', 'c'] ['b', 'd']).2.2.1 3 1 (by decide) (by decide)
  obtain rfl := Option.some.inj (hd.symm.trans hget)
  exact ⟨hget, hturned⟩

end ClassicAlgorithms
