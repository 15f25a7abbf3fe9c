import ClassicAlgorithms.Proofs.EditDistance.Fill

/-!
# The cells are minimal

A cell holds the least cost among all alignments of its two prefixes, however long
they are. The distance of two texts is the last cell of their own table, so every
cell is also the distance of its prefixes.
-/
namespace ClassicAlgorithms

open EditTable

theorem editDistance_ofList (source target : List Char) :
    editDistance (String.ofList source) (String.ofList target) =
      distanceBack source.reverse target.reverse := by
  rw [editDistance, String.toList_ofList, String.toList_ofList, distance_build]

/-- The edit distance is the cost of a cheapest alignment. -/
theorem isLeast_editDistance (source target : String) :
    IsLeast (alignmentCosts source.toList target.toList) (editDistance source target) := by
  rw [editDistance, distance_build]
  exact isLeast_distanceBack source.toList target.toList

/-- Every cell of the table is the least number of columns other than matches in an
alignment of the two prefixes, and their edit distance. For the full texts, the
distance of the table and the edit distance are that least number. -/
theorem isLeast_build (source target : List Char) :
    (∀ i j, i ≤ source.length → j ≤ target.length →
      ∃ d, (build source target).get? i j = some d ∧
        IsLeast (alignmentCosts (source.take i) (target.take j)) d ∧
        editDistance (String.ofList (source.take i)) (String.ofList (target.take j)) = d) ∧
      IsLeast (alignmentCosts source target) (build source target).distance ∧
      IsLeast (alignmentCosts source target)
        (editDistance (String.ofList source) (String.ofList target)) := by
  refine ⟨?_, ?_, ?_⟩
  · intro i j hi hj
    exact ⟨_, get?_build hi hj, isLeast_distanceBack _ _, editDistance_ofList _ _⟩
  · rw [distance_build]
    exact isLeast_distanceBack source target
  · rw [editDistance_ofList]
    exact isLeast_distanceBack source target

theorem isLeast_build_prefixes :
    (build ['a', 'b', 'c'] ['b', 'd']).get? 2 1 = some 1 ∧
      IsLeast (alignmentCosts ['a', 'b'] ['b']) 1 := by
  have hget : (build ['a', 'b', 'c'] ['b', 'd']).get? 2 1 = some 1 := by decide
  obtain ⟨d, hd, hleast, -⟩ :=
    (isLeast_build ['a', 'b', 'c'] ['b', 'd']).1 2 1 (by decide) (by decide)
  obtain rfl := Option.some.inj (hd.symm.trans hget)
  exact ⟨hget, hleast⟩

end ClassicAlgorithms
