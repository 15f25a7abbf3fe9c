import ClassicAlgorithms.Proofs.EditDistance.Rendering
import Mathlib.Data.List.Induction

/-!
# Beginnings of the reported alignment

The walk reads the table from the last cell to the first, so the columns that it leaves
behind at a cell are the beginning of the alignment, and they depend on nothing to the
right of that cell or below it. The table of two beginnings of the texts is the same as far
as it goes. Hence cutting the reported alignment off anywhere gives the alignment that is
reported for the characters used up so far, with the ties resolved the same way.
-/
namespace ClassicAlgorithms

open EditTable

/-- The first characters of a text. -/
def beginning (text : String) (n : ℕ) : String := String.ofList (text.toList.take n)

@[simp] theorem toList_beginning (text : String) (n : ℕ) :
    (beginning text n).toList = text.toList.take n := by
  rw [beginning, String.toList_ofList]

/-- How many characters of the source the columns use up. -/
def sourceUsed (columns : List Column) : ℕ := (columns.filterMap Column.source).length

/-- How many characters of the target the columns use up. -/
def targetUsed (columns : List Column) : ℕ := (columns.filterMap Column.target).length

namespace Alignment

section
variable {t t' : EditTable} {source target source' target' : Array Char} {i j : ℕ}
  {tail before after : List Column}

/-- What stands behind a cell is handed on as it is. -/
theorem walk_append (t : EditTable) (source target : Array Char) (i j : ℕ)
    (tail more : List Column) :
    walk t source target i j (tail ++ more) = walk t source target i j tail ++ more := by
  fun_induction walk t source target i j tail with
  | case1 tail => rw [walk]
  | case2 j tail ih => rw [walk, ← List.cons_append, ih]
  | case3 i tail ih => rw [walk, ← List.cons_append, ih]
  | case4 i j tail hdirection ih =>
    rw [walk, hdirection]
    exact ih
  | case5 i j tail hdirection ih =>
    rw [walk, hdirection]
    exact ih
  | case6 i j tail hdirection ih =>
    rw [walk, hdirection]
    exact ih

theorem walk_singleton (t : EditTable) (source target : Array Char) (i j : ℕ) (c : Column) :
    walk t source target i j [c] = walk t source target i j [] ++ [c] :=
  walk_append t source target i j [] [c]

/-- A step of the walk puts one column behind the columns of the cell to which it leads. -/
theorem walk_eq_nil_or_concat (t : EditTable) (source target : Array Char) (i j : ℕ) :
    walk t source target i j [] = [] ∨ ∃ i' ≤ i, ∃ j' ≤ j, ∃ c,
      walk t source target i j [] = walk t source target i' j' [] ++ [c] := by
  rcases i with _ | i
  · rcases j with _ | j
    · left
      rw [walk]
    · right
      refine ⟨0, le_rfl, j, by omega, ⟨none, target[j]?⟩, ?_⟩
      rw [walk, walk_singleton]
  · right
    rcases j with _ | j
    · refine ⟨i, by omega, 0, le_rfl, ⟨source[i]?, none⟩, ?_⟩
      rw [walk, walk_singleton]
    · cases hdirection : direction (t.cell i j) (t.cell (i + 1) j) (t.cell i (j + 1)) with
      | diagonal =>
        refine ⟨i, by omega, j, by omega, ⟨source[i]?, target[j]?⟩, ?_⟩
        rw [walk, hdirection]
        exact walk_singleton t source target _ _ _
      | left =>
        refine ⟨i + 1, le_rfl, j, by omega, ⟨none, target[j]?⟩, ?_⟩
        rw [walk, hdirection]
        exact walk_singleton t source target _ _ _
      | up =>
        refine ⟨i, by omega, j + 1, le_rfl, ⟨source[i]?, none⟩, ?_⟩
        rw [walk, hdirection]
        exact walk_singleton t source target _ _ _

/-- Every beginning of what the walk writes down was written down from some cell. -/
theorem exists_walk_of_append (h : before ++ after = walk t source target i j []) :
    ∃ i' ≤ i, ∃ j' ≤ j, before = walk t source target i' j' [] := by
  -- The walk starts behind the last column, so the columns are taken away from the end.
  induction after using List.reverseRecOn generalizing i j with
  | nil => exact ⟨i, le_rfl, j, le_rfl, by rw [← h, List.append_nil]⟩
  | append_singleton after c ih =>
    rcases walk_eq_nil_or_concat t source target i j with hnil | ⟨i', hi, j', hj, d, hstep⟩
    · rw [hnil] at h
      simp at h
    · rw [hstep, ← List.append_assoc] at h
      obtain ⟨hrest, -⟩ := List.append_inj' h rfl
      obtain ⟨i'', hi', j'', hj', hbefore⟩ := ih hrest
      exact ⟨i'', hi'.trans hi, j'', hj'.trans hj, hbefore⟩

/-- Tables that agree up to a cell show the same way out of it. -/
theorem direction_congr (hcell : ∀ a ≤ i + 1, ∀ b ≤ j + 1, t.cell a b = t'.cell a b) :
    direction (t.cell i j) (t.cell (i + 1) j) (t.cell i (j + 1)) =
      direction (t'.cell i j) (t'.cell (i + 1) j) (t'.cell i (j + 1)) := by
  rw [hcell i (by omega) j (by omega), hcell (i + 1) le_rfl j (by omega),
    hcell i (by omega) (j + 1) le_rfl]

/-- The walk from a cell reads nothing to the right of it or below it. -/
theorem walk_congr (hcell : ∀ a ≤ i, ∀ b ≤ j, t.cell a b = t'.cell a b)
    (hsource : ∀ a < i, source[a]? = source'[a]?) (htarget : ∀ b < j, target[b]? = target'[b]?) :
    walk t source target i j tail = walk t' source' target' i j tail := by
  fun_induction walk t source target i j tail with
  | case1 tail => rw [walk]
  | case2 j tail ih =>
    have hrest := ih (fun a ha b hb => hcell a ha b (by omega)) hsource fun b hb =>
      htarget b (by omega)
    rw [hrest, htarget j (by omega)]
    conv_rhs => rw [walk]
  | case3 i tail ih =>
    have hrest := ih (fun a ha b hb => hcell a (by omega) b hb)
      (fun a ha => hsource a (by omega)) htarget
    rw [hrest, hsource i (by omega)]
    conv_rhs => rw [walk]
  | case4 i j tail hdirection ih =>
    have hrest := ih (fun a ha b hb => hcell a (by omega) b (by omega))
      (fun a ha => hsource a (by omega)) fun b hb => htarget b (by omega)
    rw [direction_congr hcell] at hdirection
    rw [hrest, hsource i (by omega), htarget j (by omega)]
    conv_rhs => rw [walk, hdirection]
  | case5 i j tail hdirection ih =>
    have hrest := ih (fun a ha b hb => hcell a ha b (by omega)) hsource fun b hb =>
      htarget b (by omega)
    rw [direction_congr hcell] at hdirection
    rw [hrest, htarget j (by omega)]
    conv_rhs => rw [walk, hdirection]
  | case6 i j tail hdirection ih =>
    have hrest := ih (fun a ha b hb => hcell a (by omega) b hb)
      (fun a ha => hsource a (by omega)) htarget
    rw [direction_congr hcell] at hdirection
    rw [hrest, hsource i (by omega)]
    conv_rhs => rw [walk, hdirection]

end

end Alignment

section
variable {source target : List Char} {i j a b : ℕ}

/-- As far as it goes, the table of two beginnings is the table of the texts. -/
theorem cell_build_take (hi : i ≤ source.length) (hj : j ≤ target.length) (ha : a ≤ i)
    (hb : b ≤ j) :
    (build source target).cell a b = (build (source.take i) (target.take j)).cell a b := by
  rw [cell_build (ha.trans hi) (hb.trans hj),
    cell_build (by rwa [List.length_take_of_le hi]) (by rwa [List.length_take_of_le hj]),
    prefixDistance, prefixDistance, List.take_take, List.take_take, min_eq_left ha,
    min_eq_left hb]

/-- The columns that the walk leaves behind at a cell are what is reported for the beginnings of
the texts that end there. -/
theorem walk_build_eq_align {source target : String} (hi : i ≤ source.toList.length)
    (hj : j ≤ target.toList.length) :
    Alignment.walk (build source.toList target.toList) source.toList.toArray
        target.toList.toArray i j [] =
      (align (beginning source i) (beginning target j)).columns := by
  rw [align, Alignment.ofChars, toList_beginning, toList_beginning, List.length_take_of_le hi,
    List.length_take_of_le hj]
  apply Alignment.walk_congr
  · exact fun a ha b hb => cell_build_take hi hj ha hb
  · intro a ha
    rw [List.getElem?_toArray, List.getElem?_toArray, List.getElem?_take_of_lt ha]
  · intro b hb
    rw [List.getElem?_toArray, List.getElem?_toArray, List.getElem?_take_of_lt hb]

end

/-- The columns are what is reported for the characters of the two texts that they use up, and
cost what the table of the whole texts says at that place. -/
structure BeginsAlignment (columns : List Column) (source target : String) : Prop where
  source_le : sourceUsed columns ≤ source.length
  target_le : targetUsed columns ≤ target.length
  columns_eq : columns =
    (align (beginning source (sourceUsed columns)) (beginning target (targetUsed columns))).columns
  get?_eq : (build source.toList target.toList).get? (sourceUsed columns) (targetUsed columns) =
    some (mismatches columns)

/-- The reported alignment, cut off behind any of its columns, is the alignment reported for what
has been used up of the texts, and so far it costs what the table says there. -/
theorem beginsAlignment_take_align (source target : String) (k : ℕ) :
    BeginsAlignment ((align source target).columns.take k) source target := by
  obtain ⟨i, hi, j, hj, hbefore⟩ :=
    Alignment.exists_walk_of_append (List.take_append_drop k (align source target).columns)
  have hcolumns := hbefore.trans (walk_build_eq_align hi hj)
  have hspells := spells_align (beginning source i) (beginning target j)
  rw [← hcolumns, toList_beginning, toList_beginning] at hspells
  have hsource : sourceUsed ((align source target).columns.take k) = i := by
    rw [sourceUsed, hspells.source_eq, List.length_take_of_le hi]
  have htarget : targetUsed ((align source target).columns.take k) = j := by
    rw [targetUsed, hspells.target_eq, List.length_take_of_le hj]
  have hcost := Alignment.mismatches_walk [] hi hj
  rw [← hbefore, mismatches_nil, Nat.add_zero] at hcost
  constructor
  · rwa [hsource, ← String.length_toList]
  · rwa [htarget, ← String.length_toList]
  · rw [hsource, htarget]
    exact hcolumns
  · rw [hsource, htarget, get?_build hi hj, hcost]

end ClassicAlgorithms
