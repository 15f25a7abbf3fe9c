import ClassicAlgorithms.Text.Blank

/-!
# Words and the blanks around them

A text lays out a list of words when it has them in order, with blanks between them and
perhaps around them. A text lays out one list of words only, and that is the list of its
tokens.
-/
namespace ClassicAlgorithms.Text

def IsGap (gap : List Char) : Prop := ∀ c ∈ gap, isBlank c = true

def IsWord (word : List Char) : Prop := word ≠ [] ∧ ∀ c ∈ word, isBlank c = false

/-- A text that has exactly these words. Behind a word, the text ends or a blank comes. -/
inductive LaidOut : (words : List (List Char)) → (text : List Char) → Prop
  | gap {gap} (hgap : IsGap gap) : LaidOut [] gap
  | word {gap word words rest} (hgap : IsGap gap) (hword : IsWord word)
      (hend : ∀ c ∈ rest.head?, isBlank c = true) (hrest : LaidOut words rest) :
      LaidOut (word :: words) (gap ++ word ++ rest)

theorem isGap_nil : IsGap [] := by simp [IsGap]

section
variable {c : Char} {gap word carried text rest : List Char} {words : List (List Char)}

theorem LaidOut.blank_cons (h : LaidOut words text) (hc : isBlank c = true) :
    LaidOut words (c :: text) := by
  cases h with
  | gap hgap => exact .gap (List.forall_mem_cons.mpr ⟨hc, hgap⟩)
  | word hgap hword hend hrest =>
    exact .word (List.forall_mem_cons.mpr ⟨hc, hgap⟩) hword hend hrest

/-- The tokens from within a word on, and the part of the word already read. -/
theorem laidOut_tokensFrom (hcarried : ∀ c ∈ carried, isBlank c = false) :
    LaidOut (tokensFrom carried text) (carried.reverse ++ text) := by
  fun_induction tokensFrom carried text with
  | case1 carried hempty =>
    obtain rfl := List.isEmpty_iff.mp hempty
    exact .gap isGap_nil
  | case2 carried hne =>
    have hword : IsWord carried.reverse := ⟨by simpa using hne, by simpa using hcarried⟩
    exact .word isGap_nil hword (by simp) (.gap isGap_nil)
  | case3 carried c rest hblank hempty ih =>
    obtain rfl := List.isEmpty_iff.mp hempty
    exact (ih (by simp)).blank_cons hblank
  | case4 carried c rest hblank hne ih =>
    have hword : IsWord carried.reverse := ⟨by simpa using hne, by simpa using hcarried⟩
    exact .word isGap_nil hword (by simp [hblank]) ((ih (by simp)).blank_cons hblank)
  | case5 carried c rest hblank ih =>
    have hmore := ih (List.forall_mem_cons.mpr ⟨by simpa using hblank, hcarried⟩)
    simpa using hmore

theorem tokensFrom_gap_append (hgap : IsGap gap) (rest : List Char) :
    tokensFrom [] (gap ++ rest) = tokensFrom [] rest := by
  induction gap with
  | nil => rfl
  | cons c gap ih =>
    obtain ⟨hc, hgap⟩ := List.forall_mem_cons.mp hgap
    simp [tokensFrom, hc, ih hgap]

theorem tokensFrom_append (hword : ∀ c ∈ word, isBlank c = false) (carried rest : List Char) :
    tokensFrom carried (word ++ rest) = tokensFrom (word.reverse ++ carried) rest := by
  induction word generalizing carried with
  | nil => rfl
  | cons c word ih =>
    obtain ⟨hc, hword⟩ := List.forall_mem_cons.mp hword
    simp [tokensFrom, hc, ih hword]

/-- Where a blank comes or the text ends, the word is complete. -/
theorem tokensFrom_of_end (hne : carried ≠ []) (hend : ∀ c ∈ rest.head?, isBlank c = true) :
    tokensFrom carried rest = carried.reverse :: tokensFrom [] rest := by
  cases rest with
  | nil => simp [tokensFrom, hne]
  | cons c rest =>
    have hc : isBlank c = true := hend c (by simp)
    simp [tokensFrom, hc, hne]

/-- The tokens are the one list of words that a text lays out. -/
theorem tokens_eq_iff : tokens text = words ↔ LaidOut words text := by
  constructor
  · rintro rfl
    have hnone : ∀ c ∈ ([] : List Char), isBlank c = false := by simp
    exact laidOut_tokensFrom hnone
  · intro h
    induction h with
    | gap hgap => simpa [tokens, tokensFrom] using tokensFrom_gap_append hgap []
    | @word gap word words rest hgap hword hend hrest ih =>
      obtain ⟨hne, hletters⟩ := hword
      rw [tokens, List.append_assoc, tokensFrom_gap_append hgap, tokensFrom_append hletters,
        tokensFrom_of_end (by simpa using hne) hend, List.append_nil, List.reverse_reverse]
      rw [tokens] at ih
      rw [ih]

end

end ClassicAlgorithms.Text
