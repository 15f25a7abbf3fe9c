import ClassicAlgorithms.Text.Line
import Mathlib.Data.List.TakeWhile

/-!
# The first line and the lines behind it

Up to its first line feed a text is one line, less a carriage return at the end, and the
lines behind the feed are those of the rest. Without a line feed a text is its only line as
it stands, unless it is empty. Both together say what the lines of any text are.
-/
namespace ClassicAlgorithms.Text

/-- The line without the carriage return that it may end in. -/
def withoutReturn (line : List Char) : List Char :=
  if line.getLast? = some '\r' then line.dropLast else line

/-- What is behind the first line feed, if there is one. -/
def behindFeed (text : List Char) : List Char := (text.dropWhile fun c => c ≠ '\n').tail

section
variable {line first text : List Char}

theorem reverse_dropReturn_reverse (line : List Char) :
    (dropReturn line.reverse).reverse = withoutReturn line := by
  rcases List.eq_nil_or_concat line with rfl | ⟨line, c, rfl⟩
  · rfl
  · by_cases hc : c = '\r'
    · simp [dropReturn, withoutReturn, hc]
    · simp [withoutReturn, dropReturn, hc]

@[simp] theorem withoutReturn_append_return (line : List Char) :
    withoutReturn (line ++ ['\r']) = line := by
  simp [withoutReturn]

theorem withoutReturn_eq_self_iff : withoutReturn line = line ↔ line.getLast? ≠ some '\r' := by
  rcases List.eq_nil_or_concat line with rfl | ⟨line, c, rfl⟩
  · simp [withoutReturn]
  · by_cases hc : c = '\r' <;> simp [withoutReturn, hc]

theorem withoutReturn_subset (line : List Char) : withoutReturn line ⊆ line := by
  unfold withoutReturn
  split_ifs
  · exact List.dropLast_subset line
  · exact List.Subset.refl line

theorem behindFeed_append_feed (h : '\n' ∉ first) (rest : List Char) :
    behindFeed (first ++ '\n' :: rest) = rest := by
  have hfirst : ∀ c ∈ first, c ≠ '\n' := fun c hc hfeed => h (hfeed ▸ hc)
  rw [behindFeed, List.dropWhile_append_of_pos (by simpa using hfirst)]
  simp

theorem behindFeed_of_not_mem (h : '\n' ∉ text) : behindFeed text = [] := by
  have htext : ∀ c ∈ text, c ≠ '\n' := fun c hc hfeed => h (hfeed ▸ hc)
  rw [behindFeed, List.dropWhile_eq_nil_iff.mpr (by simpa using htext), List.tail_nil]

/-- Characters other than a line feed are carried along. -/
theorem linesFrom_append (h : '\n' ∉ first) (carried rest : List Char) :
    linesFrom carried (first ++ rest) = linesFrom (first.reverse ++ carried) rest := by
  induction first generalizing carried with
  | nil => rfl
  | cons c first ih =>
    have hc : c ≠ '\n' := fun hfeed => h (hfeed ▸ List.mem_cons_self)
    have hfirst : '\n' ∉ first := fun hmem => h (List.mem_cons_of_mem _ hmem)
    simp [linesFrom, ih hfirst]

theorem lines_append_feed (h : '\n' ∉ first) (rest : List Char) :
    lines (first ++ '\n' :: rest) = withoutReturn first :: lines rest := by
  rw [lines, linesFrom_append h, linesFrom, List.append_nil, reverse_dropReturn_reverse, lines]

theorem lines_of_not_mem (h : '\n' ∉ text) : lines text = if text = [] then [] else [text] := by
  have hcarried := linesFrom_append h [] []
  rw [List.append_nil, List.append_nil] at hcarried
  rw [lines, hcarried]
  cases text <;> simp [linesFrom]

/-- Every text that is not empty has a line. -/
theorem lines_eq_nil_iff : lines text = [] ↔ text = [] := by
  by_cases h : '\n' ∈ text
  · obtain ⟨first, rest, rfl, hfirst⟩ := List.eq_append_cons_of_mem h
    simp [lines_append_feed hfirst]
  · rw [lines_of_not_mem h]
    simp

/-- A feed is never carried along, so no line has one in it. -/
theorem not_mem_of_mem_linesFrom {carried : List Char} (hcarried : '\n' ∉ carried)
    (h : line ∈ linesFrom carried text) : '\n' ∉ line := by
  fun_induction linesFrom carried text with
  | case1 carried hempty => simp at h
  | case2 carried hne =>
    rw [List.mem_singleton.mp h, List.mem_reverse]
    exact hcarried
  | case3 carried rest ih =>
    rcases List.mem_cons.mp h with rfl | hrest
    · intro hmem
      rw [← carried.reverse_reverse, reverse_dropReturn_reverse] at hmem
      exact hcarried (List.mem_reverse.mp (withoutReturn_subset _ hmem))
    · exact ih List.not_mem_nil hrest
  | case4 carried c rest hc ih =>
    have hmore : '\n' ∉ c :: carried := by
      rw [List.mem_cons]
      rintro (rfl | hmem)
      · exact hc rfl
      · exact hcarried hmem
    exact ih hmore h

theorem not_mem_of_mem_lines (h : line ∈ lines text) : '\n' ∉ line :=
  not_mem_of_mem_linesFrom List.not_mem_nil h

end

end ClassicAlgorithms.Text
