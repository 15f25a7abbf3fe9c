import ClassicAlgorithms.CommandLine.LogFilter
import ClassicAlgorithms.Proofs.Text.Trimming
import Mathlib.Data.List.Basic

/-!
# Filters that can be read

The words of a directive are cut from the whole text at offsets that were found without
the blanks around it. Without blanks in front every such offset is the length of the
characters read so far, so no word begins or ends inside a character: the directive is read
or refused, and so is a filter that is made of such directives.
-/
namespace ClassicAlgorithms

namespace Text

variable {text before : List Char} {offset : ℕ}

/-- A character of the text begins at the offset, or the text ends there. -/
def IsBoundary (offset : ℕ) (text : List Char) : Prop :=
  ∃ skipped word, text = skipped ++ word ∧ offset = byteLength skipped

theorem isBoundary_zero (text : List Char) : IsBoundary 0 text := ⟨[], text, rfl, rfl⟩

theorem isBoundary_byteLength (text : List Char) : IsBoundary (byteLength text) text :=
  ⟨text, [], by simp, rfl⟩

theorem IsBoundary.append (h : IsBoundary offset before) (rest : List Char) :
    IsBoundary offset (before ++ rest) := by
  obtain ⟨skipped, word, rfl, rfl⟩ := h
  exact ⟨skipped, word ++ rest, List.append_assoc .., rfl⟩

theorem exists_between? (h : IsBoundary offset before) (rest : List Char) :
    ∃ word, between? offset (byteLength before) (before ++ rest) = some word := by
  obtain ⟨skipped, word, rfl, rfl⟩ := h
  have hword : byteLength (skipped ++ word) - byteLength skipped = byteLength word := by simp
  refine ⟨word, ?_⟩
  rw [between?, List.append_assoc, cutAt?_byteLength, hword]
  change (cutAt? (byteLength word) (word ++ rest)).bind _ = _
  rw [cutAt?_byteLength]
  rfl

/-- Trimming takes nothing from the front of a text that does not begin with a blank. -/
theorem exists_trim_append (h : ∀ c ∈ text.head?, isBlank c = false) :
    ∃ blanks, text = trim text ++ blanks := by
  refine ⟨(text.reverse.takeWhile isBlank).reverse, ?_⟩
  rw [trim, dropWhile_of_head h, ← List.reverse_append, List.takeWhile_append_dropWhile,
    List.reverse_reverse]

end Text

namespace LogDirective

open Text

variable {α β : Type} {P : α → Prop} {Q : β → Prop}

/-- A reading that breaks no character. It may be refused; what it gives has the property. -/
def Unbroken (P : α → Prop) : Except DirectiveError α → Prop
  | .ok a => P a
  | .error e => e = .malformed

theorem Unbroken.bind {x : Except DirectiveError α} {f : α → Except DirectiveError β}
    (hx : Unbroken P x) (hf : ∀ a, P a → Unbroken Q (f a)) : Unbroken Q (x >>= f) := by
  cases x with
  | ok a => exact hf a hx
  | error e => exact hx

theorem unbroken_readField (text : List Char) : Unbroken (fun _ => True) (readField text) := by
  unfold readField
  split
  · split <;> trivial
  · trivial

theorem unbroken_withLevel (d : LogDirective) (text : List Char) :
    Unbroken (fun _ => True) (d.withLevel text) := by
  unfold withLevel
  split
  · trivial
  · split <;> trivial

/-- The offset that a stage remembers is a boundary of the characters before it. -/
def Stage.Marks (before : List Char) : Stage → Prop
  | .level first | .span first | .field first => IsBoundary first before
  | _ => True

section
variable {before : List Char} {stage : Stage} {c : Char} {first : ℕ}

theorem unbroken_cut (h : IsBoundary first before) (rest : List Char) :
    Unbroken (fun _ => True) (cut (before ++ rest) first (byteLength before)) := by
  obtain ⟨word, hword⟩ := exists_between? h rest
  rw [cut, hword]
  trivial

/-- What begins behind an ASCII character begins at a boundary. -/
theorem isBoundary_next (hc : c.utf8Size = 1) :
    IsBoundary (byteLength before + 1) (before ++ [c]) := by
  simpa [byteLength, hc] using isBoundary_byteLength (before ++ [c])

theorem unbroken_step (h : stage.Marks before) (d : LogDirective) (rest : List Char) :
    Unbroken (fun next => next.2.Marks (before ++ [c]))
      (step (before ++ c :: rest) d stage (byteLength before) c) := by
  cases stage with
  | start =>
    simp only [step]
    split_ifs with hopen
    · subst hopen
      exact isBoundary_next rfl
    · trivial
    · rfl
  | word =>
    simp only [step]
    split_ifs with heq hopen
    · subst heq
      exact (unbroken_cut (isBoundary_zero before) _).bind fun _ _ => isBoundary_next rfl
    · subst hopen
      exact (unbroken_cut (isBoundary_zero before) _).bind fun _ _ => isBoundary_next rfl
    · trivial
  | level first => exact h.append [c]
  | span first =>
    simp only [step]
    split_ifs with hclose hopen
    · exact (unbroken_cut h _).bind fun _ _ => trivial
    · subst hopen
      exact (unbroken_cut h _).bind fun _ _ => isBoundary_next rfl
    · exact h.append [c]
  | field first =>
    simp only [step]
    split_ifs with hclose
    · refine (unbroken_cut h _).bind fun word _ => ?_
      split_ifs
      · rfl
      · exact (unbroken_readField word).bind fun _ _ => trivial
    · exact h.append [c]
  | afterField =>
    simp only [step]
    split_ifs
    · trivial
    · rfl
  | afterScope =>
    simp only [step]
    split_ifs with heq
    · subst heq
      exact isBoundary_next rfl
    · rfl

theorem unbroken_finish (h : stage.Marks before) (d : LogDirective) (blanks : List Char) :
    Unbroken (fun _ => True) (finish (before ++ blanks) d stage) := by
  cases stage with
  | level first =>
    have hcut := unbroken_cut (h.append blanks) []
    rw [List.append_nil] at hcut
    exact hcut.bind fun word _ => unbroken_withLevel d word
  | word => trivial
  | afterScope => trivial
  | start => rfl
  | span first => rfl
  | field first => rfl
  | afterField => rfl

theorem unbroken_readFrom (rest blanks : List Char) (h : stage.Marks before) (d : LogDirective) :
    Unbroken (fun _ => True)
      (readFrom (before ++ rest ++ blanks) d stage (byteLength before) rest) := by
  -- Between two steps the offset is the length of the characters taken so far.
  induction rest generalizing before d stage with
  | nil => simpa [readFrom] using unbroken_finish h d blanks
  | cons c rest ih =>
    rw [readFrom, List.append_assoc, List.cons_append]
    refine (unbroken_step h d (rest ++ blanks)).bind fun next hnext => ?_
    have := ih hnext next.1
    simpa [byteLength] using this

end

theorem unbroken_read {text : List Char} (h : ∀ c ∈ text.head?, isBlank c = false) :
    Unbroken (fun _ => True) (read text) := by
  obtain ⟨blanks, htext⟩ := exists_trim_append h
  have hstart : Stage.start.Marks [] := trivial
  have hread := unbroken_readFrom (trim text) blanks hstart all
  rwa [List.nil_append, ← htext] at hread

theorem unbroken_mapM_read {pieces : List (List Char)}
    (h : ∀ piece ∈ pieces, ∀ c ∈ piece.head?, isBlank c = false) :
    Unbroken (fun _ => True) (pieces.mapM read) := by
  induction pieces with
  | nil => trivial
  | cons piece rest ih =>
    rw [List.forall_mem_cons] at h
    rw [List.mapM_cons]
    exact (unbroken_read h.1).bind fun _ _ => (ih h.2).bind fun _ _ => trivial

end LogDirective

namespace LogFilter

/-- No directive of the text begins with a blank. -/
def StartsFlush (text : String) : Prop :=
  ∀ piece ∈ Text.split ',' text.toList, ∀ c ∈ piece.head?, Text.isBlank c = false

theorem read_ne_brokenCharacter {text : String} (h : StartsFlush text) :
    read text ≠ .error .brokenCharacter := by
  have hread : LogDirective.Unbroken (fun _ => True) (read text) :=
    (LogDirective.unbroken_mapM_read fun piece hpiece =>
      h piece (List.mem_of_mem_filter hpiece)).bind fun _ _ => trivial
  intro hbroken
  rw [hbroken] at hread
  cases hread

end LogFilter

end ClassicAlgorithms
