import ClassicAlgorithms.Proofs.EditDistance.Minimum

/-!
# Alignments through a middle text

Two alignments that share a text are read side by side along it. Columns that leave the
shared text alone are kept, and two columns that meet in one of its characters become
one column of the outer texts. What comes out aligns these, and costs no more than both
alignments together.
-/
namespace ClassicAlgorithms

namespace Column

/-- What two columns leave when they meet in a character between `source` and `target`: nothing,
if the character is put in by one of them and taken out again by the other. -/
def join : (source target : Option Char) → List Column
  | none, none => []
  | source, target => [⟨source, target⟩]

end Column

/-- Reads an alignment that leads to a middle text along with one that leads on from it, column by
column. A column of either that passes the middle text by is kept as it is. -/
def compose : (first second : List Column) → List Column
  | [], second => second
  | ⟨source, none⟩ :: first, second => ⟨source, none⟩ :: compose first second
  | ⟨source, some middle⟩ :: first, [] => ⟨source, some middle⟩ :: first
  | ⟨source, some middle⟩ :: first, ⟨none, target⟩ :: second =>
    ⟨none, target⟩ :: compose (⟨source, some middle⟩ :: first) second
  | ⟨source, some _⟩ :: first, ⟨some _, target⟩ :: second =>
    Column.join source target ++ compose first second
termination_by first second => first.length + second.length

/-- Meeting in a character costs no more than coming to it and leaving it. -/
theorem mismatches_join_le (source target : Option Char) (middle : Char) :
    mismatches (Column.join source target) ≤
      mismatches [⟨source, some middle⟩] + mismatches [⟨some middle, target⟩] := by
  rcases source with _ | x
  · rcases target with _ | z
    · simp [Column.join]
    · simp [Column.join, mismatches_cons, Column.operation]
  · rcases target with _ | z
    · simp [Column.join, mismatches_cons, Column.operation]
    · by_cases h : x = middle
      · subst h
        simp [Column.join, mismatches_cons, Column.operation]
      · simp only [Column.join, mismatches_cons, mismatches_nil, Column.operation, h, if_false,
          reduceCtorEq]
        split_ifs <;> omega

namespace Spells

variable {first second rest : List Column} {a b c : List Char}

theorem join (h : Spells rest a b) (source target : Option Char) :
    Spells (Column.join source target ++ rest) (source.toList ++ a) (target.toList ++ b) := by
  rcases source with _ | x
  · rcases target with _ | z
    · exact h
    · exact h.cons (by simp)
  · rcases target with _ | z
    · exact h.cons (by simp)
    · exact h.cons (by simp)

/-- The composition aligns the outer texts and costs no more than its two parts. -/
theorem compose (hfirst : Spells first a b) (hsecond : Spells second b c) :
    Spells (compose first second) a c ∧
      mismatches (ClassicAlgorithms.compose first second) ≤
        mismatches first + mismatches second := by
  fun_induction ClassicAlgorithms.compose first second generalizing a b c with
  | case1 second =>
    obtain ⟨rfl, rfl, -⟩ := hfirst
    exact ⟨hsecond, by simp⟩
  | case2 source first second ih =>
    obtain ⟨a, b, rfl, rfl, hgap, hrest⟩ := hfirst.uncons
    obtain ⟨hspells, hcost⟩ := ih hrest hsecond
    refine ⟨hspells.cons hgap, ?_⟩
    rw [mismatches_cons, mismatches_cons]
    omega
  | case3 source middle first =>
    -- The second alignment is read to its end, but a middle character is still to come.
    obtain ⟨_, _, -, hb, -, -⟩ := hfirst.uncons
    obtain ⟨rfl, -, -⟩ := hsecond
    simp at hb
  | case4 source middle first target second ih =>
    obtain ⟨b, c, rfl, rfl, hgap, hrest⟩ := hsecond.uncons
    obtain ⟨hspells, hcost⟩ := ih hfirst hrest
    refine ⟨hspells.cons hgap, ?_⟩
    rw [mismatches_cons, mismatches_cons ⟨none, target⟩]
    omega
  | case5 source middle first middle' target second ih =>
    obtain ⟨a, b, rfl, rfl, -, hleft⟩ := hfirst.uncons
    obtain ⟨b', c, hmiddle, rfl, -, hright⟩ := hsecond.uncons
    simp only [Option.toList_some, List.singleton_append, List.cons.injEq] at hmiddle
    obtain ⟨rfl, rfl⟩ := hmiddle
    obtain ⟨hspells, hcost⟩ := ih hleft hright
    refine ⟨hspells.join source target, ?_⟩
    have hmeet := mismatches_join_le source target middle
    rw [mismatches_append, mismatches_cons, mismatches_cons ⟨some middle, target⟩]
    rw [mismatches_cons, mismatches_cons ⟨some middle, target⟩] at hmeet
    simp only [mismatches_nil] at hmeet
    omega

end Spells

/-- Going by way of another text is never shorter. -/
theorem editDistance_triangle (a b c : String) :
    editDistance a c ≤ editDistance a b + editDistance b c := by
  obtain ⟨first, hfirst, hfirstCost⟩ := (isLeast_editDistance a b).1
  obtain ⟨second, hsecond, hsecondCost⟩ := (isLeast_editDistance b c).1
  obtain ⟨hspells, hcost⟩ := hfirst.compose hsecond
  rw [← hfirstCost, ← hsecondCost]
  exact ((isLeast_editDistance a c).2 ⟨_, hspells, rfl⟩).trans hcost

end ClassicAlgorithms
