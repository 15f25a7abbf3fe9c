import ClassicAlgorithms.Proofs.Input.GraphWords
import ClassicAlgorithms.Proofs.Text.Layout

/-!
# Graph texts

A text is read as a graph exactly when it writes that graph: numerals in order, with
blanks laid between and around them at will. What a text fails by is said of its words,
so the blanks have no part in that either.
-/
namespace ClassicAlgorithms

namespace GraphInput

theorem parse_eq_iff {text : String} {result : Except InputError GraphInput} :
    parse text = result ↔ Outcome (Text.tokens text.toList) result :=
  ofTokens_eq_iff

/-- The text writes the graph: it consists of numerals for the numbers of the graph, in order. -/
def Written (g : GraphInput) (text : List Char) : Prop :=
  ∃ words, Text.LaidOut words text ∧ List.Forall₂ Denotes words g.numbers

/-- A text is read as a graph exactly when it writes this graph. It has then two words for the
header and two for each edge, which stand for the numbers of the graph in order. -/
theorem parse_eq_ok_iff (text : String) (g : GraphInput) :
    (parse text = .ok g ↔ g.Written text.toList) ∧
      (parse text = .ok g ↔ (Text.tokens text.toList).length = 2 + 2 * g.edges.length ∧
        List.Forall₂ Denotes (Text.tokens text.toList) g.numbers) := by
  have hread : parse text = .ok g ↔ List.Forall₂ Denotes (Text.tokens text.toList) g.numbers := by
    rw [parse_eq_iff, Outcome.ok_iff]
  constructor
  · rw [hread]
    constructor
    · intro h
      exact ⟨_, Text.tokens_eq_iff.mp rfl, h⟩
    · rintro ⟨words, hlaid, h⟩
      rwa [Text.tokens_eq_iff.mpr hlaid]
  · rw [hread]
    constructor
    · intro h
      refine ⟨?_, h⟩
      rw [h.length_eq, numbers, List.length_cons, List.length_cons, length_endpoints]
      omega
    · exact And.right

example : parse "+03 1\n  0 2 " = .ok ⟨3, [⟨0, 2⟩]⟩ := by cbv

/-- Which failure the result is, if it is one, said of the words. -/
structure FailsBy (words : List (List Char)) (result : Except InputError GraphInput) : Prop where
  noNodeCount_iff : result = .error (.missingHeader .nodeCount) ↔ words.length = 0
  noEdgeCount_iff : result = .error (.missingHeader .edgeCount) ↔
    ∃ word, words = [word] ∧ IsNumber word
  badWord_iff : ∀ token position,
    (∃ reason, result = .error (.invalidInteger token position reason)) ↔
      ∃ word, token = String.ofList word ∧ FirstBad words position word ∧
        (position ≤ 2 ∨ ∃ declared, Declares words declared ∧ position ≤ 2 + 2 * declared)
  reason_eq : ∀ token position reason,
    result = .error (.invalidInteger token position reason) →
      Text.readNumeral numeralLimit token.toList = .error reason
  missing_iff : ∀ declared found, result = .error (.missingEdges declared found) ↔
    Declares words declared ∧ (∀ word ∈ words, IsNumber word) ∧
      2 ≤ words.length ∧ words.length < 2 + 2 * declared ∧ found = (words.length - 2) / 2
  surplus_iff : ∀ token declared, result = .error (.trailingInput token declared) ↔
    Declares words declared ∧ (∀ word ∈ words.take (2 + 2 * declared), IsNumber word) ∧
      ∃ word, words[2 + 2 * declared]? = some word ∧ token = String.ofList word
  no_missingLine : ∀ found, result ≠ .error (.missingLine found)

/-- How reading a text fails depends on its words alone, and each failure has its condition. -/
theorem failsBy_of_laidOut {words : List (List Char)} {text : String}
    (h : Text.LaidOut words text.toList) : FailsBy words (parse text) := by
  obtain rfl := Text.tokens_eq_iff.mpr h
  constructor
  · rw [parse_eq_iff, Outcome.noNodeCount_iff, List.length_eq_zero_iff]
  · rw [parse_eq_iff, Outcome.noEdgeCount_iff]
  · intro token position
    simp only [parse_eq_iff, Outcome.badWord_iff]
    constructor
    · rintro ⟨reason, word, htoken, h, hdue, -⟩
      exact ⟨word, htoken, h, hdue⟩
    · rintro ⟨word, htoken, h, hdue⟩
      obtain ⟨reason, hreason⟩ := exists_reason h.not_isNumber
      exact ⟨reason, word, htoken, h, hdue, hreason⟩
  · intro token position reason
    rw [parse_eq_iff, Outcome.badWord_iff]
    rintro ⟨word, rfl, -, -, hreason⟩
    rwa [String.toList_ofList]
  · intro declared found
    rw [parse_eq_iff, Outcome.missing_iff]
    constructor
    · rintro ⟨h, hgood, hshort, hfound⟩
      exact ⟨h, hgood, h.two_le_length, hshort, hfound⟩
    · rintro ⟨h, hgood, -, hshort, hfound⟩
      exact ⟨h, hgood, hshort, hfound⟩
  · intro token declared
    rw [parse_eq_iff, Outcome.surplus_iff]
  · intro found
    rw [Ne, parse_eq_iff]
    intro h
    cases h

/-- A bad word within the declared edge comes before the word too many. -/
theorem failsBy_bad_before_surplus :
    Text.LaidOut [['3'], ['1'], ['0'], ['x'], ['7']] " 3 1\n0 x\t7".toList ∧
      FailsBy [['3'], ['1'], ['0'], ['x'], ['7']] (parse " 3 1\n0 x\t7") ∧
      ∃ reason, parse " 3 1\n0 x\t7" = .error (.invalidInteger "x" 4 reason) := by
  have hlaid : Text.LaidOut [['3'], ['1'], ['0'], ['x'], ['7']] " 3 1\n0 x\t7".toList :=
    Text.tokens_eq_iff.mp (by decide)
  have hfails := failsBy_of_laidOut hlaid
  have hnodes : Denotes ['3'] 3 := readNumeral_eq_ok_iff_denotes.mp rfl
  have hedges : Denotes ['1'] 1 := readNumeral_eq_ok_iff_denotes.mp rfl
  have htail : Denotes ['0'] 0 := readNumeral_eq_ok_iff_denotes.mp rfl
  have hbad : ¬ IsNumber ['x'] := by
    rintro ⟨value, hvalue⟩
    have hread : Except.error Text.NumeralError.invalidDigit = Except.ok value :=
      readNumeral_eq_ok_iff_denotes.mpr hvalue
    cases hread
  have hfirst : FirstBad [['3'], ['1'], ['0'], ['x'], ['7']] 4 ['x'] :=
    (((FirstBad.head hbad _).cons ⟨_, htail⟩).cons ⟨_, hedges⟩).cons ⟨_, hnodes⟩
  have hdeclares : Declares [['3'], ['1'], ['0'], ['x'], ['7']] 1 :=
    ⟨_, _, _, 3, rfl, hnodes, hedges⟩
  exact ⟨hlaid, hfails, (hfails.badWord_iff "x" 4).mpr
    ⟨_, rfl, hfirst, .inr ⟨1, hdeclares, by decide⟩⟩⟩

end GraphInput

end ClassicAlgorithms
