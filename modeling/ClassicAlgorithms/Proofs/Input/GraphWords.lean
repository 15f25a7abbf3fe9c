import ClassicAlgorithms.Input.Graph
import ClassicAlgorithms.Proofs.Graph.Build
import ClassicAlgorithms.Proofs.Text.Numeral
import Mathlib.Data.List.Forall2
import Mathlib.Data.List.Induction

/-!
# What is read from the words of a graph text

The number of edges stands among the words, so it is only known while reading how many
words are due. Still, what is read can be said of the list of words as a whole: where the
first bad word stands, and how many words there are. Each list has exactly one outcome,
and reading comes to it.
-/
namespace ClassicAlgorithms

namespace GraphInput

/-- The ends of the edges, in order. -/
def endpoints (edges : List Edge) : List ℕ := edges.flatMap fun e => [e.tail, e.head]

/-- The numbers that are written for a graph, in order. -/
def numbers (g : GraphInput) : List ℕ := g.nodeCount :: g.edges.length :: endpoints g.edges

/-- The word is a numeral for the value, which fits. -/
def Denotes (word : List Char) (value : ℕ) : Prop :=
  Text.Numeral value word ∧ value < numeralLimit

def IsNumber (word : List Char) : Prop := ∃ value, Denotes word value

/-- The header is complete, and says how many edges there are. -/
def Declares (words : List (List Char)) (declared : ℕ) : Prop :=
  ∃ first second rest nodeCount, words = first :: second :: rest ∧ Denotes first nodeCount ∧
    Denotes second declared

/-- The word at this position is no number, but all words before it are. Positions count from
one. -/
def FirstBad (words : List (List Char)) (position : ℕ) (word : List Char) : Prop :=
  ∃ before after, words = before ++ word :: after ∧ position = before.length + 1 ∧
    (∀ earlier ∈ before, IsNumber earlier) ∧ ¬ IsNumber word

/-- What comes of reading the words. A bad word counts only up to the last declared edge, and
what follows that edge is surplus whether it is a number or not. -/
inductive Outcome (words : List (List Char)) : Except InputError GraphInput → Prop
  | graph {g : GraphInput} (h : List.Forall₂ Denotes words g.numbers) : Outcome words (.ok g)
  | noNodeCount (h : words = []) : Outcome words (.error (.missingHeader .nodeCount))
  | noEdgeCount {word} (h : words = [word]) (hword : IsNumber word) :
      Outcome words (.error (.missingHeader .edgeCount))
  | badWord {position word reason} (h : FirstBad words position word)
      (hdue : position ≤ 2 ∨ ∃ declared, Declares words declared ∧ position ≤ 2 + 2 * declared)
      (hreason : Text.readNumeral numeralLimit word = .error reason) :
      Outcome words (.error (.invalidInteger (String.ofList word) position reason))
  | missing {declared} (h : Declares words declared) (hgood : ∀ word ∈ words, IsNumber word)
      (hshort : words.length < 2 + 2 * declared) :
      Outcome words (.error (.missingEdges declared ((words.length - 2) / 2)))
  | surplus {declared word} (h : Declares words declared)
      (hgood : ∀ earlier ∈ words.take (2 + 2 * declared), IsNumber earlier)
      (hword : words[2 + 2 * declared]? = some word) :
      Outcome words (.error (.trailingInput (String.ofList word) declared))

section
variable {position value declared found : ℕ} {word : List Char} {words front : List (List Char)}
  {edges : List Edge} {g : GraphInput} {result : Except InputError GraphInput}

namespace Outcome

theorem ok_iff : Outcome words (.ok g) ↔ List.Forall₂ Denotes words g.numbers := by
  constructor
  · intro h
    cases h with
    | graph h => exact h
  · exact .graph

theorem noNodeCount_iff : Outcome words (.error (.missingHeader .nodeCount)) ↔ words = [] := by
  constructor
  · intro h
    cases h with
    | noNodeCount h => exact h
  · exact .noNodeCount

theorem noEdgeCount_iff :
    Outcome words (.error (.missingHeader .edgeCount)) ↔
      ∃ word, words = [word] ∧ IsNumber word := by
  constructor
  · intro h
    cases h with
    | noEdgeCount h hword => exact ⟨_, h, hword⟩
  · rintro ⟨word, h, hword⟩
    exact .noEdgeCount h hword

theorem badWord_iff {token : String} {reason : Text.NumeralError} :
    Outcome words (.error (.invalidInteger token position reason)) ↔
      ∃ word, token = String.ofList word ∧ FirstBad words position word ∧
        (position ≤ 2 ∨ ∃ declared, Declares words declared ∧ position ≤ 2 + 2 * declared) ∧
        Text.readNumeral numeralLimit word = .error reason := by
  constructor
  · intro h
    cases h with
    | badWord h hdue hreason => exact ⟨_, rfl, h, hdue, hreason⟩
  · rintro ⟨word, rfl, h, hdue, hreason⟩
    exact .badWord h hdue hreason

theorem missing_iff :
    Outcome words (.error (.missingEdges declared found)) ↔
      Declares words declared ∧ (∀ word ∈ words, IsNumber word) ∧
        words.length < 2 + 2 * declared ∧ found = (words.length - 2) / 2 := by
  constructor
  · intro h
    cases h with
    | missing h hgood hshort => exact ⟨h, hgood, hshort, rfl⟩
  · rintro ⟨h, hgood, hshort, rfl⟩
    exact .missing h hgood hshort

theorem surplus_iff {token : String} :
    Outcome words (.error (.trailingInput token declared)) ↔
      Declares words declared ∧ (∀ earlier ∈ words.take (2 + 2 * declared), IsNumber earlier) ∧
        ∃ word, words[2 + 2 * declared]? = some word ∧ token = String.ofList word := by
  constructor
  · intro h
    cases h with
    | surplus h hgood hword => exact ⟨h, hgood, _, hword, rfl⟩
  · rintro ⟨h, hgood, word, hword, rfl⟩
    exact .surplus h hgood hword

end Outcome

theorem Declares.two_le_length (h : Declares words declared) : 2 ≤ words.length := by
  obtain ⟨first, second, rest, nodeCount, rfl, -, -⟩ := h
  simp

@[simp] theorem length_endpoints (edges : List Edge) :
    (endpoints edges).length = 2 * edges.length := by
  simp [endpoints, Nat.mul_comm]

theorem readNumeral_eq_ok_iff_denotes :
    Text.readNumeral numeralLimit word = .ok value ↔ Denotes word value :=
  Text.readNumeral_eq_ok_iff

theorem readInteger_of_denotes (h : Denotes word value) (position : ℕ) :
    readInteger position word = .ok value := by
  simp [readInteger, readNumeral_eq_ok_iff_denotes.mpr h]

theorem readInteger_of_error {reason : Text.NumeralError}
    (h : Text.readNumeral numeralLimit word = .error reason) (position : ℕ) :
    readInteger position word =
      .error (.invalidInteger (String.ofList word) position reason) := by
  simp [readInteger, h]

/-- There is a reason why a word is no number. -/
theorem exists_reason (h : ¬ IsNumber word) :
    ∃ reason, Text.readNumeral numeralLimit word = .error reason := by
  cases hread : Text.readNumeral numeralLimit word with
  | ok value => exact absurd ⟨value, readNumeral_eq_ok_iff_denotes.mp hread⟩ h
  | error reason => exact ⟨reason, rfl⟩

/-- Words that are numbers make edges, with one word left over if their count is odd. -/
theorem exists_edges (hgood : ∀ word ∈ front, IsNumber word) :
    ∃ edges paired left, front = paired ++ left ∧ List.Forall₂ Denotes paired (endpoints edges) ∧
      left.length = front.length % 2 := by
  induction front using List.twoStepInduction with
  | nil => exact ⟨[], [], [], rfl, .nil, rfl⟩
  | singleton word => exact ⟨[], [], [word], rfl, .nil, rfl⟩
  | cons_cons first second rest ih _ =>
    obtain ⟨⟨tail, htail⟩, ⟨head, hhead⟩, hrest⟩ :
        IsNumber first ∧ IsNumber second ∧ ∀ word ∈ rest, IsNumber word := by
      simpa using hgood
    obtain ⟨edges, paired, left, rfl, hpaired, hleft⟩ := ih hrest
    refine ⟨⟨tail, head⟩ :: edges, first :: second :: paired, left, rfl,
      .cons htail (.cons hhead hpaired), ?_⟩
    simp only [List.length_cons, hleft]
    omega

theorem readEdges_cons_cons {first second : List Char} {tail head : ℕ} (hlt : found < declared)
    (htail : Denotes first tail) (hhead : Denotes second head) (rest : List (List Char)) :
    readEdges declared found (first :: second :: rest) =
      (⟨tail, head⟩ :: ·) <$> readEdges declared (found + 1) rest := by
  have hne : found ≠ declared := by omega
  cases hrest : readEdges declared (found + 1) rest <;>
    simp [readEdges, hne, readInteger_of_denotes htail, readInteger_of_denotes hhead, hrest, bind,
      Except.bind, pure, Except.pure, Functor.map, Except.map]

/-- Edges that are written out are read one after the other. -/
theorem readEdges_append (h : List.Forall₂ Denotes words (endpoints edges))
    (hdue : found + edges.length ≤ declared) (rest : List (List Char)) :
    readEdges declared found (words ++ rest) =
      (edges ++ ·) <$> readEdges declared (found + edges.length) rest := by
  induction edges generalizing found words with
  | nil =>
    cases h
    simp
  | cons e edges ih =>
    obtain ⟨first, _, htail, hmore, rfl⟩ := List.forall₂_cons_right_iff.mp h
    obtain ⟨second, words, hhead, hwords, rfl⟩ := List.forall₂_cons_right_iff.mp hmore
    rw [List.length_cons] at hdue
    have hlater : readEdges declared (found + 1) (words ++ rest) =
        (edges ++ ·) <$> readEdges declared (found + 1 + edges.length) rest :=
      ih hwords (by omega)
    have hcount : found + 1 + edges.length = found + (e :: edges).length := by
      rw [List.length_cons]
      omega
    rw [List.cons_append, List.cons_append, readEdges_cons_cons (by omega) htail hhead, hlater,
      hcount]
    cases readEdges declared (found + (e :: edges).length) rest <;> rfl

theorem readEdges_of_error {reason : Text.NumeralError} (hlt : found < declared)
    (hreason : Text.readNumeral numeralLimit word = .error reason) (rest : List (List Char)) :
    readEdges declared found (word :: rest) =
      .error (.invalidInteger (String.ofList word) (2 * found + 3) reason) := by
  have hne : found ≠ declared := by omega
  cases rest <;> simp [readEdges, hne, readInteger_of_error hreason, bind, Except.bind]

theorem readEdges_cons_of_error {first : List Char} {reason : Text.NumeralError}
    (hlt : found < declared) (hfirst : IsNumber first)
    (hreason : Text.readNumeral numeralLimit word = .error reason) (rest : List (List Char)) :
    readEdges declared found (first :: word :: rest) =
      .error (.invalidInteger (String.ofList word) (2 * found + 4) reason) := by
  have hne : found ≠ declared := by omega
  obtain ⟨tail, htail⟩ := hfirst
  simp [readEdges, hne, readInteger_of_denotes htail, readInteger_of_error hreason, bind,
    Except.bind]

/-- A bad word among those that are due decides. -/
theorem readEdges_badWord {reason : Text.NumeralError} (hgood : ∀ word ∈ front, IsNumber word)
    (hdue : front.length < 2 * declared)
    (hreason : Text.readNumeral numeralLimit word = .error reason) (after : List (List Char)) :
    readEdges declared 0 (front ++ word :: after) =
      .error (.invalidInteger (String.ofList word) (front.length + 3) reason) := by
  obtain ⟨edges, paired, left, rfl, hpaired, hleft⟩ := exists_edges hgood
  have hlength := hpaired.length_eq
  rw [length_endpoints] at hlength
  rw [List.length_append] at hdue hleft
  rw [List.append_assoc, readEdges_append hpaired (by omega), Nat.zero_add, List.length_append]
  rcases left with _ | ⟨first, _ | ⟨_, _⟩⟩
  · rw [List.nil_append, readEdges_of_error (by omega) hreason, hlength]
    rfl
  · have hfirst : IsNumber first := hgood first (by simp)
    rw [List.singleton_append, readEdges_cons_of_error (by omega) hfirst hreason, hlength]
    rfl
  · simp only [List.length_cons] at hleft
    omega

/-- Numbers that end too early are counted in whole edges. -/
theorem readEdges_missing (hgood : ∀ word ∈ front, IsNumber word)
    (hshort : front.length < 2 * declared) :
    readEdges declared 0 front = .error (.missingEdges declared (front.length / 2)) := by
  obtain ⟨edges, paired, left, rfl, hpaired, hleft⟩ := exists_edges hgood
  have hlength := hpaired.length_eq
  rw [length_endpoints] at hlength
  rw [List.length_append] at hshort hleft
  have hne : edges.length ≠ declared := by omega
  rw [readEdges_append hpaired (by omega), Nat.zero_add, List.length_append]
  rcases left with _ | ⟨first, _ | ⟨_, _⟩⟩
  · have hhalf : paired.length / 2 = edges.length := by omega
    simp [readEdges, hne, hhalf, Functor.map, Except.map]
  · obtain ⟨tail, htail⟩ : IsNumber first := hgood first (by simp)
    have hhalf : (paired.length + 1) / 2 = edges.length := by omega
    simp [readEdges, hne, readInteger_of_denotes htail, hhalf, Functor.map, Except.map, bind,
      Except.bind]
  · simp only [List.length_cons] at hleft
    omega

/-- Behind the last declared edge no word is read as a number. -/
theorem readEdges_surplus (hgood : ∀ word ∈ front, IsNumber word)
    (hfull : front.length = 2 * declared) (word : List Char) (after : List (List Char)) :
    readEdges declared 0 (front ++ word :: after) =
      .error (.trailingInput (String.ofList word) declared) := by
  obtain ⟨edges, paired, left, rfl, hpaired, hleft⟩ := exists_edges hgood
  have hlength := hpaired.length_eq
  rw [length_endpoints] at hlength
  rw [List.length_append] at hfull hleft
  obtain rfl : left = [] := List.eq_nil_of_length_eq_zero (by omega)
  have hall : 0 + edges.length = declared := by
    rw [List.length_nil] at hfull
    omega
  rw [List.append_assoc, readEdges_append hpaired (by omega), hall, List.nil_append]
  cases after <;> simp [readEdges, Functor.map, Except.map]

theorem readEdges_endpoints (h : List.Forall₂ Denotes words (endpoints edges)) :
    readEdges edges.length 0 words = .ok edges := by
  have hall := readEdges_append h (Nat.zero_add edges.length).le []
  simpa [readEdges, Functor.map, Except.map] using hall

theorem ofTokens_cons_cons {first second : List Char} {nodeCount : ℕ}
    (hfirst : Denotes first nodeCount) (hsecond : Denotes second declared)
    (rest : List (List Char)) :
    ofTokens (first :: second :: rest) =
      (⟨nodeCount, ·⟩) <$> readEdges declared 0 rest := by
  cases hrest : readEdges declared 0 rest <;>
    simp [ofTokens, readInteger_of_denotes hfirst, readInteger_of_denotes hsecond, hrest, bind,
      Except.bind, pure, Except.pure, Functor.map, Except.map]

/-- The first bad word decides, if it is in the header or among the words that the header asks
for. -/
theorem ofTokens_of_firstBad {reason : Text.NumeralError} (h : FirstBad words position word)
    (hdue : position ≤ 2 ∨ ∃ declared, Declares words declared ∧ position ≤ 2 + 2 * declared)
    (hreason : Text.readNumeral numeralLimit word = .error reason) :
    ofTokens words = .error (.invalidInteger (String.ofList word) position reason) := by
  obtain ⟨before, after, rfl, rfl, hgood, hbad⟩ := h
  rcases before with _ | ⟨first, _ | ⟨second, front⟩⟩
  · cases after <;> simp [ofTokens, readInteger_of_error hreason, bind, Except.bind]
  · obtain ⟨nodeCount, hfirst⟩ : IsNumber first := hgood first (by simp)
    simp [ofTokens, readInteger_of_denotes hfirst, readInteger_of_error hreason, bind,
      Except.bind]
  · rcases hdue with hheader | ⟨declared, hdeclares, hdue⟩
    · simp only [List.length_cons] at hheader
      omega
    · obtain ⟨_, _, _, nodeCount, hwords, hfirst, hsecond⟩ := hdeclares
      simp only [List.cons_append, List.cons.injEq] at hwords
      obtain ⟨rfl, rfl, rfl⟩ := hwords
      simp only [List.length_cons] at hdue
      have hfront : ∀ earlier ∈ front, IsNumber earlier := fun earlier hmem =>
        hgood earlier (by simp [hmem])
      rw [List.cons_append, List.cons_append, ofTokens_cons_cons hfirst hsecond,
        readEdges_badWord hfront (by omega) hreason]
      rfl

theorem ofTokens_of_short (h : Declares words declared) (hgood : ∀ word ∈ words, IsNumber word)
    (hshort : words.length < 2 + 2 * declared) :
    ofTokens words = .error (.missingEdges declared ((words.length - 2) / 2)) := by
  obtain ⟨first, second, rest, nodeCount, rfl, hfirst, hsecond⟩ := h
  simp only [List.length_cons] at hshort
  have hrest : ∀ word ∈ rest, IsNumber word := fun word hmem => hgood word (by simp [hmem])
  rw [ofTokens_cons_cons hfirst hsecond, readEdges_missing hrest (by omega)]
  rfl

theorem ofTokens_of_long (h : Declares words declared)
    (hgood : ∀ earlier ∈ words.take (2 + 2 * declared), IsNumber earlier)
    (hword : words[2 + 2 * declared]? = some word) :
    ofTokens words = .error (.trailingInput (String.ofList word) declared) := by
  obtain ⟨first, second, rest, nodeCount, rfl, hfirst, hsecond⟩ := h
  have hat : rest[2 * declared]? = some word := by simpa [Nat.add_comm 2] using hword
  obtain ⟨hlt, rfl⟩ := List.getElem?_eq_some_iff.mp hat
  have hfront : ∀ earlier ∈ rest.take (2 * declared), IsNumber earlier := fun earlier hmem =>
    hgood earlier (by simp [Nat.add_comm 2, hmem])
  have hread := readEdges_surplus hfront (List.length_take_of_le hlt.le) rest[2 * declared]
    (rest.drop (2 * declared + 1))
  rw [List.getElem_cons_drop, List.take_append_drop] at hread
  rw [ofTokens_cons_cons hfirst hsecond, hread]
  rfl

/-- Reading comes to the outcome of the words. -/
theorem Outcome.ofTokens_eq (h : Outcome words result) : ofTokens words = result := by
  cases h with
  | @graph g h =>
    obtain ⟨first, _, hfirst, hmore, rfl⟩ := List.forall₂_cons_right_iff.mp h
    obtain ⟨second, rest, hsecond, hrest, rfl⟩ := List.forall₂_cons_right_iff.mp hmore
    rw [ofTokens_cons_cons hfirst hsecond, readEdges_endpoints hrest]
    rfl
  | noNodeCount h =>
    rw [h]
    rfl
  | @noEdgeCount word h hword =>
    obtain ⟨value, hvalue⟩ := hword
    simp [h, ofTokens, readInteger_of_denotes hvalue, bind, Except.bind]
  | badWord h hdue hreason => exact ofTokens_of_firstBad h hdue hreason
  | missing h hgood hshort => exact ofTokens_of_short h hgood hshort
  | surplus h hgood hword => exact ofTokens_of_long h hgood hword

theorem FirstBad.head (hbad : ¬ IsNumber word) (rest : List (List Char)) :
    FirstBad (word :: rest) 1 word :=
  ⟨[], rest, rfl, rfl, by simp, hbad⟩

theorem FirstBad.not_isNumber (h : FirstBad words position word) : ¬ IsNumber word := by
  obtain ⟨_, _, _, _, _, hbad⟩ := h
  exact hbad

theorem FirstBad.cons {first : List Char} (h : FirstBad words position word)
    (hfirst : IsNumber first) : FirstBad (first :: words) (position + 1) word := by
  obtain ⟨before, after, rfl, rfl, hgood, hbad⟩ := h
  exact ⟨first :: before, after, rfl, rfl, List.forall_mem_cons.mpr ⟨hfirst, hgood⟩, hbad⟩

theorem FirstBad.of_take {count : ℕ} (h : FirstBad (words.take count) position word) :
    FirstBad words position word ∧ position ≤ count := by
  obtain ⟨before, after, htake, rfl, hgood, hbad⟩ := h
  constructor
  · refine ⟨before, after ++ words.drop count, ?_, rfl, hgood, hbad⟩
    rw [← List.cons_append, ← List.append_assoc, ← htake, List.take_append_drop]
  · have hlength := congrArg List.length htake
    rw [List.length_take, List.length_append, List.length_cons] at hlength
    omega

theorem good_or_exists_firstBad (words : List (List Char)) :
    (∀ word ∈ words, IsNumber word) ∨ ∃ position word, FirstBad words position word := by
  induction words with
  | nil => exact .inl (by simp)
  | cons first rest ih =>
    by_cases hfirst : IsNumber first
    · rcases ih with hgood | ⟨position, word, hbad⟩
      · exact .inl (List.forall_mem_cons.mpr ⟨hfirst, hgood⟩)
      · exact .inr ⟨position + 1, word, hbad.cons hfirst⟩
    · exact .inr ⟨1, first, .head hfirst rest⟩

/-- Behind a header that is a pair of numbers, the outcome depends on the words that are due. -/
theorem exists_outcome_of_declares {first second : List Char} {nodeCount : ℕ}
    (hfirst : Denotes first nodeCount) (hsecond : Denotes second declared)
    (rest : List (List Char)) : ∃ result, Outcome (first :: second :: rest) result := by
  have hdeclares : Declares (first :: second :: rest) declared :=
    ⟨first, second, rest, nodeCount, rfl, hfirst, hsecond⟩
  rcases good_or_exists_firstBad (rest.take (2 * declared)) with hgood | ⟨position, word, hbad⟩
  · rcases lt_trichotomy rest.length (2 * declared) with hshort | hfull | hlong
    · rw [List.take_of_length_le hshort.le] at hgood
      have hall : ∀ word ∈ first :: second :: rest, IsNumber word :=
        List.forall_mem_cons.mpr ⟨⟨_, hfirst⟩, List.forall_mem_cons.mpr ⟨⟨_, hsecond⟩, hgood⟩⟩
      exact ⟨_, .missing hdeclares hall (by simp only [List.length_cons]; omega)⟩
    · rw [List.take_of_length_le hfull.le] at hgood
      obtain ⟨edges, paired, left, rfl, hpaired, hleft⟩ := exists_edges hgood
      have hlength := hpaired.length_eq
      rw [length_endpoints] at hlength
      rw [List.length_append] at hfull hleft
      obtain rfl : left = [] := List.eq_nil_of_length_eq_zero (by omega)
      obtain rfl : declared = edges.length := by
        rw [List.length_nil] at hfull
        omega
      rw [List.append_nil]
      have hgraph : List.Forall₂ Denotes (first :: second :: paired)
          (numbers ⟨nodeCount, edges⟩) := .cons hfirst (.cons hsecond hpaired)
      exact ⟨_, .graph hgraph⟩
    · have hall : ∀ word ∈ (first :: second :: rest).take (2 + 2 * declared), IsNumber word := by
        rw [Nat.add_comm, List.take_succ_cons, List.take_succ_cons]
        exact List.forall_mem_cons.mpr
          ⟨⟨_, hfirst⟩, List.forall_mem_cons.mpr ⟨⟨_, hsecond⟩, hgood⟩⟩
      have hword : (first :: second :: rest)[2 + 2 * declared]? = some rest[2 * declared] := by
        simp [Nat.add_comm 2, hlong]
      exact ⟨_, .surplus hdeclares hall hword⟩
  · obtain ⟨hbad, hdue⟩ := hbad.of_take
    obtain ⟨reason, hreason⟩ := exists_reason hbad.not_isNumber
    exact ⟨_, .badWord ((hbad.cons ⟨_, hsecond⟩).cons ⟨_, hfirst⟩)
      (.inr ⟨declared, hdeclares, by omega⟩) hreason⟩

/-- Each list of words has an outcome. -/
theorem exists_outcome (words : List (List Char)) : ∃ result, Outcome words result := by
  rcases words with _ | ⟨first, rest⟩
  · exact ⟨_, .noNodeCount rfl⟩
  · by_cases hfirst : IsNumber first
    · rcases rest with _ | ⟨second, rest⟩
      · exact ⟨_, .noEdgeCount rfl hfirst⟩
      · by_cases hsecond : IsNumber second
        · obtain ⟨nodeCount, hfirst⟩ := hfirst
          obtain ⟨declared, hsecond⟩ := hsecond
          exact exists_outcome_of_declares hfirst hsecond rest
        · obtain ⟨reason, hreason⟩ := exists_reason hsecond
          exact ⟨_, .badWord ((FirstBad.head hsecond rest).cons hfirst) (.inl (by decide)) hreason⟩
    · obtain ⟨reason, hreason⟩ := exists_reason hfirst
      exact ⟨_, .badWord (.head hfirst rest) (.inl (by decide)) hreason⟩

theorem ofTokens_eq_iff : ofTokens words = result ↔ Outcome words result := by
  constructor
  · rintro rfl
    obtain ⟨result, h⟩ := exists_outcome words
    rwa [h.ofTokens_eq]
  · exact Outcome.ofTokens_eq

end

end GraphInput

end ClassicAlgorithms
