import ClassicAlgorithms.Proofs.CommandLine.Outcome
import ClassicAlgorithms.Proofs.CommandLine.Sink
import ClassicAlgorithms.Proofs.EditDistance.Minimum
import ClassicAlgorithms.Proofs.EditDistance.Rendering
import ClassicAlgorithms.Proofs.Input.TextPair
import ClassicAlgorithms.Proofs.Text.Numeral

/-!
# The three lines of an alignment

The report of an alignment has a line for the distance and one for each text. The texts were
lines themselves, and gaps are shown as blanks, so there are no line feeds but those that end
the three lines. Both texts are padded to the number of columns, counted in characters.
Whatever else stood in the input has no part in this.
-/
namespace ClassicAlgorithms

/-- A separator that is in none of the rows is seen once behind each. -/
theorem count_flatMap_separator {separator : Char} {rows : List (List Char)}
    (h : ∀ row ∈ rows, separator ∉ row) :
    (rows.flatMap fun row => row ++ [separator]).count separator = rows.length := by
  induction rows with
  | nil => rfl
  | cons row rest ih =>
    obtain ⟨hrow, hrest⟩ := List.forall_mem_cons.mp h
    rw [List.flatMap_cons, List.count_append, List.count_append, List.count_eq_zero_of_not_mem hrow,
      ih hrest, List.count_singleton_self, List.length_cons]
    omega

namespace Alignment

/-- The distance in decimal, and the two texts with gaps filled in. -/
def rows (a : Alignment) : List (List Char) :=
  [Nat.toDigits 10 a.distance, a.alignedSource.toList, a.alignedTarget.toList]

/-- The text consists of the rows of the alignment, each ended by a line feed. The distance is the
least cost of aligning the pair, and the other two rows are as long as there are columns. -/
structure Framed (a : Alignment) (pair : TextPair) (text : List Char) : Prop where
  text_eq : text = a.rows.flatMap fun row => row ++ ['\n']
  feed_not_mem : ∀ row ∈ a.rows, '\n' ∉ row
  count_feed : text.count '\n' = 3
  least : IsLeast (alignmentCosts pair.source.toList pair.target.toList) a.distance
  length_alignedSource : a.alignedSource.length = a.columns.length
  length_alignedTarget : a.alignedTarget.length = a.columns.length
  max_le_columns : max pair.source.length pair.target.length ≤ a.columns.length
  columns_le_add : a.columns.length ≤ pair.source.length + pair.target.length
  columns_eq_source : a.columns.length = pair.source.length + a.counts.insertions
  columns_eq_target : a.columns.length = pair.target.length + a.counts.deletions

variable {columns : List Column} {pair : TextPair} {source target : String} {c : Char}

/-- A character of an aligned text is a gap or comes from the text. -/
theorem mem_rendered {side : Column → Option Char} {text : List Char}
    (h : columns.filterMap side = text) (hc : c ∈ columns.map fun d => (side d).getD gap) :
    c = gap ∨ c ∈ text := by
  obtain ⟨d, hd, rfl⟩ := List.mem_map.mp hc
  cases hside : side d with
  | none => exact .inl rfl
  | some x =>
    rw [← h]
    exact .inr (List.mem_filterMap.mpr ⟨d, hd, hside⟩)

theorem not_mem_rows (hgap : c ≠ gap) (hdigit : c.isDigit = false) (hsource : c ∉ source.toList)
    (htarget : c ∉ target.toList) : ∀ row ∈ (align source target).rows, c ∉ row := by
  have hspells := spells_align source target
  simp only [rows, List.forall_mem_cons, alignedSource, alignedTarget, String.toList_ofList]
  refine ⟨Text.not_mem_toDigits hdigit _, ?_, ?_, by simp⟩
  · intro hmem
    rcases mem_rendered hspells.source_eq hmem with h | h
    · exact hgap h
    · exact hsource h
  · intro hmem
    rcases mem_rendered hspells.target_eq hmem with h | h
    · exact hgap h
    · exact htarget h

theorem toList_render (a : Alignment) :
    (Report.alignment a).render.toList = a.rows.flatMap fun row => row ++ ['\n'] := by
  simp [Report.render, Report.pieces, rows]

theorem framed_align (hsource : '\n' ∉ pair.source.toList) (htarget : '\n' ∉ pair.target.toList) :
    (align pair.source pair.target).Framed pair
      (Report.alignment (align pair.source pair.target)).render.toList := by
  have hfeed := not_mem_rows (by decide) (by decide) hsource htarget
  have hspells := spells_align pair.source pair.target
  obtain ⟨hcolumns, hcolumns'⟩ := hspells.length_columns
  obtain ⟨hlength, hlength'⟩ := hspells.length_eq
  rw [String.length_toList] at hcolumns hcolumns' hlength hlength'
  constructor
  · exact toList_render _
  · exact hfeed
  · rw [toList_render, count_flatMap_separator hfeed]
    rfl
  · exact isLeast_editDistance pair.source pair.target
  · simp [alignedSource]
  · simp [alignedTarget]
  · omega
  · omega
  · exact hcolumns
  · exact hcolumns'

end Alignment

namespace Command

variable {text text' : String} {pair : TextPair}

theorem exists_framed (h : TextPair.parse text = .ok pair) :
    ∃ a, (runEditDistance text).outcome = .ok (.alignment a) ∧
      a.Framed pair (Report.alignment a).render.toList := by
  obtain ⟨hsource, htarget⟩ := TextPair.not_mem_of_parse h
  exact ⟨_, outcome_runEditDistance_eq_ok_iff.mpr ⟨pair, h, rfl⟩,
    Alignment.framed_align hsource htarget⟩

/-- The text is looked at through its first two lines only. -/
theorem runEditDistance_congr (h : TextPair.parse text = TextPair.parse text') :
    runEditDistance text = runEditDistance text' := by
  rw [runEditDistance, runEditDistance, h]

end Command

/-- A text with two lines has a report of three, of which the first is the least cost of aligning
the two and the others are as long as the alignment. Writing it piece by piece writes nothing
else, and texts with the same first two lines have the same report. -/
theorem framed_runEditDistance :
    (∀ text pair, TextPair.parse text = .ok pair →
      ∃ a, (Command.runEditDistance text).outcome = .ok (.alignment a) ∧
        a.Framed pair (Report.alignment a).render.toList ∧
        ∀ s : Sink, (Report.alignment a).writeTo s = s.write (utf8 (Report.alignment a).render)) ∧
    (∀ text text' pair, TextPair.parse text = .ok pair → TextPair.parse text' = .ok pair →
      Command.runEditDistance text = Command.runEditDistance text') ∧
    ∀ first second rest rest' : String, '\n' ∉ first.toList → '\n' ∉ second.toList →
      Command.runEditDistance (first ++ "\n" ++ second ++ "\n" ++ rest) =
        Command.runEditDistance (first ++ "\n" ++ second ++ "\n" ++ rest') := by
  refine ⟨?_, ?_, ?_⟩
  · intro text pair h
    obtain ⟨a, hreport, hframed⟩ := Command.exists_framed h
    exact ⟨a, hreport, hframed, Report.writeTo_eq _⟩
  · intro text text' pair h h'
    exact Command.runEditDistance_congr (h.trans h'.symm)
  · intro first second rest rest' hfirst hsecond
    have htext (rest : String) : (first ++ "\n" ++ second ++ "\n" ++ rest).toList =
        first.toList ++ '\n' :: (second.toList ++ '\n' :: rest.toList) := by
      simp
    have hparse (rest : String) := TextPair.parse_of_two_feeds hfirst hsecond (htext rest)
    exact Command.runEditDistance_congr ((hparse rest).trans (hparse rest').symm)

/-- A carriage return, a line separator and a letter of two bytes are characters like any other. -/
theorem framed_runEditDistance_separators :
    TextPair.parse "a\rb\u2028é\na b\r\nmore" = .ok ⟨"a\rb\u2028é", "a b"⟩ ∧
      (∃ a, (Command.runEditDistance "a\rb\u2028é\na b\r\nmore").outcome = .ok (.alignment a) ∧
        (Report.alignment a).render.toList.count '\n' = 3 ∧ 5 ≤ a.alignedTarget.length) ∧
      Command.runEditDistance "a\rb\u2028é\na b\r\nmore" =
        Command.runEditDistance "a\rb\u2028é\na b\n" ∧
      Command.runEditDistance ("é" ++ "\n" ++ "\r" ++ "\n" ++ "more") =
        Command.runEditDistance ("é" ++ "\n" ++ "\r" ++ "\n" ++ "") := by
  have hparse : TextPair.parse "a\rb\u2028é\na b\r\nmore" = .ok ⟨"a\rb\u2028é", "a b"⟩ := by decide
  have hparse' : TextPair.parse "a\rb\u2028é\na b\n" = .ok ⟨"a\rb\u2028é", "a b"⟩ := by decide
  obtain ⟨hreports, hsame, hrest⟩ := framed_runEditDistance
  refine ⟨hparse, ?_, hsame _ _ _ hparse hparse', hrest _ _ _ _ (by decide) (by decide)⟩
  obtain ⟨a, hreport, hframed, -⟩ := hreports _ _ hparse
  have hlength : "a\rb\u2028é".length = 5 := by decide
  have hcolumns : a.columns.length = 5 + a.counts.insertions :=
    hframed.columns_eq_source.trans (by rw [hlength])
  have hrow := hframed.length_alignedTarget
  exact ⟨a, hreport, hframed.count_feed, by omega⟩

end ClassicAlgorithms
