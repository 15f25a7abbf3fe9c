import ClassicAlgorithms.Input.TextPair
import ClassicAlgorithms.Proofs.Text.Line
import Mathlib.Data.String.Basic

/-!
# Reading two lines

There is a second line as soon as anything follows the first line feed, be it only another
feed. Lines that end in a carriage return and a feed come back as they were written. Lines
that end in a feed alone do so unless they have a carriage return of their own at the end,
which cannot be told from one that belongs to the ending. The end of the text ends the
second line without taking anything from it.
-/
namespace ClassicAlgorithms

namespace TextPair

open Text

/-- What reading the first two lines of a text results in. -/
structure Verdict (text : String) (result : Except InputError TextPair) : Prop where
  ok_iff : (∃ pair, result = .ok pair) ↔ behindFeed text.toList ≠ []
  noLine_iff : result = .error (.missingLine 0) ↔ text = ""
  oneLine_iff : result = .error (.missingLine 1) ↔ text ≠ "" ∧ behindFeed text.toList = []
  feed_not_mem : ∀ pair, result = .ok pair →
    '\n' ∉ pair.source.toList ∧ '\n' ∉ pair.target.toList

/-- What is read where two lines stand one below the other, by how they end. -/
structure ReadsBack (source target : String) : Prop where
  return_feed : ∀ rest,
    parse (source ++ "\r\n" ++ target ++ "\r\n" ++ rest) = .ok ⟨source, target⟩
  feed_iff : ∀ rest, parse (source ++ "\n" ++ target ++ "\n" ++ rest) = .ok ⟨source, target⟩ ↔
    source.toList.getLast? ≠ some '\r' ∧ target.toList.getLast? ≠ some '\r'
  unended : target ≠ "" → parse (source ++ "\n" ++ target) =
    .ok ⟨String.ofList (withoutReturn source.toList), target⟩

variable {text source target : String} {pair : TextPair} {first second rest : List Char}

theorem parse_eq_ok_iff_lines :
    parse text = .ok pair ↔
      ∃ more, lines text.toList = pair.source.toList :: pair.target.toList :: more := by
  rw [parse]
  match lines text.toList with
  | [] => simp [ofLines]
  | [_] => simp [ofLines]
  | source :: target :: more =>
    simp only [ofLines, Except.ok.injEq, List.cons.injEq]
    constructor
    · rintro rfl
      simp
    · rintro ⟨_, rfl, rfl, -⟩
      simp

theorem parse_of_not_mem (h : '\n' ∉ text.toList) (hne : text ≠ "") :
    parse text = .error (.missingLine 1) := by
  rw [parse, lines_of_not_mem h, if_neg (String.toList_eq_nil_iff.not.mpr hne)]
  rfl

/-- The first line and what is behind it. -/
theorem parse_of_feed (h : '\n' ∉ first) (htext : text.toList = first ++ '\n' :: rest) :
    parse text = ofLines (withoutReturn first :: lines rest) := by
  rw [parse, htext, lines_append_feed h]

/-- The number of lines that there are decides. -/
theorem parse_cases (text : String) :
    (text = "" ∧ behindFeed text.toList = [] ∧ parse text = .error (.missingLine 0)) ∨
      (text ≠ "" ∧ behindFeed text.toList = [] ∧ parse text = .error (.missingLine 1)) ∨
      (text ≠ "" ∧ behindFeed text.toList ≠ [] ∧ ∃ pair, parse text = .ok pair) := by
  by_cases hempty : text = ""
  · subst hempty
    exact .inl ⟨rfl, rfl, rfl⟩
  by_cases hmem : '\n' ∈ text.toList
  · obtain ⟨first, rest, htext, hfirst⟩ := List.eq_append_cons_of_mem hmem
    have hparse := parse_of_feed hfirst htext
    have hbehind : behindFeed text.toList = rest := by rw [htext, behindFeed_append_feed hfirst]
    cases hlines : lines rest with
    | nil =>
      obtain rfl := lines_eq_nil_iff.mp hlines
      exact .inr (.inl ⟨hempty, hbehind, hparse⟩)
    | cons second more =>
      have hrest : rest ≠ [] := by
        rintro rfl
        cases hlines
      rw [hlines] at hparse
      exact .inr (.inr ⟨hempty, hbehind ▸ hrest, _, hparse⟩)
  · exact .inr (.inl ⟨hempty, behindFeed_of_not_mem hmem, parse_of_not_mem hmem hempty⟩)

theorem not_mem_of_parse (h : parse text = .ok pair) :
    '\n' ∉ pair.source.toList ∧ '\n' ∉ pair.target.toList := by
  obtain ⟨more, hlines⟩ := parse_eq_ok_iff_lines.mp h
  have hmem : ∀ line ∈ lines text.toList, '\n' ∉ line := fun _ => not_mem_of_mem_lines
  rw [hlines, List.forall_mem_cons, List.forall_mem_cons] at hmem
  exact ⟨hmem.1, hmem.2.1⟩

theorem verdict_parse (text : String) : Verdict text (parse text) := by
  rcases parse_cases text with ⟨hempty, hbehind, hparse⟩ | ⟨hne, hbehind, hparse⟩ |
    ⟨hne, hbehind, pair, hparse⟩
  · exact {
      ok_iff := by simp [hparse, hbehind]
      noLine_iff := iff_of_true hparse hempty
      oneLine_iff := iff_of_false (by simp [hparse]) fun h => h.1 hempty
      feed_not_mem := fun pair => not_mem_of_parse }
  · exact {
      ok_iff := by simp [hparse, hbehind]
      noLine_iff := by simp [hparse, hne]
      oneLine_iff := iff_of_true hparse ⟨hne, hbehind⟩
      feed_not_mem := fun pair => not_mem_of_parse }
  · exact {
      ok_iff := iff_of_true ⟨pair, hparse⟩ hbehind
      noLine_iff := by simp [hparse, hne]
      oneLine_iff := by simp [hparse, hbehind]
      feed_not_mem := fun pair => not_mem_of_parse }

theorem parse_of_two_feeds (hfirst : '\n' ∉ first) (hsecond : '\n' ∉ second)
    (htext : text.toList = first ++ '\n' :: (second ++ '\n' :: rest)) :
    parse text =
      .ok ⟨String.ofList (withoutReturn first), String.ofList (withoutReturn second)⟩ := by
  rw [parse_of_feed hfirst htext, lines_append_feed hsecond, ofLines]

theorem readsBack (hsource : '\n' ∉ source.toList) (htarget : '\n' ∉ target.toList) :
    ReadsBack source target where
  return_feed rest := by
    have htext : (source ++ "\r\n" ++ target ++ "\r\n" ++ rest).toList =
        (source.toList ++ ['\r']) ++
          '\n' :: ((target.toList ++ ['\r']) ++ '\n' :: rest.toList) := by
      simp
    rw [parse_of_two_feeds (by simpa using hsource) (by simpa using htarget) htext]
    simp
  feed_iff rest := by
    have htext : (source ++ "\n" ++ target ++ "\n" ++ rest).toList =
        source.toList ++ '\n' :: (target.toList ++ '\n' :: rest.toList) := by
      simp
    rw [parse_of_two_feeds hsource htarget htext, Except.ok.injEq, TextPair.mk.injEq,
      String.ofList_eq, String.ofList_eq, withoutReturn_eq_self_iff, withoutReturn_eq_self_iff]
  unended hne := by
    have htext : (source ++ "\n" ++ target).toList = source.toList ++ '\n' :: target.toList := by
      simp
    have hlines : lines target.toList = [target.toList] := by
      rw [lines_of_not_mem htarget, if_neg (String.toList_eq_nil_iff.not.mpr hne)]
    rw [parse_of_feed hsource htext, hlines, ofLines, String.ofList_toList]

/-- A text has two lines exactly when there is something behind its first line feed, and none
exactly when it is empty. Lines without line feeds come back from any text that begins with
them, provided that a carriage return at their end is not taken for a part of the ending. -/
theorem verdict_and_readsBack :
    (∀ text, Verdict text (parse text)) ∧
      ∀ source target : String, '\n' ∉ source.toList → '\n' ∉ target.toList →
        ReadsBack source target :=
  ⟨verdict_parse, fun _ _ => readsBack⟩

/-- Of two carriage returns one is left, and a last line keeps its own. -/
theorem verdict_and_readsBack_returns :
    '\n' ∉ "a\r".toList ∧ '\n' ∉ "\r".toList ∧
      parse "a\r\r\n\r\r\nrest" = .ok ⟨"a\r", "\r"⟩ ∧
      parse "a\r\n\r\nrest" ≠ .ok ⟨"a\r", "\r"⟩ ∧
      parse "a\r\n\r" = .ok ⟨"a", "\r"⟩ := by
  have hsource : '\n' ∉ "a\r".toList := by decide
  have htarget : '\n' ∉ "\r".toList := by decide
  have hreads := verdict_and_readsBack.2 "a\r" "\r" hsource htarget
  refine ⟨hsource, htarget, hreads.return_feed "rest", ?_, hreads.unended (by decide)⟩
  exact fun hparse => ((hreads.feed_iff "rest").mp hparse).1 (by decide)

end TextPair

end ClassicAlgorithms
