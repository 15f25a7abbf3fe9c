import ClassicAlgorithms.CommandLine.Source

/-!
# Which paths name standard input

Paths are compared by their parts, and a segment without a part is empty or a single dot. So
the spellings of the path `-` are a dash and any number of such segments behind it. Whatever
makes a part in front of the dash, a leading slash and a leading dot included, or behind it
turns the path into that of a file. The parts are only compared: a file keeps every character
of its path.
-/
namespace ClassicAlgorithms

namespace PathPart

variable {segment : List Char} {segments : List (List Char)}

theorem ofSegment?_eq_none_iff : ofSegment? segment = none ↔ segment = [] ∨ segment = ['.'] := by
  unfold ofSegment?
  split <;> simp_all

theorem ofSegment?_eq_name_iff :
    ofSegment? segment = some (name ['-']) ↔ segment = ['-'] := by
  unfold ofSegment?
  split <;> simp_all

/-- The parts of a dash are those of a path whose first segment is the dash and whose further
segments make no parts. -/
theorem ofSegments_eq_dash_iff :
    ofSegments segments = [name ['-']] ↔
      ∃ rest, segments = ['-'] :: rest ∧ ∀ s ∈ rest, s = [] ∨ s = ['.'] := by
  constructor
  · intro h
    unfold ofSegments at h
    split at h
    case h_1 => simp at h
    case h_2 => simp at h
    case h_3 hslash hdot =>
      cases segments with
      | nil => simp at h
      | cons first rest =>
        -- A first segment without a part would be one of the two that come before.
        have hfirst : ofSegment? first ≠ none := by
          rw [Ne, ofSegment?_eq_none_iff]
          intro hblank
          rcases hblank with rfl | rfl
          · cases rest with
            | nil => cases h
            | cons next rest => exact hslash next rest rfl
          · exact hdot rest rfl
        obtain ⟨part, hpart⟩ := Option.ne_none_iff_exists'.mp hfirst
        rw [List.filterMap_cons_some hpart, List.cons.injEq] at h
        obtain ⟨rfl, hrest⟩ := h
        refine ⟨rest, by rw [ofSegment?_eq_name_iff.mp hpart], ?_⟩
        intro s hs
        exact ofSegment?_eq_none_iff.mp (List.filterMap_eq_nil_iff.mp hrest s hs)
  · intro h
    obtain ⟨rest, rfl, hrest⟩ := h
    have hnone : rest.filterMap ofSegment? = [] :=
      List.filterMap_eq_nil_iff.mpr fun s hs => ofSegment?_eq_none_iff.mpr (hrest s hs)
    simp [ofSegments, ofSegment?, hnone]

end PathPart

namespace InputSource

/-- Between its slashes, the path has a dash first and then only empty segments and dots. -/
def SpellsDash (path : String) : Prop :=
  ∃ rest, path.toList.splitOn '/' = ['-'] :: rest ∧
    ∀ segment ∈ rest, segment = [] ∨ segment = ['.']

theorem isDash_iff (path : String) : isDash path = true ↔ SpellsDash path := by
  have hdash : parts ['-'] = [.name ['-']] := by decide
  rw [isDash, beq_iff_eq, hdash, parts, PathPart.ofSegments_eq_dash_iff, segments,
    Text.split_eq_splitOn]
  exact Iff.rfl

theorem ofPath_some_of_not (path : String) (h : ¬ SpellsDash path) :
    ofPath (some path) = .file path := by
  rw [← isDash_iff] at h
  simp [ofPath, h]

theorem not_spellsDash_empty : ¬ SpellsDash "" := by
  intro h
  obtain ⟨rest, hrest, -⟩ := h
  simp at hrest

/-- An input comes from standard input exactly if its path is absent or a spelling of the dash.
Every other path, the empty one among them, is that of a file, with the text that it has, and
is shown as that text between backticks. -/
theorem ofPath_eq_stdin_iff_and_file :
    (∀ path : Option String,
      ofPath path = .stdin ↔ path = none ∨ ∃ text, path = some text ∧ SpellsDash text) ∧
    (∀ text : String, ofPath (some text) ≠ .stdin →
      ofPath (some text) = .file text ∧ (ofPath (some text)).display = "`" ++ text ++ "`") ∧
    ofPath (some "") ≠ .stdin := by
  have hsome (text : String) : ofPath (some text) = .stdin ↔ SpellsDash text := by
    rw [← isDash_iff]
    by_cases h : isDash text <;> simp [ofPath, h]
  refine ⟨?_, ?_, ?_⟩
  · intro path
    cases path with
    | none => simp [ofPath]
    | some text => simp [hsome]
  · intro text h
    have hfile := ofPath_some_of_not text fun hdash => h ((hsome text).mpr hdash)
    exact ⟨hfile, by rw [hfile, display]; rfl⟩
  · exact fun h => not_spellsDash_empty ((hsome "").mp h)

/-- Slashes and dots behind the dash say nothing; in front of it they make a file of it. -/
theorem ofPath_dash_among_dots :
    ofPath (some "-//./") = .stdin ∧ ofPath (some "./-") ≠ .stdin ∧
      ofPath (some "./-") = .file "./-" ∧ (ofPath (some "./-")).display = "`" ++ "./-" ++ "`" := by
  have hfile : ofPath (some "./-") ≠ .stdin := by decide
  exact ⟨by decide, hfile, ofPath_eq_stdin_iff_and_file.2.1 "./-" hfile⟩

end InputSource

end ClassicAlgorithms
