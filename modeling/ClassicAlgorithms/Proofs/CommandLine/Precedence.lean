import ClassicAlgorithms.CommandLine.Program
import ClassicAlgorithms.Proofs.CommandLine.LogFilter
import ClassicAlgorithms.Proofs.CommandLine.Sink

/-!
# Which stage decides how a run ends

A log format that is refused decides before the arguments count, and arguments that ask for
help or are wrong decide before any input is read. Otherwise the command decides, and what it
reports stands whole on standard output or not at all. The program keeps to this, whatever
parsers it has, unless the parser of log filters breaks down, and then it breaks down, too.
-/
namespace ClassicAlgorithms

namespace Parsers

theorem filterFor_eq_none_iff {Filter : Type} {p : Parsers Filter} {value : Option String} :
    p.filterFor value = none ↔
      ∃ text, value = some text ∧ p.filter text = .error .brokenCharacter := by
  cases value with
  | none => simp [filterFor]
  | some text =>
    cases hread : p.filter text with
    | ok filter => simp [filterFor, hread]
    | error e => cases e <;> simp [filterFor, hread]

end Parsers

namespace Program

/-- The variable for the log format is set, and holds no text or one that names no format. -/
def FormatRefused (value : Option ByteArray) : Prop :=
  ∃ bytes, value = some bytes ∧
    (¬ bytes.IsValidUTF8 ∨
      ∃ raw : String, raw.toUTF8 = bytes ∧ Text.normalise raw.toList ≠ "human".toList ∧
        Text.normalise raw.toList ≠ "json".toList)

/-- The exit code of an outcome and all that it leaves on standard output. -/
def Ends (outcome : Outcome) (exitCode : ℕ) (stdout : String) : Prop :=
  outcome.exitCode = exitCode ∧ outcome.stdout = stdout

/-- No input has a part in how a run ends. -/
def Unread [Memory] {Filter : Type} (p : Parsers Filter) (s : Setting) : Prop :=
  ∀ read, runWith p { s with read } = runWith p s

/-- A command that succeeds ends with what writing its report puts into a sink with room for
it; one that fails ends with nothing written. -/
structure Concludes (result : Except CommandError Report) (outcome : Outcome) : Prop where
  success : outcome.exitCode = 0 ↔ ∃ report, result = .ok report
  written : ∀ report, result = .ok report → ∀ room, (utf8 outcome.stdout).length ≤ room →
    report.writeTo (.ofLimit room) =
      (⟨(utf8 outcome.stdout).toArray, room - (utf8 outcome.stdout).length⟩, none)
  failure : ∀ e, result = .error e → Ends outcome 1 ""

/-- The first stage that can decide does: the log format, then the arguments, then the command. -/
structure FollowsPrecedence [Memory] {Filter : Type} (p : Parsers Filter) (s : Setting) :
    Prop where
  refused : FormatRefused s.logFormat → ∀ arguments read,
    Ends (runWith p { s with arguments, read }) 1 ""
  help : ¬ FormatRefused s.logFormat → ∀ page, p.arguments s.arguments = .ok (.help page) →
    Unread p s ∧ Ends (runWith p s) 0 page
  argumentError : ¬ FormatRefused s.logFormat → ∀ e, p.arguments s.arguments = .error e →
    Unread p s ∧ Ends (runWith p s) 2 ""
  command : ¬ FormatRefused s.logFormat → ∀ command path,
    p.arguments s.arguments = .ok (.run command path) →
    Concludes (command.run s.read (.ofPath path)).outcome (runWith p s)

section
variable {Filter : Type} {p : Parsers Filter} {filter : Filter} {s : Setting}

theorem exists_parse_error_iff (raw : String) :
    (∃ e, LogFormat.parse raw = .error e) ↔
      Text.normalise raw.toList ≠ "human".toList ∧ Text.normalise raw.toList ≠ "json".toList := by
  have hword (name : String) : String.ofList (Text.normalise raw.toList) = name ↔
      Text.normalise raw.toList = name.toList := by
    rw [← String.toList_inj, String.toList_ofList]
  simp only [LogFormat.parse, beq_iff_eq, hword]
  split_ifs with hhuman hjson
  · simp [hhuman]
  · simp [hjson]
  · exact ⟨fun _ => ⟨hhuman, hjson⟩, fun _ => ⟨_, rfl⟩⟩

theorem formatRefused_iff (value : Option ByteArray) :
    FormatRefused value ↔ ∃ e, LogFormat.ofVariable value = .error e := by
  cases value with
  | none => simp [FormatRefused, LogFormat.ofVariable]
  | some bytes =>
    by_cases hvalid : bytes.IsValidUTF8
    · obtain ⟨raw, rfl⟩ : ∃ raw : String, raw.toUTF8 = bytes := ⟨⟨bytes, hvalid⟩, rfl⟩
      have hread : String.fromUTF8? raw.toUTF8 = some raw := dif_pos hvalid
      simp only [LogFormat.ofVariable, hread, exists_parse_error_iff]
      constructor
      · rintro ⟨_, ⟨⟩, hbad | ⟨raw', hraw, hother⟩⟩
        · exact absurd hvalid hbad
        · obtain rfl : raw' = raw := String.toByteArray_inj.mp hraw
          exact hother
      · exact fun hother => ⟨_, rfl, .inr ⟨raw, rfl, hother⟩⟩
    · have hread : String.fromUTF8? bytes = none := dif_neg hvalid
      simp only [LogFormat.ofVariable, hread]
      exact ⟨fun _ => ⟨_, rfl⟩, fun _ => ⟨bytes, rfl, .inl hvalid⟩⟩

theorem ends_conclude_error (format : LogFormat) (e : CommandError) :
    Ends (conclude p format filter (.error e)) 1 "" := by
  simp only [conclude]
  split <;> exact ⟨rfl, rfl⟩

theorem concludes_conclude (format : LogFormat) (result : Except CommandError Report) :
    Concludes result (conclude p format filter result) where
  success := by
    cases result with
    | ok report => exact ⟨fun _ => ⟨report, rfl⟩, fun _ => rfl⟩
    | error e =>
      have hends : Ends (conclude p format filter (.error e)) 1 "" := ends_conclude_error format e
      simp [hends.1]
  written := by
    rintro report rfl room hroom
    change (utf8 report.render).length ≤ room at hroom
    rw [Report.writeTo_eq, Sink.write_of_le hroom]
    simp [Sink.ofLimit, conclude, quiet]
  failure := by
    rintro e rfl
    exact ends_conclude_error format e

/-- What a refused log format leaves undone. -/
theorem ends_runWith_of_formatRefused [Memory] (h : FormatRefused s.logFormat) :
    Ends (runWith p s) 1 "" := by
  obtain ⟨e, he⟩ := (formatRefused_iff _).mp h
  simp [runWith, plan, he, Ends, unlogged]

theorem exists_format (h : ¬ FormatRefused s.logFormat) :
    ∃ format, LogFormat.ofVariable s.logFormat = .ok format := by
  cases hformat : LogFormat.ofVariable s.logFormat with
  | ok format => exact ⟨format, rfl⟩
  | error e => exact absurd ((formatRefused_iff _).mpr ⟨e, hformat⟩) h

theorem runWith_of_broken [Memory] (h : ¬ FormatRefused s.logFormat)
    (hfilter : p.filterFor s.logFilter = none) : runWith p s = brokenDown := by
  obtain ⟨format, hformat⟩ := exists_format h
  simp [runWith, plan, hformat, hfilter]

/-- Once the log is set up, the arguments and then the command decide. -/
theorem exists_runWith_eq [Memory] (h : ¬ FormatRefused s.logFormat)
    (hfilter : p.filterFor s.logFilter ≠ none) :
    ∃ format filter, ∀ read, runWith p { s with read } =
      match p.arguments s.arguments with
      | .error e => quiet 2 "" e.message
      | .ok (.help page) => quiet 0 page ""
      | .ok (.run command path) =>
        conclude p format filter (command.run read (.ofPath path)).outcome := by
  obtain ⟨format, hformat⟩ := exists_format h
  obtain ⟨filter, hfilter⟩ := Option.ne_none_iff_exists'.mp hfilter
  refine ⟨format, filter, fun read => ?_⟩
  simp only [runWith, plan, hformat, hfilter]
  cases p.arguments s.arguments with
  | error e => rfl
  | ok request => cases request <;> rfl

theorem unread_and_ends [Memory] {outcome : Outcome}
    (h : ∀ read, runWith p { s with read } = outcome) :
    Unread p s ∧ Ends (runWith p s) outcome.exitCode outcome.stdout := by
  have hs : runWith p s = outcome := h s.read
  exact ⟨fun read => (h read).trans hs.symm, hs ▸ ⟨rfl, rfl⟩⟩

theorem followsPrecedence_of_filter [Memory] (hfilter : p.filterFor s.logFilter ≠ none) :
    FollowsPrecedence p s where
  refused h arguments read := ends_runWith_of_formatRefused (s := { s with arguments, read }) h
  help h page hpage := by
    obtain ⟨format, filter, hrun⟩ := exists_runWith_eq h hfilter
    simp only [hpage] at hrun
    exact unread_and_ends hrun
  argumentError h e he := by
    obtain ⟨format, filter, hrun⟩ := exists_runWith_eq h hfilter
    simp only [he] at hrun
    exact unread_and_ends hrun
  command h command path hcommand := by
    obtain ⟨format, filter, hrun⟩ := exists_runWith_eq h hfilter
    simp only [hcommand] at hrun
    have hs : runWith p s = conclude p format filter (command.run s.read (.ofPath path)).outcome :=
      hrun s.read
    rw [hs]
    exact concludes_conclude format _

/-- No stage ends a run with the exit code of a breakdown. -/
theorem not_followsPrecedence_of_broken [Memory] (h : ¬ FormatRefused s.logFormat)
    (hfilter : p.filterFor s.logFilter = none) : ¬ FollowsPrecedence p s := by
  intro hs
  have hbroken : (runWith p s).exitCode = 101 := by rw [runWith_of_broken h hfilter]; rfl
  cases harguments : p.arguments s.arguments with
  | error e =>
    have := (hs.argumentError h e harguments).2.1
    omega
  | ok request =>
    cases request with
    | help page =>
      have := (hs.help h page harguments).2.1
      omega
    | run command path =>
      have hend := hs.command h command path harguments
      cases hresult : (command.run s.read (.ofPath path)).outcome with
      | ok report =>
        have := hend.success.mpr ⟨report, hresult⟩
        omega
      | error e =>
        have := (hend.failure e hresult).1
        omega

/-- With a refused log format, nothing else decides. -/
theorem followsPrecedence_of_formatRefused [Memory] (h : FormatRefused s.logFormat) :
    FollowsPrecedence p s where
  refused _ arguments read := ends_runWith_of_formatRefused (s := { s with arguments, read }) h
  help hnot := absurd h hnot
  argumentError hnot := absurd h hnot
  command hnot := absurd h hnot

/-- Nothing but a filter over which its parser breaks down keeps the stages from deciding. -/
theorem broken_of_not_followsPrecedence [Memory] (h : ¬ FollowsPrecedence p s) :
    (∃ text, s.logFilter = some text ∧ p.filter text = .error .brokenCharacter) ∧
      ∀ arguments read, runWith p { s with arguments, read } = brokenDown := by
  have hrefused : ¬ FormatRefused s.logFormat := by
    intro hrefused
    exact h (followsPrecedence_of_formatRefused hrefused)
  have hfilter : p.filterFor s.logFilter = none := by
    by_contra hfilter
    exact h (followsPrecedence_of_filter hfilter)
  refine ⟨Parsers.filterFor_eq_none_iff.mp hfilter, ?_⟩
  intro arguments read
  exact runWith_of_broken (s := { s with arguments, read }) hrefused hfilter

end

/-- Whatever the parsers, the stages decide in their order exactly if the log format is refused or
the log filter can be read or refused. Otherwise the parser breaks down over the filter, and the
program breaks down whatever its arguments and its input are. The parser that the program has
breaks down only over filters in which a directive begins with a blank. -/
theorem followsPrecedence_iff [Memory] :
    (∀ {Filter : Type} (p : Parsers Filter) (s : Setting),
      (FollowsPrecedence p s ↔
        FormatRefused s.logFormat ∨ p.filterFor s.logFilter ≠ none) ∧
      (¬ FollowsPrecedence p s →
        (∃ text, s.logFilter = some text ∧ p.filter text = .error .brokenCharacter) ∧
          ∀ arguments read, runWith p { s with arguments, read } = brokenDown)) ∧
    ∀ s, ¬ FollowsPrecedence .builtIn s →
      (∃ text, s.logFilter = some text ∧ ¬ LogFilter.StartsFlush text) ∧
        ∀ arguments read, run { s with arguments, read } = brokenDown := by
  constructor
  · intro Filter p s
    refine ⟨?_, broken_of_not_followsPrecedence⟩
    constructor
    · intro hs
      by_contra hnot
      obtain ⟨hrefused, hfilter⟩ := not_or.mp hnot
      exact not_followsPrecedence_of_broken hrefused (not_not.mp hfilter) hs
    · intro h
      rcases h with hrefused | hfilter
      · exact followsPrecedence_of_formatRefused hrefused
      · exact followsPrecedence_of_filter hfilter
  · intro s hs
    obtain ⟨⟨text, htext, hbroken⟩, hrun⟩ := broken_of_not_followsPrecedence hs
    exact ⟨⟨text, htext, fun hflush => LogFilter.read_ne_brokenCharacter hflush hbroken⟩, hrun⟩

/-- A blank in front of a directive can cost even the help page. -/
theorem not_followsPrecedence_blank_directive :
    ¬ FollowsPrecedence .builtIn ⟨["--help"], none, some " é=off", fun _ => .error .notFound⟩ :=
  not_followsPrecedence_of_broken (by simp [FormatRefused]) rfl

end Program

end ClassicAlgorithms
