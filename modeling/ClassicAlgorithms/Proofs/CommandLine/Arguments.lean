import ClassicAlgorithms.CommandLine.Arguments
import Mathlib.Data.List.Basic

/-!
# The words after a command

The words after a command are read one by one. Either all of them are taken, as values or as the
two dashes that make values of the rest, and with at most one value among them; then it is the
value that decides, and more words may follow. Or one of them asks for help or is out of place;
then the answer is there, and no further word is looked at.

An empty value is neither: it is refused when nothing follows, but until then it only waits, and
a later word that is out of place is answered first.
-/
namespace ClassicAlgorithms

namespace WordForm

/-- Neither a flag nor the two dashes: such a word is a single dash or begins with something else
than a dash. -/
def Plain (word : String) : Prop := word = "-" ∨ word.toList.head? ≠ some '-'

variable {word : String}

theorem plain_iff : Plain word ↔ ∀ c rest, word.toList ≠ '-' :: c :: rest := by
  have hdash : word = "-" ↔ word.toList = ['-'] := String.toList_inj.symm
  rw [Plain, hdash]
  cases word.toList with
  | nil => simp
  | cons first rest => cases rest <;> simp [Classical.em]

theorem of_eq_ordinary_iff : of word = ordinary ↔ Plain word := by
  rw [plain_iff]
  unfold of
  split
  case h_2 flag hword =>
    split_ifs <;> simp [hword]
  all_goals simp_all

theorem of_eq_separator_iff : of word = separator ↔ word = "--" := by
  constructor
  · intro h
    unfold of at h
    split at h
    case h_1 hword => exact String.toList_inj.mp hword
    case h_2 => split_ifs at h
    all_goals cases h
  · intro h
    subst h
    rfl

end WordForm

namespace Request

open WordForm

/-- The values that the words hold if all of them are taken. Behind the two dashes every word is
a value. -/
inductive Lists : (verbatim : Bool) → (words values : List String) → Prop
  | nil {verbatim : Bool} : Lists verbatim [] []
  | value {verbatim : Bool} {word : String} {words values : List String} :
    verbatim = true ∨ Plain word → Lists verbatim words values →
      Lists verbatim (word :: words) (word :: values)
  | separator {words values : List String} :
    Lists true words values → Lists false ("--" :: words) values

section
variable {command command' : Command} {verbatim : Bool} {path path' : Option String}
  {word : String} {words values : List String}

theorem withPath_ne_run {page : String} :
    withPath path (.help page) ≠ .ok (.run command' path') := by
  unfold withPath
  split_ifs <;> simp

theorem withPath_run_iff :
    withPath path (.run command path) = .ok (.run command' path') ↔
      command' = command ∧ path' = path ∧ path ≠ some "" := by
  unfold withPath
  split_ifs with h
  · simp [h]
  · simp [h, eq_comm]

theorem afterCommand_value (h : verbatim = true ∨ Plain word) (rest : List String) :
    afterCommand command verbatim path (word :: rest) =
      if path.isSome then .error .unexpectedArgument
      else afterCommand command verbatim (some word) rest := by
  have hform : (if verbatim then ordinary else of word) = ordinary := by
    split_ifs with hverbatim
    · rfl
    · exact of_eq_ordinary_iff.mpr (h.resolve_left hverbatim)
  simp only [afterCommand, hform]

theorem afterCommand_separator (rest : List String) :
    afterCommand command false path ("--" :: rest) = afterCommand command true path rest := by
  have hform : of "--" = separator := of_eq_separator_iff.mpr rfl
  simp only [afterCommand, hform, Bool.false_eq_true, if_false]

/-- A word with the form of a flag gives the answer, whatever stands behind it. -/
theorem exists_afterCommand_flag (hplain : ¬ Plain word) (hword : word ≠ "--") :
    ∃ answer, (∀ command' path', answer ≠ .ok (.run command' path')) ∧
      ∀ rest, afterCommand command false path (word :: rest) = answer := by
  cases hform : of word with
  | separator => exact absurd (of_eq_separator_iff.mp hform) hword
  | ordinary => exact absurd (of_eq_ordinary_iff.mp hform) hplain
  | helpFlag =>
    refine ⟨withPath path (.help (HelpPage.ofCommand command)), fun _ _ => withPath_ne_run, ?_⟩
    intro rest
    simp only [afterCommand, hform, Bool.false_eq_true, if_false]
  | helpFlagWithValue =>
    refine ⟨.error .unneededValue, by simp, ?_⟩
    intro rest
    simp only [afterCommand, hform, Bool.false_eq_true, if_false]
  | unknownFlag =>
    refine ⟨.error .unexpectedArgument, by simp, ?_⟩
    intro rest
    simp only [afterCommand, hform, Bool.false_eq_true, if_false]

/-- Words that are taken leave the path that they name, and more words may follow. -/
theorem exists_afterCommand_append (command : Command) (h : Lists verbatim words values)
    (hpath : path.toList ++ values = path'.toList) :
    ∃ verbatim', ∀ more,
      afterCommand command verbatim path (words ++ more) =
        afterCommand command verbatim' path' more := by
  induction h generalizing path with
  | @nil verbatim =>
    obtain rfl : path = path' := by
      cases path <;> cases path' <;> simp_all
    exact ⟨verbatim, fun more => rfl⟩
  | @value verbatim word words values hword _ ih =>
    -- No other path can have been read before: two words are no path.
    obtain rfl : path = none := by
      cases path <;> cases path' <;> simp_all
    obtain ⟨verbatim', hmore⟩ := @ih (some word) (by simpa using hpath)
    refine ⟨verbatim', fun more => ?_⟩
    rw [List.cons_append, afterCommand_value hword]
    exact hmore more
  | separator _ ih =>
    obtain ⟨verbatim', hmore⟩ := ih hpath
    refine ⟨verbatim', fun more => ?_⟩
    rw [List.cons_append, afterCommand_separator]
    exact hmore more

/-- Words that are not all taken have their answer, and it is no command to run. -/
theorem exists_answer (command : Command) (h : ∀ (values : List String) (path' : Option String),
    Lists verbatim words values → path.toList ++ values ≠ path'.toList) :
    ∃ answer, (∀ command' path', answer ≠ .ok (.run command' path')) ∧
      ∀ more, afterCommand command verbatim path (words ++ more) = answer := by
  induction words generalizing verbatim path with
  | nil => exact absurd (List.append_nil _) (h [] path .nil)
  | cons word rest ih =>
    by_cases hword : verbatim = true ∨ Plain word
    · cases path with
      | some first =>
        refine ⟨.error .unexpectedArgument, by simp, fun more => ?_⟩
        rw [List.cons_append, afterCommand_value hword]
        rfl
      | none =>
        obtain ⟨answer, hanswer, hmore⟩ := @ih verbatim (some word)
          fun values path' hvalues => h (word :: values) path' (.value hword hvalues)
        refine ⟨answer, hanswer, fun more => ?_⟩
        rw [List.cons_append, afterCommand_value hword]
        exact hmore more
    · obtain ⟨hverbatim, hplain⟩ := not_or.mp hword
      obtain rfl : verbatim = false := by simpa using hverbatim
      by_cases hseparator : word = "--"
      · subst hseparator
        obtain ⟨answer, hanswer, hmore⟩ := @ih true path
          fun values path' hvalues => h values path' (.separator hvalues)
        refine ⟨answer, hanswer, fun more => ?_⟩
        rw [List.cons_append, afterCommand_separator]
        exact hmore more
      · obtain ⟨answer, hanswer, hmore⟩ := exists_afterCommand_flag hplain hseparator
        exact ⟨answer, hanswer, fun more => hmore (rest ++ more)⟩

theorem ne_empty_of_withPath {request answer : Request}
    (h : withPath path request = .ok answer) : path ≠ some "" := by
  unfold withPath at h
  split_ifs at h with hempty
  exact hempty

/-- No answer but an error is given to an empty path. -/
theorem ne_empty_of_afterCommand {answer : Request}
    (h : afterCommand command verbatim path words = .ok answer) : path ≠ some "" := by
  fun_induction afterCommand command verbatim path words with
  | case1 => exact ne_empty_of_withPath h
  | case2 _ _ _ _ _ ih => exact ih h
  | case3 => exact ne_empty_of_withPath h
  | case4 => cases h
  | case5 => cases h
  | case6 => cases h
  | case7 verbatim path word rest _ hpath =>
    intro hempty
    simp [hempty] at hpath

theorem lists_true_iff : Lists true words values ↔ values = words := by
  constructor
  · intro h
    generalize hverbatim : true = verbatim at h
    induction h with
    | nil => rfl
    | value _ _ ih => rw [ih hverbatim]
    | separator => cases hverbatim
  · intro h
    subst h
    induction values with
    | nil => exact .nil
    | cons word rest ih => exact .value (.inl rfl) ih

/-- Without the two dashes all words are plain; with them, those in front of the first two are. -/
theorem lists_false_iff :
    Lists false words values ↔
      ∃ front back, (∀ word ∈ front, Plain word) ∧ values = front ++ back ∧
        (words = front ∧ back = [] ∨ words = front ++ "--" :: back) := by
  constructor
  · intro h
    generalize hverbatim : false = verbatim at h
    induction h with
    | nil => exact ⟨[], [], by simp⟩
    | @value verbatim word words values hword _ ih =>
      subst hverbatim
      obtain ⟨front, back, hfront, rfl, hwords⟩ := ih rfl
      refine ⟨word :: front, back, ?_, rfl, ?_⟩
      · exact List.forall_mem_cons.mpr ⟨hword.resolve_left Bool.false_ne_true, hfront⟩
      · simpa using hwords
    | @separator words values hvalues _ =>
      obtain rfl := lists_true_iff.mp hvalues
      exact ⟨[], values, by simp⟩
  · intro h
    obtain ⟨front, back, hfront, rfl, hwords⟩ := h
    induction front generalizing words with
    | nil =>
      rcases hwords with ⟨rfl, rfl⟩ | rfl
      · exact .nil
      · exact .separator (lists_true_iff.mpr rfl)
    | cons word front ih =>
      obtain ⟨hword, hfront⟩ := List.forall_mem_cons.mp hfront
      rcases hwords with ⟨rfl, rfl⟩ | rfl
      · exact .value (.inr hword) (ih hfront (.inl ⟨rfl, rfl⟩))
      · exact .value (.inr hword) (ih hfront (.inr rfl))

end

/-- The words are plain ones, or plain ones, the two dashes and any words, and the path is all
that they hold besides the dashes. -/
def Names (words : List String) (path : Option String) : Prop :=
  ∃ front back, (∀ word ∈ front, Plain word) ∧
    (words = front ∧ back = [] ∨ words = front ++ "--" :: back) ∧ front ++ back = path.toList

/-- Arguments that ask for no command to be run keep their answer, whatever follows. -/
def Final (arguments : List String) : Prop :=
  (∀ command path, ofArguments arguments ≠ .ok (.run command path)) →
    ∀ more, ofArguments (arguments ++ more) = ofArguments arguments

section
variable {command : Command} {words : List String} {path : Option String}

theorem names_iff : Names words path ↔ Lists false words path.toList := by
  rw [lists_false_iff, Names]
  refine exists_congr fun front => exists_congr fun back => and_congr_right fun _ => ?_
  rw [and_comm, eq_comm]

theorem ofArguments_label (command : Command) (words : List String) :
    ofArguments (command.label :: words) = afterCommand command false none words := by
  cases command <;> rfl

/-- Words that name a path leave it to those that follow, or to the end. -/
theorem exists_ofArguments_append (command : Command) (h : Names words path) :
    ∃ verbatim, ∀ more, ofArguments (command.label :: (words ++ more)) =
      afterCommand command verbatim path more := by
  have hnone : (none : Option String).toList ++ path.toList = path.toList := rfl
  obtain ⟨verbatim, hmore⟩ := exists_afterCommand_append command (names_iff.mp h) hnone
  exact ⟨verbatim, fun more => (ofArguments_label command _).trans (hmore more)⟩

theorem ofArguments_of_names (command : Command) (h : Names words path) :
    ofArguments (command.label :: words) = withPath path (.run command path) := by
  obtain ⟨verbatim, hmore⟩ := exists_ofArguments_append command h
  rw [← List.append_nil words, hmore]
  cases verbatim <;> rfl

/-- Words that name no path keep their answer, and it is no command to run. -/
theorem ne_run_and_append_of_not_names (command : Command) (h : ∀ path, ¬ Names words path) :
    (∀ command' path', ofArguments (command.label :: words) ≠ .ok (.run command' path')) ∧
      ∀ more, ofArguments (command.label :: words ++ more) =
        ofArguments (command.label :: words) := by
  have hnone : ∀ (values : List String) (path : Option String), Lists false words values →
      (none : Option String).toList ++ values ≠ path.toList := by
    intro values path hvalues hpath
    exact h path (names_iff.mpr (hpath ▸ hvalues))
  obtain ⟨answer, hanswer, hmore⟩ := exists_answer command hnone
  have hend : ofArguments (command.label :: words) = answer := by
    rw [ofArguments_label, ← List.append_nil words, hmore]
  rw [hend]
  exact ⟨hanswer, fun more => (ofArguments_label command _).trans (hmore more)⟩

theorem ofArguments_eq_run_iff {command' : Command} :
    ofArguments (command.label :: words) = .ok (.run command' path) ↔
      command' = command ∧ Names words path ∧ path ≠ some "" := by
  constructor
  · intro h
    by_cases hnames : ∃ named, Names words named
    · obtain ⟨named, hnamed⟩ := hnames
      rw [ofArguments_of_names command hnamed, withPath_run_iff] at h
      obtain ⟨rfl, rfl, hne⟩ := h
      exact ⟨rfl, hnamed, hne⟩
    · obtain ⟨hanswer, -⟩ := ne_run_and_append_of_not_names command (not_exists.mp hnames)
      exact absurd h (hanswer command' path)
  · intro h
    obtain ⟨rfl, hnamed, hne⟩ := h
    rw [ofArguments_of_names command' hnamed, withPath_run_iff]
    exact ⟨rfl, rfl, hne⟩

/-- Behind an empty path nothing leads to a command or a help page any more. -/
theorem exists_error_append (command : Command) (h : Names words (some "")) (more : List String) :
    ∃ e, ofArguments (command.label :: words ++ more) = .error e := by
  obtain ⟨verbatim, hmore⟩ := exists_ofArguments_append command h
  rw [List.cons_append, hmore]
  cases hanswer : afterCommand command verbatim (some "") more with
  | error e => exact ⟨e, rfl⟩
  | ok answer => exact absurd rfl (ne_empty_of_afterCommand hanswer)

end

/-- A command is run exactly if the words behind it name a path, none or one that is not empty, and
it is run on that path. Any other answer is final, with one exception: an empty path that is
refused because nothing follows it. More words never lead from there to a command or a help page,
but one of them may be refused in its place. -/
theorem ofArguments_eq_run_iff_and_final (command : Command) (words : List String) :
    (∀ command' path, ofArguments (command.label :: words) = .ok (.run command' path) ↔
      command' = command ∧ Names words path ∧ path ≠ some "") ∧
    (¬ Names words (some "") → Final (command.label :: words)) ∧
    (Names words (some "") → ofArguments (command.label :: words) = .error .emptyPath ∧
      ∀ more, ∃ e, ofArguments (command.label :: words ++ more) = .error e) := by
  refine ⟨fun _ _ => ofArguments_eq_run_iff, ?_, ?_⟩
  · intro hempty hother
    refine (ne_run_and_append_of_not_names command ?_).2
    intro path hnamed
    have hne : path ≠ some "" := fun h => hempty (h ▸ hnamed)
    exact hother command path (ofArguments_eq_run_iff.mpr ⟨rfl, hnamed, hne⟩)
  · intro hempty
    exact ⟨ofArguments_of_names command hempty, exists_error_append command hempty⟩

/-- A word behind the two dashes may look like a flag; if it is empty, it is refused like any empty
path. -/
theorem final_help_and_empty_behind_separator :
    ofArguments ["dfs", "--", "--help"] = .ok (.run .dfs (some "--help")) ∧
      ¬ Names ["--help"] (some "") ∧ Final ["dfs", "--help"] ∧
      Names ["--", ""] (some "") ∧ ofArguments ["dfs", "--", ""] = .error .emptyPath ∧
      ∀ more, ∃ e, ofArguments (["dfs", "--", ""] ++ more) = .error e := by
  have hnames : Names ["--", "--help"] (some "--help") := ⟨[], ["--help"], by simp⟩
  have hempty : Names ["--", ""] (some "") := ⟨[], [""], by simp⟩
  have hpage : ofArguments ["dfs", "--help"] = .ok (.help (HelpPage.ofCommand .dfs)) := rfl
  have hhelp : ¬ Names ["--help"] (some "") := by
    intro h
    have hrefused := hpage.symm.trans (ofArguments_of_names .dfs h)
    simp [withPath] at hrefused
  obtain ⟨hrun, -, -⟩ := ofArguments_eq_run_iff_and_final .dfs ["--", "--help"]
  obtain ⟨-, hfinal, -⟩ := ofArguments_eq_run_iff_and_final .dfs ["--help"]
  obtain ⟨-, -, hrefused⟩ := ofArguments_eq_run_iff_and_final .dfs ["--", ""]
  exact ⟨(hrun .dfs (some "--help")).mpr ⟨rfl, hnames, by simp⟩, hhelp, hfinal hhelp, hempty,
    hrefused hempty⟩

/-- An empty path does not come first if a second one follows. -/
theorem not_final_empty_path : ¬ Final ["dfs", ""] := by
  intro h
  have hanswer : ofArguments ["dfs", ""] = .error .emptyPath := rfl
  have hmore : ofArguments ["dfs", "", "b"] = .error .unexpectedArgument := rfl
  have hsame := h (by simp [hanswer]) ["b"]
  rw [List.cons_append, List.cons_append, List.nil_append, hanswer, hmore] at hsame
  cases hsame

end Request

end ClassicAlgorithms
