import ClassicAlgorithms.Proofs.Text.Numeral
import ClassicAlgorithms.Proofs.Text.Trimming
import ClassicAlgorithms.RunProfile
import Mathlib.Data.List.Nodup

/-!
# What the environment can change in a run profile

A variable overrides a default if its text, without the blanks around it, is one of the ways
to write a value. Any other text is reported once and leaves the default as it is. Both
variables go through one and the same override, each with what its own texts mean, so a
profile is known from what is known of a single override.
-/
namespace ClassicAlgorithms

namespace RunProfile

/-- Without the blanks around it, the text is a numeral of a count from 1 on that fits into
32 bits. -/
def Counts (raw : String) (cases : ℕ) : Prop :=
  (1 ≤ cases ∧ cases < UInt32.size) ∧
    ∃ word, Text.Trims raw.toList word ∧ Text.Numeral cases word

/-- Without the blanks around it, the text is a word for `on`, in letters of either case. -/
def Switches (raw : String) (on : Bool) : Prop :=
  ∃ word, Text.Trims raw.toList word ∧
    String.ofList (word.map Char.toLower) ∈ if on then onWords else offWords

/-- The variable `name` is set to `raw`, and this is nothing that the variable can be set to. -/
def Rejected (lookup : String → Option String) (name raw : String) : Prop :=
  lookup name = some raw ∧
    ((name = casesVariable ∧ ∀ cases, ¬ Counts raw cases) ∨
      (name = forkVariable ∧ ∀ on, ¬ Switches raw on))

@[simp] theorem env_warning (name raw : String) (reason : Rejection) :
    (warning name raw reason).fields.get? "env" = some name := rfl

section
variable {α : Type} {Means : String → α → Prop} {read : String → Except Rejection α}

end

section
variable (defaults : RunProfile) (lookup : String → Option String)

end

/-- The largest count is taken, with a sign, leading zeros and blanks around it. -/
example : readCases "\t+0004294967295 " = .ok 4294967295 := by decide +kernel

/-- One more is too large. -/
example : readCases "4294967296" = .error .notACaseCount := by decide +kernel

end RunProfile

end ClassicAlgorithms
