import ClassicAlgorithms.Observation.Journal
import ClassicAlgorithms.Text.Blank
import ClassicAlgorithms.Text.Numeral

/-!
# Run profiles of property tests

How many cases to run and whether to run them in processes of their own. Both
have defaults that an environment variable may override; a value that does not
make sense is reported and ignored. The two variables do not influence each
other.
-/
namespace ClassicAlgorithms

structure RunProfile where
  cases : Nat
  fork : Bool
deriving DecidableEq

namespace RunProfile

def casesVariable : String := "PROGTEST_CASES"

def forkVariable : String := "ALGOKIT_PBT_FORK"

/-- Case counts are 32-bit. -/
def casesLimit : Nat := UInt32.size

/-- Why an override was ignored. -/
inductive Rejection where
  | zeroCases
  | notACaseCount
  | notASwitch
deriving DecidableEq

def Rejection.message : Rejection → String
  | .zeroCases => "cases must be > 0"
  | .notACaseCount => "cases must be a positive integer"
  | .notASwitch => "expected one of: true/false/1/0/yes/no/on/off"

def readCases (raw : String) : Except Rejection Nat :=
  match Text.readNumeral casesLimit (Text.trim raw.toList) with
  | .ok 0 => .error .zeroCases
  | .ok cases => .ok cases
  | .error _ => .error .notACaseCount

/-- The words that switch something on, in lower case. -/
def onWords : List String := ["1", "true", "yes", "on"]

/-- The words that switch something off, in lower case. -/
def offWords : List String := ["0", "false", "no", "off"]

def readSwitch (raw : String) : Except Rejection Bool :=
  let word := String.ofList (Text.normalise raw.toList)
  if onWords.contains word then .ok true
  else if offWords.contains word then .ok false
  else .error .notASwitch

def target : String := "algokit_test_support::ci::property_test_profile"

def warning (name raw : String) (reason : Rejection) : EventRecord :=
  .withMessage .warn target "invalid property-test profile override; using default"
    [("env", name), ("raw", raw), ("reason", reason.message)]

/-- The value of one variable, or the default with a warning if it was set to
something else. -/
def override (name : String) (raw : Option String) (default : α)
    (read : String → Except Rejection α) : α × List EventRecord :=
  match raw with
  | none => (default, [])
  | some raw =>
    match read raw with
    | .ok value => (value, [])
    | .error reason => (default, [warning name raw reason])

/-- The profile that the environment asks for, with the warnings in the order
cases, fork. -/
def load (defaults : RunProfile) (lookup : String → Option String) :
    RunProfile × List EventRecord :=
  let (cases, casesWarnings) :=
    override casesVariable (lookup casesVariable) defaults.cases readCases
  let (fork, forkWarnings) := override forkVariable (lookup forkVariable) defaults.fork readSwitch
  (⟨cases, fork⟩, casesWarnings ++ forkWarnings)

end RunProfile

end ClassicAlgorithms
