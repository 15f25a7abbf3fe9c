import ClassicAlgorithms.CommandLine.Arguments
import ClassicAlgorithms.CommandLine.LogFilter
import ClassicAlgorithms.CommandLine.LogFormat
import ClassicAlgorithms.CommandLine.Run

/-!
# The program as a whole

Logging is set up first, its format before its filter, then the arguments are
read, then the command runs, and the first of these that goes wrong decides.
`Program.plan` does what can be done without reading any input; `Program.conclude`
does the rest. Standard output carries a whole report or nothing.

The program only uses what is made of a log filter and of its arguments. Making
it is left to parsers, which can be any; `Parsers.builtIn` are the ones it has.
-/
namespace ClassicAlgorithms

/-- The last event of a run that failed. -/
structure FailureEvent where
  error : String
  code : String
deriving DecidableEq

structure Outcome where
  exitCode : Nat
  stdout : String
  /-- What the person at the terminal is told besides. -/
  stderr : String
  /-- Why logging could not be set up. -/
  initError : Option String
  /-- The failure event, if the log shows it in a form that can be read back. -/
  failure : Option FailureEvent
deriving DecidableEq

/-- What the program starts from. The arguments are texts here, so words that are no
UTF-8 cannot be stated; a program may be given such words, and take one for a path. -/
structure Setting where
  arguments : List String
  /-- The variable that chooses the log format. -/
  logFormat : Option ByteArray
  /-- The variable that filters the log. Bytes that are no UTF-8 have the same effect as
  no variable, and are none here. -/
  logFilter : Option String
  read : Reader

/-- How log filters and arguments are understood. -/
structure Parsers (Filter : Type) where
  /-- Reads a filter. Besides refusing a text, a parser may break down over it. -/
  filter : String → Except DirectiveError Filter
  /-- The filter that holds if none is given. -/
  fallback : Filter
  /-- Whether a filter lets through an error with this target and these fields that is
  reported outside all spans. -/
  showsError : Filter → (target : String) → (fields : List String) → Bool
  arguments : List String → Except ArgumentError Request

namespace Parsers

variable {Filter : Type}

def builtIn : Parsers LogFilter where
  filter := LogFilter.read
  fallback := .standard
  showsError := LogFilter.showsError
  arguments := Request.ofArguments

/-- The filter that a variable asks for. A text that is refused counts as none, but with
a parser that breaks down the program cannot go on. -/
def filterFor (p : Parsers Filter) : Option String → Option Filter
  | none => some p.fallback
  | some text =>
    match p.filter text with
    | .ok filter => some filter
    | .error .malformed => some p.fallback
    | .error .brokenCharacter => none

end Parsers

/-- What is left to do before any input is read. -/
inductive Plan (Filter : Type) where
  | done (outcome : Outcome)
  | run (format : LogFormat) (filter : Filter) (command : Command) (source : InputSource)
deriving DecidableEq

namespace Program

variable {Filter : Type}

/-- An outcome that leaves nothing in the log. -/
def quiet (exitCode : Nat) (stdout stderr : String) : Outcome :=
  ⟨exitCode, stdout, stderr, none, none⟩

/-- The outcome of a program that could not set up its log. -/
def unlogged (e : LogError) : Outcome :=
  let text := s!"failed to initialise logging: {e.message}"
  ⟨1, "", text ++ "\n", some text, none⟩

/-- The outcome of a program that breaks down over its log filter. -/
def brokenDown : Outcome := quiet 101 "" "the log filter breaks its parser\n"

def plan (p : Parsers Filter) (logFormat : Option ByteArray) (logFilter : Option String)
    (arguments : List String) : Plan Filter :=
  match LogFormat.ofVariable logFormat with
  | .error e => .done (unlogged e)
  | .ok format =>
    match p.filterFor logFilter with
    | none => .done brokenDown
    | some filter =>
      match p.arguments arguments with
      | .error e => .done (quiet 2 "" e.message)
      | .ok (.help page) => .done (quiet 0 page "")
      | .ok (.run command path) => .run format filter command (.ofPath path)

/-- Where a failure is reported, for the log filter. -/
def failureTarget : String := "algokit"

/-- The fields of the report. -/
def failureFields : List String := ["message", "error", "code"]

def failureEvent (e : CommandError) : FailureEvent :=
  ⟨": ".intercalate ("failed to execute command" :: e.chain), e.code⟩

/-- Turns the result of a command into the outcome of the program. -/
def conclude (p : Parsers Filter) (format : LogFormat) (filter : Filter) :
    Except CommandError Report → Outcome
  | .ok report => quiet 0 report.render ""
  | .error e =>
    let event := failureEvent e
    if !p.showsError filter failureTarget failureFields then quiet 1 "" ""
    else ⟨1, "", s!"{event.error} [{event.code}]\n", none,
      if format = .json then some event else none⟩

/-- The program with any parsers. -/
def runWith [Memory] (p : Parsers Filter) (s : Setting) : Outcome :=
  match plan p s.logFormat s.logFilter s.arguments with
  | .done outcome => outcome
  | .run format filter command source =>
    conclude p format filter (command.run s.read source).outcome

def run [Memory] (s : Setting) : Outcome := runWith .builtIn s

end Program

end ClassicAlgorithms
