import ClassicAlgorithms.CommandLine.Command

/-!
# Reading the arguments

The first word chooses a command, a help page or an error. After a command the
words are read from left to right, and the first problem or help flag decides;
what follows it is not looked at. An empty path is a problem only where the path
is needed, which is at the end of the words or at a help flag. A single dash is
an ordinary word, and after `--` every word is.
-/
namespace ClassicAlgorithms

inductive ArgumentError where
  /-- There are no words at all. -/
  | missingCommand
  | unknownCommand
  /-- A flag that does not exist, a second path, or a command behind `--`. -/
  | unexpectedArgument
  /-- A value for a flag that takes none. -/
  | unneededValue
  | emptyPath
deriving DecidableEq

/-- What is said of the arguments on standard error. -/
def ArgumentError.message : ArgumentError → String
  | .missingCommand => HelpPage.overview
  | .unknownCommand => "error: unrecognized subcommand\n"
  | .unexpectedArgument => "error: unexpected argument\n"
  | .unneededValue => "error: unexpected value for a flag\n"
  | .emptyPath => "error: the path must not be empty\n"

/-- What a valid list of arguments asks for. -/
inductive Request where
  | run (command : Command) (path : Option String)
  | help (page : String)
deriving DecidableEq

/-- What a word says by its form. -/
inductive WordForm where
  /-- The two dashes that make all further words ordinary. -/
  | separator
  | helpFlag
  /-- The help flag with a value attached to it. -/
  | helpFlagWithValue
  | unknownFlag
  | ordinary
deriving DecidableEq

/-- Short flags may be joined behind one dash and are read one by one, so only
the first of them counts here: it either asks for help or does not exist. -/
def WordForm.of (word : String) : WordForm :=
  match word.toList with
  | ['-', '-'] => separator
  | '-' :: '-' :: flag =>
    if flag = "help".toList then helpFlag
    else if "help=".toList.isPrefixOf flag then helpFlagWithValue
    else unknownFlag
  | '-' :: 'h' :: _ => helpFlag
  | '-' :: _ :: _ => unknownFlag
  | _ => ordinary

namespace Request

/-- A path that is given must not be empty. -/
def withPath (path : Option String) (request : Request) : Except ArgumentError Request :=
  if path = some "" then .error .emptyPath else .ok request

/-- Reads the words after a command. `verbatim` is set behind `--`, and `path`
is the path read so far. -/
def afterCommand (command : Command) : (verbatim : Bool) → (path : Option String) →
    List String → Except ArgumentError Request
  | _, path, [] => withPath path (.run command path)
  | verbatim, path, word :: rest =>
    match if verbatim then .ordinary else WordForm.of word with
    | .separator => afterCommand command true path rest
    | .helpFlag => withPath path (.help (HelpPage.ofCommand command))
    | .helpFlagWithValue => .error .unneededValue
    | .unknownFlag => .error .unexpectedArgument
    | .ordinary =>
      if path.isSome then .error .unexpectedArgument
      else afterCommand command verbatim (some word) rest

/-- Reads the words after `help`. Commands have no commands of their own, so a
second name is never known. -/
def afterHelp : List String → Except ArgumentError Request
  | [] => .ok (.help HelpPage.overview)
  | [name] =>
    if name == "help" then .ok (.help HelpPage.ofHelp)
    else match Command.named? name with
      | some command => .ok (.help (HelpPage.ofCommand command))
      | none => .error .unknownCommand
  | _ => .error .unknownCommand

/-- Reads the words after a `--` that stands before any command. Commands are not
looked for there; one that is found all the same is out of place. -/
def afterSeparator : List String → Except ArgumentError Request
  | [] => .error .missingCommand
  | word :: _ =>
    if word == "help" || (Command.named? word).isSome then .error .unexpectedArgument
    else .error .unknownCommand

def ofArguments : List String → Except ArgumentError Request
  | [] => .error .missingCommand
  | word :: rest =>
    match WordForm.of word with
    | .separator => afterSeparator rest
    | .helpFlag => .ok (.help HelpPage.overview)
    | .helpFlagWithValue => .error .unneededValue
    | .unknownFlag => .error .unexpectedArgument
    | .ordinary =>
      if word == "help" then afterHelp rest
      else match Command.named? word with
        | some command => afterCommand command false none rest
        | none => .error .unknownCommand

end Request

end ClassicAlgorithms
