import ClassicAlgorithms.CommandLine.Source
import ClassicAlgorithms.Graph.Basic
import ClassicAlgorithms.Input.Error

/-!
# Failures of a command

A command fails because its input cannot be read, is malformed, or describes no
graph. The chain of a failure is its message followed by the messages of the
causes that it wraps.
-/
namespace ClassicAlgorithms

/-- Why an input cannot be read. -/
inductive ReadFault where
  | notFound
  | isDirectory
  | notUtf8
  /-- Anything else, in the words of the operating system. -/
  | other (text : String)
deriving DecidableEq

def ReadFault.message : ReadFault → String
  | .notFound => "No such file or directory (os error 2)"
  | .isDirectory => "Is a directory (os error 21)"
  | .notUtf8 => "stream did not contain valid UTF-8"
  | .other text => text

inductive CommandError where
  | unreadable (source : InputSource) (cause : ReadFault)
  | input (error : InputError)
  | graph (error : GraphError)
deriving DecidableEq

namespace CommandError

/-- Stable symbolic name of the cause. -/
def code : CommandError → String
  | unreadable _ _ => "CLI_IO"
  | input error => error.code
  | graph error => error.code

def message : CommandError → String
  | unreadable source cause => s!"failed to read {source.display}: {cause.message}"
  | input error => error.message
  | graph error => error.message

/-- The messages of the causes below the failure itself. -/
def causes : CommandError → List String
  | unreadable _ cause => [cause.message]
  | input (.invalidInteger _ _ reason) => [reason.message]
  | _ => []

def chain (e : CommandError) : List String := e.message :: e.causes

end CommandError

end ClassicAlgorithms
