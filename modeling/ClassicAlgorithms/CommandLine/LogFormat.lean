import ClassicAlgorithms.Text.Blank
import ClassicAlgorithms.Text.Quoted

/-!
# Setting up the log

The format comes from an environment variable, whose value need not even be
text. Setting up succeeds once: after that the variable is not looked at again,
while a failure leaves everything as it was.
-/
namespace ClassicAlgorithms

inductive LogFormat where
  | human
  | json
deriving DecidableEq

inductive LogError where
  /-- The variable holds bytes that are no UTF-8. -/
  | invalidUnicode (value : List UInt8)
  /-- The variable names no format; `provided` is its normalised value. -/
  | unsupportedFormat (provided : String)
deriving DecidableEq

namespace LogFormat

def variableName : String := "ALGOKIT_LOG_FORMAT"

/-- The variable that filters the log. -/
def filterVariable : String := "RUST_LOG"

def name : LogFormat → String
  | human => "Human"
  | json => "Json"

/-- The format that a value names, blanks around it and ASCII case aside. -/
def parse (raw : String) : Except LogError LogFormat :=
  let word := String.ofList (Text.normalise raw.toList)
  if word == "human" then .ok human
  else if word == "json" then .ok json
  else .error (.unsupportedFormat word)

/-- The format that the variable asks for, which is `human` if it is not set. -/
def ofVariable : Option ByteArray → Except LogError LogFormat
  | none => .ok human
  | some bytes =>
    match String.fromUTF8? bytes with
    | some raw => parse raw
    | none => .error (.invalidUnicode bytes.toList)

end LogFormat

def LogError.message : LogError → String
  | .invalidUnicode value =>
    s!"environment variable `{LogFormat.variableName}` contained invalid UTF-8: " ++
      s!"environment variable was not valid unicode: {Text.quoteBytes value}"
  | .unsupportedFormat provided =>
    s!"unsupported log format `{provided}`; expected `human` or `json`"

/-- The format in use, once there is one. -/
structure Logging where
  format : Option LogFormat
deriving DecidableEq

namespace Logging

def untouched : Logging := ⟨none⟩

/-- Sets up logging unless that was done before. -/
def init (l : Logging) (value : Option ByteArray) : Logging × Except LogError Unit :=
  match l.format with
  | some _ => (l, .ok ())
  | none =>
    match LogFormat.ofVariable value with
    | .ok format => (⟨some format⟩, .ok ())
    | .error e => (l, .error e)

end Logging

end ClassicAlgorithms
