import ClassicAlgorithms.CommandLine.ValuePattern
import ClassicAlgorithms.Observation.Journal
import ClassicAlgorithms.Text.Numeral
import ClassicAlgorithms.Text.Offset
import ClassicAlgorithms.Text.Split

/-!
# Log directives

A directive names a level, a target or both, `target=level`; a scope in square
brackets narrows it to a span or, in braces, to events with a certain field.

Its form is judged without the blanks around it, but its words are cut from the
whole text by the offsets found in this way. So blanks behind a directive belong
to its last word, and blanks in front shift every word to the left by their
bytes, which may end in the middle of a character.
-/
namespace ClassicAlgorithms

/-- A condition on the fields of an event. -/
structure FieldCondition where
  name : List Char
  /-- Whether a value is asked for as well. -/
  hasValue : Bool
deriving DecidableEq

structure LogDirective where
  /-- Applies to the targets that begin with this; all of them if it is empty. -/
  target : List Char
  inSpan : Bool
  field : Option FieldCondition
  /-- The most detailed level that is shown; `none` shows nothing. -/
  level : Option Level
deriving DecidableEq

inductive DirectiveError where
  | malformed
  /-- A word would begin or end inside a character. -/
  | brokenCharacter
deriving DecidableEq

namespace LogDirective

/-- Shows everything everywhere. -/
def all : LogDirective := ⟨[], false, none, some .trace⟩

/-- The levels by number. -/
def numberedLevels : List (Option Level) :=
  [none, some .error, some .warn, some .info, some .debug, some .trace]

/-- The levels by name, in lower case. -/
def namedLevels : List (List Char × Option Level) :=
  [("off".toList, none), ("error".toList, some .error), ("warn".toList, some .warn),
    ("info".toList, some .info), ("debug".toList, some .debug), ("trace".toList, some .trace)]

/-- A level by its number or by its name in any ASCII case. -/
def readLevel? (text : List Char) : Option (Option Level) :=
  match Text.readNumeral UInt64.size text with
  | .ok number => numberedLevels[number]?
  | .error _ => namedLevels.lookup (text.map Char.toLower)

/-- Reads what follows the equals sign; nothing at all leaves every level on. -/
def withLevel (d : LogDirective) (text : List Char) : Except DirectiveError LogDirective :=
  if text.isEmpty then .ok d
  else match readLevel? text with
    | some level => .ok { d with level }
    | none => .error .malformed

/-- A directive of a single word, which is a level if it can be one. -/
def ofWord (word : List Char) : LogDirective :=
  match readLevel? word with
  | some level => { all with level }
  | none => { all with target := word }

/-- Drops the sign that a number may have. -/
def unsigned : List Char → List Char
  | '+' :: rest | '-' :: rest => rest
  | rest => rest

/-- Whether a text is the exponent of a decimal number, or empty. -/
def isExponent : List Char → Bool
  | [] => true
  | mark :: rest =>
    (mark = 'e' || mark = 'E') && !(unsigned rest).isEmpty && (unsigned rest).all Char.isDigit

/-- Whether a text is a decimal number, with or without a sign, a fraction and an
exponent, or stands for an infinity or for no number. -/
def isDecimal (text : List Char) : Bool :=
  let size := unsigned text
  let whole := size.takeWhile Char.isDigit
  let (fraction, exponent) := match size.drop whole.length with
    | '.' :: rest => (rest.takeWhile Char.isDigit, rest.dropWhile Char.isDigit)
    | rest => ([], rest)
  (whole ++ fraction ≠ [] && isExponent exponent)
    || ["inf".toList, "infinity".toList, "nan".toList].contains (size.map Char.toLower)

/-- A field name, with or without a value, which is a number or a pattern. What
follows a second equals sign does not count. -/
def readField (text : List Char) : Except DirectiveError FieldCondition :=
  match Text.split '=' text with
  | name :: value :: _ =>
    if isDecimal value || ValuePattern.isValid value then .ok ⟨name, true⟩
    else .error .malformed
  | _ => .ok ⟨text, false⟩

/-- What the next character belongs to; `first` is the offset of its word. -/
inductive Stage where
  | start
  /-- A target or a level. -/
  | word
  | level (first : Nat)
  | span (first : Nat)
  | field (first : Nat)
  | afterField
  | afterScope
deriving DecidableEq

/-- Whether a target or a level may begin with `c`. -/
def isOpening (c : Char) : Bool := ['-', ':', '_'].contains c || Text.isLetterOrNumber c

def cut (text : List Char) (first last : Nat) : Except DirectiveError (List Char) :=
  match Text.between? first last text with
  | some word => .ok word
  | none => .error .brokenCharacter

/-- Takes the character at an offset. -/
def step (text : List Char) (d : LogDirective) (stage : Stage) (offset : Nat) (c : Char) :
    Except DirectiveError (LogDirective × Stage) := do
  match stage with
  | .start =>
    if c = '[' then return (d, .span (offset + 1))
    else if isOpening c then return (d, .word)
    else throw .malformed
  | .word =>
    if c = '=' then return ({ d with target := ← cut text 0 offset }, .level (offset + 1))
    else if c = '[' then return ({ d with target := ← cut text 0 offset }, .span (offset + 1))
    else return (d, .word)
  | .level first => return (d, .level first)
  | .span first =>
    if c = ']' then
      let _ ← cut text first offset
      return ({ d with inSpan := true }, .afterScope)
    else if c = '\x7b' then
      let name ← cut text first offset
      return ({ d with inSpan := !name.isEmpty }, .field (offset + 1))
    else return (d, .span first)
  | .field first =>
    if c = '\x7d' then
      let word ← cut text first offset
      if word.isEmpty then throw .malformed
      return ({ d with field := some (← readField word) }, .afterField)
    else return (d, .field first)
  | .afterField => if c = ']' then return (d, .afterScope) else throw .malformed
  | .afterScope => if c = '=' then return (d, .level (offset + 1)) else throw .malformed

/-- Takes the last word. -/
def finish (text : List Char) (d : LogDirective) : Stage → Except DirectiveError LogDirective
  | .word => .ok (ofWord text)
  | .level first => do d.withLevel (← cut text first (Text.byteLength text))
  | .afterScope => .ok d
  | _ => .error .malformed

/-- Reads the characters from an offset on. -/
def readFrom (text : List Char) (d : LogDirective) (stage : Stage) (offset : Nat) :
    List Char → Except DirectiveError LogDirective
  | [] => finish text d stage
  | c :: rest => do
    let (d, stage) ← step text d stage offset c
    readFrom text d stage (offset + c.utf8Size) rest

def read (text : List Char) : Except DirectiveError LogDirective :=
  readFrom text all .start 0 (Text.trim text)

/-- Whether the directive speaks of events with this target and these fields that
lie in no span. A condition on a value is checked only for spans. -/
def applies (d : LogDirective) (target : String) (fields : List String) : Bool :=
  !d.inSpan && d.target.isPrefixOf target.toList &&
    match d.field with
    | none => true
    | some field => !field.hasValue && fields.contains (String.ofList field.name)

/-- Whether the first directive is at least as specific as the second: a longer
target, or the same and a field. Between two fields the later name decides. -/
def refines (d other : LogDirective) : Bool :=
  other.target.length < d.target.length ||
    other.target.length = d.target.length && match d.field, other.field with
      | _, none => true
      | none, some _ => false
      | some field, some otherField => !List.lex field.name otherField.name fun a b => a < b

end LogDirective

end ClassicAlgorithms
