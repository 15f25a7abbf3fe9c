/-!
# Decimal numerals

An unsigned numeral is an optional plus sign and one or more ASCII digits with a
value below a limit. Characters are judged from left to right and the first
problem decides; at one position "not a digit" comes before "too large".
-/
namespace ClassicAlgorithms.Text

inductive NumeralError where
  | invalidDigit
  | tooLarge
deriving DecidableEq

def NumeralError.message : NumeralError → String
  | .invalidDigit => "invalid digit found in string"
  | .tooLarge => "number too large to fit in target type"

def digitValue (c : Char) : Nat := c.toNat - '0'.toNat

/-- Appends digits to the number `value` read so far. -/
def readDigits (limit : Nat) : (value : Nat) → List Char → Except NumeralError Nat
  | value, [] => .ok value
  | value, c :: rest =>
    if c.isDigit then
      let next := value * 10 + digitValue c
      if next < limit then readDigits limit next rest else .error .tooLarge
    else .error .invalidDigit

/-- Drops the sign that a numeral may have. -/
def unsigned : List Char → List Char
  | '+' :: digits => digits
  | digits => digits

/-- The value of a numeral below `limit`. A sign without digits is no numeral. -/
def readNumeral (limit : Nat) (text : List Char) : Except NumeralError Nat :=
  match unsigned text with
  | [] => .error .invalidDigit
  | digits => readDigits limit 0 digits

end ClassicAlgorithms.Text
