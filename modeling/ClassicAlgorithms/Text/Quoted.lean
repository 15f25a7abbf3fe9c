import ClassicAlgorithms.Text.Unprintable
import ClassicAlgorithms.Text.Utf8

/-!
# Quoted text

Text between double quotes in which every character can be told apart: double
quotes and backslashes are escaped, the common controls have a letter, and
characters without a form of their own are written by number. Bytes that are no
UTF-8 are written in hexadecimal. Single quotes end nothing here and stay as
they are.
-/
namespace ClassicAlgorithms.Text

def hexDigits (n : Nat) : List Char := Nat.toDigits 16 n

def escape (c : Char) : List Char :=
  if c = '\x00' then ['\\', '0']
  else if c = '\t' then ['\\', 't']
  else if c = '\n' then ['\\', 'n']
  else if c = '\r' then ['\\', 'r']
  else if c = '\\' ∨ c = '\x22' then ['\\', c]
  else if isUnprintable c then ['\\', 'u', '\x7b'] ++ hexDigits c.toNat ++ ['\x7d']
  else [c]

/-- A byte of a broken piece, always with two digits. -/
def escapeByte (b : UInt8) : List Char :=
  let digits := (hexDigits b.toNat).map Char.toUpper
  ['\\', 'x'] ++ List.replicate (2 - digits.length) '0' ++ digits

def quote (text : String) : String :=
  String.ofList (['\x22'] ++ text.toList.flatMap escape ++ ['\x22'])

/-- A name from outside, which may be no text at all. -/
def quoteBytes (bytes : List UInt8) : String :=
  let inner := (utf8Pieces bytes).flatMap fun
    | .char c => escape c
    | .broken bytes => bytes.flatMap escapeByte
  String.ofList (['\x22'] ++ inner ++ ['\x22'])

end ClassicAlgorithms.Text
