import ClassicAlgorithms.Input.Error
import ClassicAlgorithms.Text.Line

/-!
# Pairs of texts

The first two lines of an input. Lines after the second are ignored.
-/
namespace ClassicAlgorithms

structure TextPair where
  source : String
  target : String
deriving DecidableEq

namespace TextPair

def ofLines : List (List Char) → Except InputError TextPair
  | [] => .error (.missingLine 0)
  | [_] => .error (.missingLine 1)
  | source :: target :: _ => .ok ⟨String.ofList source, String.ofList target⟩

def parse (text : String) : Except InputError TextPair :=
  ofLines (Text.lines text.toList)

end TextPair

end ClassicAlgorithms
