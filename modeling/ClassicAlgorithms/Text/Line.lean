/-!
# Lines

A line ends at a line feed, and one carriage return directly before it belongs
to the ending. Other carriage returns are text, also at the end of a last line
without line feed. What follows the last line feed is a line only if it is not
empty.
-/
namespace ClassicAlgorithms.Text

/-- Removes the carriage return at the front of a reversed line. -/
def dropReturn : List Char → List Char
  | '\r' :: line => line
  | line => line

/-- The lines of a text; `line` holds the characters of the current one, last
first. -/
def linesFrom (line : List Char) : List Char → List (List Char)
  | [] => if line.isEmpty then [] else [line.reverse]
  | '\n' :: rest => (dropReturn line).reverse :: linesFrom [] rest
  | c :: rest => linesFrom (c :: line) rest

def lines (text : List Char) : List (List Char) := linesFrom [] text

end ClassicAlgorithms.Text
