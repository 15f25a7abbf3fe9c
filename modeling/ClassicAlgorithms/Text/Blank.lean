/-!
# Blanks, tokens and folding

A blank is a character with the Unicode property `White_Space`. Tokens are the
maximal runs of other characters; blanks only separate them. Folding to lower
case touches the ASCII letters alone.
-/
namespace ClassicAlgorithms.Text

/-- The code points with the property `White_Space`, as closed ranges. -/
def blankRanges : List (Nat × Nat) :=
  [(0x09, 0x0D), (0x20, 0x20), (0x85, 0x85), (0xA0, 0xA0), (0x1680, 0x1680),
    (0x2000, 0x200A), (0x2028, 0x2029), (0x202F, 0x202F), (0x205F, 0x205F), (0x3000, 0x3000)]

def isBlank (c : Char) : Bool :=
  blankRanges.any fun (first, last) => first ≤ c.toNat && c.toNat ≤ last

/-- The tokens of a text; `word` holds the characters of the current one, last
first. -/
def tokensFrom (word : List Char) : List Char → List (List Char)
  | [] => if word.isEmpty then [] else [word.reverse]
  | c :: rest =>
    if isBlank c then
      if word.isEmpty then tokensFrom [] rest else word.reverse :: tokensFrom [] rest
    else tokensFrom (c :: word) rest

def tokens (text : List Char) : List (List Char) := tokensFrom [] text

/-- Removes the blanks at both ends. -/
def trim (text : List Char) : List Char :=
  ((text.dropWhile isBlank).reverse.dropWhile isBlank).reverse

/-- Trims and folds the letters `A` to `Z`. -/
def normalise (text : List Char) : List Char := (trim text).map Char.toLower

end ClassicAlgorithms.Text
