/-!
# Splitting at a separator

The pieces between the separators of a text, empty ones included, so that a text
with `n` separators has `n + 1` pieces.
-/
namespace ClassicAlgorithms.Text

/-- The pieces of a text; `piece` holds the characters of the current one, last
first. -/
def splitFrom (separator : Char) (piece : List Char) : List Char → List (List Char)
  | [] => [piece.reverse]
  | c :: rest =>
    if c = separator then piece.reverse :: splitFrom separator [] rest
    else splitFrom separator (c :: piece) rest

def split (separator : Char) (text : List Char) : List (List Char) := splitFrom separator [] text

theorem splitFrom_eq_splitOnPPrepend (separator : Char) (piece text : List Char) :
    splitFrom separator piece text = text.splitOnPPrepend (· == separator) piece := by
  fun_induction splitFrom separator piece text with
  | case1 => simp
  | case2 _ _ ih => simp [List.splitOnPPrepend_cons_eq_if, ih]
  | case3 _ c rest h ih => simp [List.splitOnPPrepend_cons_eq_if, ih, h]

theorem split_eq_splitOn (separator : Char) (text : List Char) :
    split separator text = text.splitOn separator :=
  splitFrom_eq_splitOnPPrepend separator [] text

end ClassicAlgorithms.Text
