import ClassicAlgorithms.Text.Quoted
import ClassicAlgorithms.Text.Split

/-!
# Where a command reads from

A path names standard input when it is absent or the same path as a single dash.
Paths are the same when they have the same parts: empty segments and single dots
after the first segment are no parts, so a dash with slashes behind it still
names standard input, while a dash with a dot and a slash before it is a file.
Any other path is a file and keeps its text.
-/
namespace ClassicAlgorithms

/-- What counts of a path when paths are compared. -/
inductive PathPart where
  /-- The slash that a path begins with. -/
  | root
  /-- A single dot as the first segment. -/
  | here
  | parent
  | name (text : List Char)
deriving DecidableEq

namespace PathPart

/-- The part that a segment makes, if it makes one. -/
def ofSegment? : List Char → Option PathPart
  | [] => none
  | ['.'] => none
  | ['.', '.'] => some parent
  | text => some (name text)

/-- An empty segment in front of another is there because of a slash at the
front of the path. -/
def ofSegments : List (List Char) → List PathPart
  | [] :: next :: rest => root :: (next :: rest).filterMap ofSegment?
  | ['.'] :: rest => here :: rest.filterMap ofSegment?
  | segments => segments.filterMap ofSegment?

end PathPart

inductive InputSource where
  | stdin
  | file (path : String)
deriving DecidableEq

namespace InputSource

/-- What stands between the slashes of a path. -/
def segments (path : List Char) : List (List Char) := Text.split '/' path

/-- What counts of a path. -/
def parts (path : List Char) : List PathPart :=
  PathPart.ofSegments (segments path)

/-- Whether a path is the path `-`. -/
def isDash (path : String) : Bool := parts path.toList == parts ['-']

def ofPath : Option String → InputSource
  | none => .stdin
  | some path => if isDash path then .stdin else .file path

/-- The source as messages show it. -/
def display : InputSource → String
  | .stdin => "<stdin>"
  | .file path => s!"`{path}`"

/-- The source as an observer sees it, with every character of a path told
apart. -/
def quoted : InputSource → String
  | .stdin => "Stdin"
  | .file path => s!"File({Text.quote path})"

end InputSource

end ClassicAlgorithms
