import ClassicAlgorithms.CommandLine.PatternDepth
import ClassicAlgorithms.Text.Blank
import ClassicAlgorithms.Text.Letter

/-!
# Patterns for the values of fields

Regular expressions, of which only the form is checked here: sequences,
alternatives, groups with names and flags, sets of characters, escapes and
repetitions. A pattern speaks of Unicode or, behind the flag `-u`, of ASCII. Word
boundaries and classes such as `\d` are there for ASCII only. So is ignoring case:
under the flag `i` a Unicode pattern can hold no character and no named class, but
still a set without items. What could match half a character is refused, and so are
counts and all else that is written in braces, since a pattern itself ends at the
first closing brace, and patterns that nest too deep.

The check reads one character after the other and holds what is still open.
-/
namespace ClassicAlgorithms.ValuePattern

/-- What the flags in force say. -/
structure Mode where
  /-- Blanks between the parts do not count, nor do comments. -/
  spaced : Bool
  unicode : Bool
  ignoresCase : Bool
deriving DecidableEq

/-- The part of a pattern that a character or an escape belongs to. -/
inductive Place where
  | sequence
  | set
  /-- After the first character of a range and its dash. -/
  | rangeEnd (first : Char)
deriving DecidableEq

/-- What the next character belongs to. -/
inductive Stage where
  /-- A sequence; `repeatable` if a repetition may follow. -/
  | sequence (repeatable : Bool)
  /-- Right behind a repetition, to which a question mark here still belongs. -/
  | repeated
  /-- Behind an opening bracket. -/
  | groupStart
  /-- Behind the question mark of a group. -/
  | groupMark
  /-- Before the angle bracket of a name. -/
  | nameStart
  | groupName (name : List Char)
  /-- The flags of a group, last first. -/
  | groupFlags (flags : List Char)
  /-- The start of a set, where dashes and a first `]` stand for themselves and a
  caret does not. -/
  | setStart (atOnce empty : Bool)
  | set
  /-- The second half of an operator between sets. -/
  | setOperator
  /-- The rest of a named class, up to its own closing bracket. -/
  | namedClass
  /-- Behind an item of a set, which may be a class. -/
  | afterItem (item : Option Char)
  | rangeEnd (first : Char)
  /-- Behind a backslash. -/
  | escape (place : Place)
  /-- The digits of a character number; `short` if there are two of them. -/
  | hexDigits (place : Place) (short : Bool) (due value : Nat)
deriving DecidableEq

/-- Whether blanks may stand here in a spaced pattern. -/
def Stage.allowsBlanks : Stage → Bool
  | groupMark | nameStart | groupName _ | groupFlags _ => false
  | setOperator | namedClass | escape _ => false
  | _ => true

structure State where
  mode : Mode
  stage : Stage
  /-- How deep the sequence nests that is being read. -/
  depth : SequenceDepth
  /-- What surrounds the open groups, innermost first. -/
  groups : List (Mode × SequenceDepth)
  /-- The open sets, innermost first. -/
  sets : List SetDepth
  /-- The names of groups so far. -/
  names : List (List Char)
  inComment : Bool
deriving DecidableEq

namespace State

def initial : State :=
  ⟨⟨false, true, false⟩, .sequence false, .empty, [], [], [], false⟩

def goTo (s : State) (stage : Stage) : Option State := some { s with stage }

/-- Takes a part of the sequence, which a repetition may follow. -/
def part (s : State) (depth : Nat) : State :=
  { s with stage := .sequence true, depth := s.depth.add depth }

/-- Takes an item of the innermost set. -/
def item (s : State) (stage : Stage) (depth : Nat) : State :=
  { s with stage, sets := s.sets.modifyHead fun set => set.add depth }

/-- Whether the case of characters is known or need not be: it is known for ASCII
only. -/
def foldsCase (s : State) : Bool := !s.mode.ignoresCase || !s.mode.unicode

/-- Takes an item of a set whose case matters. -/
def casedItem (s : State) (stage : Stage) : Option State :=
  if s.foldsCase then some (s.item stage 0) else none

/-- Takes a character that stands for itself. -/
def literal (s : State) (place : Place) (c : Char) : Option State :=
  match place with
  | .sequence => if s.foldsCase then some (s.part 0) else none
  | .set => if s.mode.unicode || c.toNat < 0x80 then s.casedItem (.afterItem (some c)) else none
  | .rangeEnd first =>
    if (s.mode.unicode || c.toNat < 0x80) && first ≤ c then s.goTo .set else none

/-- Takes a class of characters. -/
def characterClass (s : State) (negated : Bool) (place : Place) : Option State :=
  if s.mode.unicode || negated then none
  else match place with
    | .sequence => some (s.part 0)
    | .set => some (s.item (.afterItem none) 0)
    | .rangeEnd _ => none

/-- Takes a condition on a position, which can stand in no set. -/
def assertion (s : State) (place : Place) : Option State :=
  if place = .sequence then some (s.part 0) else none

def openGroup (s : State) : State :=
  { s with stage := .sequence false, depth := .empty, groups := (s.mode, s.depth) :: s.groups }

def closeGroup (s : State) : Option State :=
  match s.groups with
  | [] => none
  | (mode, outer) :: groups =>
    some ({ s with mode, depth := outer, groups }.part (s.depth.depth + 1))

def openSet (s : State) : State :=
  { s with stage := .setStart true true, sets := .empty :: s.sets }

def closeSet (s : State) : Option State :=
  match s.sets with
  | [] => none
  | [set] => some ({ s with sets := [] }.part (set.depth + 1))
  | set :: outer => some ({ s with sets := outer }.item .set (set.depth + 1))

/-- Takes an operator, which lets the set start anew. -/
def operator (s : State) : State :=
  { s with stage := .setOperator, sets := s.sets.modifyHead SetDepth.operate }

def sequenceStep (s : State) (repeatable : Bool) (c : Char) : Option State :=
  match c with
  | '(' => s.goTo .groupStart
  | ')' => s.closeGroup
  | '|' => some { s with stage := .sequence false, depth := s.depth.alternate }
  | '[' => some s.openSet
  | '\x7b' => none
  | '\\' => s.goTo (.escape .sequence)
  | '.' => if s.mode.unicode then some (s.part 0) else none
  | '^' | '$' => some (s.part 0)
  | '?' | '*' | '+' =>
    if repeatable then some { s with stage := .repeated, depth := s.depth.repeatLast } else none
  | c => s.literal .sequence c

/-- The flags that exist. -/
def flagLetters : List Char := ['i', 'm', 's', 'U', 'u', 'R', 'x']

/-- Sets flags in the order in which they are written; those behind a dash are
taken back. -/
def setFlags (on : Bool) (mode : Mode) : List Char → Mode
  | [] => mode
  | '-' :: flags => setFlags false mode flags
  | 'x' :: flags => setFlags on { mode with spaced := on } flags
  | 'u' :: flags => setFlags on { mode with unicode := on } flags
  | 'i' :: flags => setFlags on { mode with ignoresCase := on } flags
  | _ :: flags => setFlags on mode flags

def flagStep (s : State) (flags : List Char) (c : Char) : Option State :=
  let mode := setFlags true s.mode flags.reverse
  match c with
  | ':' => if flags.head? = some '-' then none else some { s.openGroup with mode }
  | ')' =>
    if flags.isEmpty || flags.head? = some '-' then none
    else some { s.part 0 with mode, stage := .sequence false }
  | c =>
    if (c = '-' || flagLetters.contains c) && !flags.contains c then
      s.goTo (.groupFlags (c :: flags))
    else none

def nameStep (s : State) (name : List Char) (c : Char) : Option State :=
  if c = '>' then
    if name.isEmpty || s.names.contains name then none
    else some { s.openGroup with names := name :: s.names }
  else if c = '_' || Text.isLetter c
      || !name.isEmpty && (['.', '[', ']'].contains c || Text.isNumber c) then
    s.goTo (.groupName (c :: name))
  else none

/-- The classes of ASCII characters that have a name in sets. -/
def classNames : List String :=
  ["alnum", "alpha", "ascii", "blank", "cntrl", "digit", "graph", "lower", "print", "punct",
    "space", "upper", "word", "xdigit"]

/-- Whether a named class goes on here, behind its bracket. -/
def startsNamedClass (negated : Bool) (rest : List Char) : Bool :=
  let sign := if negated then ":^" else ":"
  classNames.any fun name => s!"{sign}{name}:]".toList.isPrefixOf rest

def setStep (s : State) (c : Char) (rest : List Char) : Option State :=
  match c with
  | '[' =>
    if startsNamedClass false rest then s.goTo .namedClass
    else if startsNamedClass true rest then
      if s.mode.unicode then s.goTo .namedClass else none
    else some s.openSet
  | ']' => s.closeSet
  | '\\' => s.goTo (.escape .set)
  | c =>
    if ['&', '-', '~'].contains c && rest.head? = some c then some s.operator
    else s.literal .set c

def setStartStep (s : State) (atOnce empty : Bool) (c : Char) (rest : List Char) : Option State :=
  if c = '^' && atOnce then
    if s.mode.unicode then s.goTo (.setStart false true) else none
  else if c = '-' then s.casedItem (.setStart false false)
  else if c = ']' && empty then s.casedItem .set
  else s.setStep c rest

/-- The character that decides whether a dash makes a range: the next one that is
no blank. A comment hides no more than its own sign. -/
def afterDash (mode : Mode) (rest : List Char) : Option Char :=
  if mode.spaced then
    match rest.dropWhile Text.isBlank with
    | '#' :: rest => (rest.dropWhile Text.isBlank).head?
    | rest => rest.head?
  else rest.head?

def itemStep (s : State) (item : Option Char) (c : Char) (rest : List Char) : Option State :=
  let next := afterDash s.mode rest
  if c = '-' && next ≠ some ']' && next ≠ some '-' then
    item.bind fun first => s.goTo (.rangeEnd first)
  else s.setStep c rest

def escapeStep (s : State) (place : Place) (c : Char) : Option State :=
  match c with
  | 'x' => s.goTo (.hexDigits place true 2 0)
  | 'u' => s.goTo (.hexDigits place false 4 0)
  | 'U' => s.goTo (.hexDigits place false 8 0)
  | 'd' | 's' | 'w' => s.characterClass false place
  | 'D' | 'S' | 'W' => s.characterClass true place
  | 'A' | 'z' => s.assertion place
  | 'b' | 'B' | '<' | '>' => if s.mode.unicode then none else s.assertion place
  | 'a' => s.literal place '\x07'
  | 'f' => s.literal place '\x0c'
  | 't' => s.literal place '\t'
  | 'n' => s.literal place '\n'
  | 'r' => s.literal place '\r'
  | 'v' => s.literal place '\x0b'
  | c => if c.toNat < 0x80 && !c.isAlphanum then s.literal place c else none

def hexDigit? (c : Char) : Option Nat :=
  if c.isDigit then some (c.toNat - '0'.toNat)
  else if 'a' ≤ c ∧ c ≤ 'f' then some (c.toNat - 'a'.toNat + 10)
  else if 'A' ≤ c ∧ c ≤ 'F' then some (c.toNat - 'A'.toNat + 10)
  else none

/-- The last digit completes a character, which must exist. Two digits name a
byte where the pattern speaks of ASCII. -/
def hexStep (s : State) (place : Place) (short : Bool) (due value : Nat) (c : Char) :
    Option State := do
  let value := value * 16 + (← hexDigit? c)
  if 1 < due then s.goTo (.hexDigits place short (due - 1) value)
  else if !value.isValidChar || short && !s.mode.unicode && 0x80 ≤ value then none
  else s.literal place (Char.ofNat value)

/-- Takes a character with a view of those behind it. -/
def step (s : State) (c : Char) (rest : List Char) : Option State :=
  let s := if s.stage = .repeated ∧ c ≠ '?' then { s with stage := .sequence true } else s
  if s.inComment then some { s with inComment := c ≠ '\n' }
  else if s.mode.spaced && s.stage.allowsBlanks && Text.isBlank c then some s
  else if s.mode.spaced && s.stage.allowsBlanks && c = '#' then some { s with inComment := true }
  else match s.stage with
    | .sequence repeatable => s.sequenceStep repeatable c
    | .repeated => s.goTo (.sequence true)
    | .groupStart =>
      if c = '?' then s.goTo .groupMark else s.openGroup.sequenceStep false c
    | .groupMark =>
      if c = 'P' then s.goTo .nameStart
      else if c = '<' then s.goTo (.groupName [])
      else s.flagStep [] c
    | .nameStart => if c = '<' then s.goTo (.groupName []) else none
    | .groupName name => s.nameStep name c
    | .groupFlags flags => s.flagStep flags c
    | .setStart atOnce empty => s.setStartStep atOnce empty c rest
    | .set => s.setStep c rest
    | .setOperator => s.goTo .set
    | .namedClass => if c = ']' then s.casedItem .set else some s
    | .afterItem item => s.itemStep item c rest
    | .rangeEnd first =>
      if c = '\\' then s.goTo (.escape (.rangeEnd first)) else s.literal (.rangeEnd first) c
    | .escape place => s.escapeStep place c
    | .hexDigits place short due value => s.hexStep place short due value c

/-- Whether a pattern may end here. -/
def isComplete (s : State) : Bool :=
  match s.stage with
  | .sequence _ | .repeated => s.groups.isEmpty && s.depth.depth ≤ depthLimit
  | _ => false

def accepts : State → List Char → Bool
  | s, [] => s.isComplete
  | s, c :: rest =>
    match s.step c rest with
    | some next => next.accepts rest
    | none => false

end State

def isValid (pattern : List Char) : Bool := State.initial.accepts pattern

end ClassicAlgorithms.ValuePattern
