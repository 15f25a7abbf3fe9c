import ClassicAlgorithms.EditDistance.Alignment
import ClassicAlgorithms.Graph.Traversal

/-!
# Reports and how they are written

A report is written in pieces, each a number, a word or a separator. A sink with
limited room takes what it can of a piece and then fails, and nothing after the
failure is written, so what it holds is always the beginning of the whole text.

A writer is a sink that need not take at once all that it has room for. It is
offered a piece as often as it takes something of it, and fails when it takes
nothing.
-/
namespace ClassicAlgorithms

/-- What a successful command has to say. -/
inductive Report where
  | traversal (graph : Digraph) (traversal : Traversal)
  | alignment (alignment : Alignment)
  | connectivity (components connectingEdges : Nat)
deriving DecidableEq

namespace Report

/-- Numbers on one line with single spaces between them. -/
def orderText (order : List Nat) : String := " ".intercalate (order.map toString)

def edgePieces : Edge × EdgeKind → List String
  | (e, kind) => [toString e.tail, " ", toString e.head, " ", kind.letter.toString, "\n"]

/-- The pieces of a report, in order. -/
def pieces : Report → List String
  | traversal graph t =>
    [orderText t.discovery.toList, "\n"] ++
      (graph.edges.toList.zip t.kinds.toList).flatMap edgePieces
  | alignment a => [toString a.distance, "\n", a.alignedSource, "\n", a.alignedTarget, "\n"]
  | connectivity _ connectingEdges => [toString connectingEdges, "\n"]

/-- The whole text of a report. -/
def render (r : Report) : String := String.join r.pieces

end Report

/-- The sink took no further byte. -/
inductive WriteFault where
  | noRoom
deriving DecidableEq

def WriteFault.message : WriteFault → String
  | .noRoom => "failed to write whole buffer"

/-- A place to write to that takes only so many bytes. -/
structure Sink where
  taken : Array UInt8
  room : Nat
deriving DecidableEq

namespace Sink

def ofLimit (limit : Nat) : Sink := ⟨#[], limit⟩

/-- Writes as many bytes as there is room for. -/
def write (s : Sink) (bytes : List UInt8) : Sink × Option WriteFault :=
  (⟨s.taken ++ bytes.take s.room, s.room - bytes.length⟩,
    if s.room < bytes.length then some .noRoom else none)

/-- Writes pieces until one of them does not fit. -/
def writeAll (s : Sink) : List String → Sink × Option WriteFault
  | [] => (s, none)
  | piece :: rest =>
    match s.write piece.toUTF8.toList with
    | (s, none) => s.writeAll rest
    | (s, some fault) => (s, some fault)

end Sink

/-- A sink that takes only so much in a call. -/
structure Writer where
  sink : Sink
  /-- One less than the most that a call takes, by the number of the call. -/
  portion : Nat → Nat
  /-- How many calls there have been. -/
  calls : Nat

namespace Writer

/-- How many of the bytes on offer the next call takes. With room left, it takes
at least one. -/
def share (w : Writer) (bytes : List UInt8) : Nat :=
  min (w.portion w.calls + 1) (min w.sink.room bytes.length)

/-- One call. -/
def take (w : Writer) (bytes : List UInt8) : Writer :=
  { w with sink := (w.sink.write (bytes.take (w.share bytes))).1, calls := w.calls + 1 }

/-- Offers the rest of a piece again until nothing is left or nothing is taken. -/
def write (w : Writer) (bytes : List UInt8) : Writer × Option WriteFault :=
  if bytes = [] then (w, none)
  else if w.share bytes = 0 then (w.take bytes, some .noRoom)
  else (w.take bytes).write (bytes.drop (w.share bytes))
termination_by bytes.length
decreasing_by
  rename_i hbytes hshare
  have := List.length_pos_iff.mpr hbytes
  simp only [List.length_drop]
  omega

/-- Writes pieces until one of them does not fit. -/
def writeAll (w : Writer) : List String → Writer × Option WriteFault
  | [] => (w, none)
  | piece :: rest =>
    match w.write piece.toUTF8.toList with
    | (w, none) => w.writeAll rest
    | (w, some fault) => (w, some fault)

end Writer

namespace Report

/-- Writes a report to a sink. -/
def writeTo (r : Report) (s : Sink) : Sink × Option WriteFault := s.writeAll r.pieces

/-- Writes a report to a writer that takes what it takes in portions. -/
def writeThrough (r : Report) (w : Writer) : Writer × Option WriteFault := w.writeAll r.pieces

end Report

end ClassicAlgorithms
