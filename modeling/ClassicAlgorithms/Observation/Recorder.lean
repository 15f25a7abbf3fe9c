import ClassicAlgorithms.Observation.Journal

/-!
# Recorders

A recorder listens to spans opening, changing and closing and to events, and
builds the journal of a run. Spans that are still open are kept beside it, so
they leave no trace before they close; what is recorded on a span that is not
open leaves none at all.

What a recorder hears of comes as notices, one after the other, and what it has kept is a
function of those that it has heard.
-/
namespace ClassicAlgorithms

structure Recorder where
  /-- The open spans by number. -/
  live : List (Nat × SpanRecord)
  journal : Journal
deriving DecidableEq

/-- What happens to a span, or an event. The values come in the order in which they are set, and
one name may come more than once. -/
inductive Notice where
  | opened (id : Nat) (name : String) (values : Fields)
  | recorded (id : Nat) (values : Fields)
  | closed (id : Nat)
  | emitted (level : Level) (target : String) (values : Fields)
deriving DecidableEq

namespace Recorder

def empty : Recorder := ⟨[], .empty⟩

def opened (r : Recorder) (id : Nat) (name : String) (fields : Fields) : Recorder :=
  { r with live := r.live ++ [(id, ⟨name, Fields.setAll [] fields⟩)] }

def recorded (r : Recorder) (id : Nat) (values : Fields) : Recorder :=
  { r with live := r.live.map fun (i, span) =>
      if i = id then (i, { span with fields := span.fields.setAll values }) else (i, span) }

def closed (r : Recorder) (id : Nat) : Recorder :=
  match r.live.lookup id with
  | none => r
  | some span => ⟨r.live.filter fun (i, _) => i ≠ id, r.journal ++ .ofSpan span⟩

def emitted (r : Recorder) (event : EventRecord) : Recorder :=
  { r with journal := r.journal ++ .ofEvent event }

def hear (r : Recorder) : Notice → Recorder
  | .opened id name values => r.opened id name values
  | .recorded id values => r.recorded id values
  | .closed id => r.closed id
  | .emitted level target values => r.emitted ⟨level, target, Fields.setAll [] values⟩

/-- A recorder that has heard all of these, the first one first. -/
def ofHistory (heard : List Notice) : Recorder := heard.foldl hear empty

end Recorder

end ClassicAlgorithms
