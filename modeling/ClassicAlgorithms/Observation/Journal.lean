/-!
# Journals of spans and events

What an observer keeps of a run: the spans that have closed, in closing order,
and the events, in the order in which they were emitted. Field values are kept
as text.
-/
namespace ClassicAlgorithms

inductive Level where
  | error
  | warn
  | info
  | debug
  | trace
deriving DecidableEq

def Level.label : Level → String
  | .error => "ERROR"
  | .warn => "WARN"
  | .info => "INFO"
  | .debug => "DEBUG"
  | .trace => "TRACE"

/-- Named values, each name at most once. -/
abbrev Fields := List (String × String)

namespace Fields

def get? (fields : Fields) (name : String) : Option String := fields.lookup name

/-- Gives `name` a value and drops the one it had. -/
def set (fields : Fields) (name value : String) : Fields :=
  fields.filter (fun (n, _) => n != name) ++ [(name, value)]

/-- Sets several values from left to right. -/
def setAll (fields values : Fields) : Fields :=
  values.foldl (fun acc (name, value) => acc.set name value) fields

end Fields

structure SpanRecord where
  name : String
  fields : Fields
deriving DecidableEq

structure EventRecord where
  level : Level
  target : String
  fields : Fields
deriving DecidableEq

/-- The message is a field like any other. -/
def EventRecord.withMessage (level : Level) (target message : String) (fields : Fields) :
    EventRecord :=
  ⟨level, target, ("message", message) :: fields⟩

structure Journal where
  spans : List SpanRecord
  events : List EventRecord
deriving DecidableEq

namespace Journal

def empty : Journal := ⟨[], []⟩

def append (a b : Journal) : Journal := ⟨a.spans ++ b.spans, a.events ++ b.events⟩

instance : Append Journal := ⟨append⟩

@[simp] theorem spans_append (a b : Journal) : (a ++ b).spans = a.spans ++ b.spans := rfl

@[simp] theorem events_append (a b : Journal) : (a ++ b).events = a.events ++ b.events := rfl

def ofSpan (span : SpanRecord) : Journal := ⟨[span], []⟩

def ofEvent (event : EventRecord) : Journal := ⟨[], [event]⟩

/-- The first span of that name to close. -/
def spanNamed? (j : Journal) (name : String) : Option SpanRecord :=
  j.spans.find? fun span => span.name == name

def hasEvent (j : Journal) (level : Level) (message : String) : Bool :=
  j.events.any fun event => event.level == level && event.fields.get? "message" == some message

end Journal

end ClassicAlgorithms
