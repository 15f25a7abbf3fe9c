import ClassicAlgorithms.Observation.Recorder

/-!
# Trees of open spans

Callers hold spans by handles of their own choice. A span stays open as long as
its handle or one of its children does; closing the last child therefore closes
a waiting parent right after it, and so on upwards. A handle that is opened
again passes to the new span and the old one loses it, after the new one has
been opened. Spans take values only under names that they declare.
-/
namespace ClassicAlgorithms

structure OpenSpan where
  number : Nat
  parent : Option Nat
  /-- How many keep the span open: its handle and its open children. -/
  holders : Nat
deriving DecidableEq

structure SpanTree where
  handles : List (String × Nat)
  spans : List OpenSpan
  /-- The number of the next span; a parent has a smaller one than its child. -/
  next : Nat
  declares : String → Bool
  recorder : Recorder

namespace SpanTree

/-- No span has been opened yet; those to come declare these names. -/
def empty (declares : String → Bool := fun _ => true) : SpanTree := ⟨[], [], 0, declares, .empty⟩

/-- Values under names that no span declares are dropped. -/
def declared (t : SpanTree) (values : Fields) : Fields :=
  values.filter fun (name, _) => t.declares name

/-- The span that a handle holds. -/
def held? (t : SpanTree) (handle : String) : Option Nat := t.handles.lookup handle

def span? (t : SpanTree) (number : Nat) : Option OpenSpan :=
  t.spans.find? fun span => span.number = number

def setHolders (t : SpanTree) (number holders : Nat) : SpanTree :=
  { t with spans := t.spans.map fun span =>
      if span.number = number then { span with holders } else span }

/-- Gives the parent, if there is one, one holder more. -/
def retain (t : SpanTree) (parent : Option Nat) : SpanTree :=
  match parent.bind t.span? with
  | none => t
  | some span => t.setHolders span.number (span.holders + 1)

/-- The span closes. -/
def remove (t : SpanTree) (number : Nat) : SpanTree :=
  { t with
    spans := t.spans.filter fun span => span.number ≠ number
    recorder := t.recorder.hear (.closed number) }

/-- Takes away one holder. A span without holders closes and lets go of its
parent; `levels` bounds the way up. -/
def release : (levels : Nat) → (number : Nat) → SpanTree → SpanTree
  | 0, _, t => t
  | levels + 1, number, t =>
    match t.span? number with
    | none => t
    | some span =>
      if 1 < span.holders then t.setHolders number (span.holders - 1)
      else
        match span.parent with
        | none => t.remove number
        | some parent => release levels parent (t.remove number)

/-- Lets go of a span that a handle held. -/
def drop (t : SpanTree) (number : Nat) : SpanTree := release (number + 1) number t

def forget (t : SpanTree) (handle : String) : SpanTree :=
  { t with handles := t.handles.filter fun (h, _) => h ≠ handle }

/-- A new span, which holds its parent and is held by `handle` alone. -/
def enter (t : SpanTree) (handle name : String) (fields : Fields) (parent : Option Nat) :
    SpanTree :=
  { t with
    handles := (handle, t.next) :: t.handles
    spans := (t.retain parent).spans ++ [⟨t.next, parent, 1⟩]
    next := t.next + 1
    recorder := t.recorder.hear (.opened t.next name (t.declared fields)) }

/-- Opens a span under `handle`, as a child of the span that the parent handle
holds, if there is one. -/
def openSpan (t : SpanTree) (handle name : String) (fields : Fields) (parent : Option String) :
    SpanTree :=
  let opened := (t.forget handle).enter handle name fields (parent.bind t.held?)
  match t.held? handle with
  | none => opened
  | some number => opened.drop number

/-- Records fields on an open span and says whether the handle was open. -/
def record (t : SpanTree) (handle : String) (values : Fields) : SpanTree × Bool :=
  match t.held? handle with
  | none => (t, false)
  | some number =>
    ({ t with recorder := t.recorder.hear (.recorded number (t.declared values)) }, true)

/-- Closes a handle and says whether it was open. -/
def close (t : SpanTree) (handle : String) : SpanTree × Bool :=
  match t.held? handle with
  | none => (t, false)
  | some number => ((t.forget handle).drop number, true)

def emit (t : SpanTree) (event : EventRecord) : SpanTree :=
  { t with recorder := t.recorder.hear (.emitted event.level event.target event.fields) }

/-- Closes the handles that are still open, in ascending order. -/
def closeAll (t : SpanTree) : SpanTree :=
  let held := (t.handles.map Prod.fst).mergeSort fun a b => a ≤ b
  held.foldl (fun t handle => (t.close handle).1) t

def journal (t : SpanTree) : Journal := t.recorder.journal

end SpanTree

end ClassicAlgorithms
