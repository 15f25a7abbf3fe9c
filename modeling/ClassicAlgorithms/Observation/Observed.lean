import ClassicAlgorithms.Observation.Journal

/-!
# Observed computations

A computation that may fail, together with what an observer sees of it: the
fields that it recorded on the span around it and the journal of the spans and
events inside. A computation in a span hands its fields to that span and leaves
none to the span further out. A failure keeps whatever was seen before it.
-/
namespace ClassicAlgorithms

structure Observed (ε α : Type) where
  outcome : Except ε α
  fields : Fields
  journal : Journal

namespace Observed

/-- A computation that nobody watches. -/
def ofExcept (outcome : Except ε α) : Observed ε α := ⟨outcome, [], .empty⟩

def bind (x : Observed ε α) (f : α → Observed ε β) : Observed ε β :=
  match x.outcome with
  | .error e => ⟨.error e, x.fields, x.journal⟩
  | .ok a =>
    let y := f a
    ⟨y.outcome, x.fields ++ y.fields, x.journal ++ y.journal⟩

instance : Monad (Observed ε) where
  pure a := ofExcept (.ok a)
  bind := bind

def mapError (f : ε → δ) (x : Observed ε α) : Observed δ α :=
  ⟨x.outcome.mapError f, x.fields, x.journal⟩

/-- Records a field on the span around the computation. -/
def record (name value : String) : Observed ε Unit := ⟨.ok (), [(name, value)], .empty⟩

def emit (event : EventRecord) : Observed ε Unit := ⟨.ok (), [], .ofEvent event⟩

/-- Adds an `ERROR` event with the text of the error when `x` fails. -/
def reporting (target : String) (describe : ε → String) (x : Observed ε α) : Observed ε α :=
  match x.outcome with
  | .error e =>
    ⟨x.outcome, x.fields, x.journal ++ .ofEvent ⟨.error, target, [("error", describe e)]⟩⟩
  | .ok _ => x

/-- Runs `x` in a span that opens with some fields and closes, with those and
the recorded ones, when `x` is over. -/
def inSpan (name : String) (opened : Fields) (x : Observed ε α) : Observed ε α :=
  ⟨x.outcome, [], x.journal ++ .ofSpan ⟨name, Fields.setAll opened x.fields⟩⟩

end Observed

end ClassicAlgorithms
