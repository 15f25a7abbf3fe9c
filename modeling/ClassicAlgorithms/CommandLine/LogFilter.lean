import ClassicAlgorithms.CommandLine.LogDirective

/-!
# Log filters

A filter is a list of directives with commas between them. Of the directives that
apply to an event the most specific one decides, and an event to which none
applies is hidden; so an empty filter hides everything. The standard filter shows
events down to reports of progress.
-/
namespace ClassicAlgorithms

structure LogFilter where
  directives : List LogDirective
deriving DecidableEq

namespace LogFilter

def standard : LogFilter := ⟨[{ LogDirective.all with level := some .info }]⟩

def read (text : String) : Except DirectiveError LogFilter := do
  let pieces := (Text.split ',' text.toList).filter fun piece => !piece.isEmpty
  return ⟨← pieces.mapM LogDirective.read⟩

/-- The most specific directive of a list; of equals the last one. -/
def mostSpecific? (directives : List LogDirective) : Option LogDirective :=
  directives.foldl
    (fun best d => if best.all d.refines then some d else best)
    none

/-- Whether the filter lets through an error with this target and these fields
that is reported outside all spans. Every level but `off` includes errors. -/
def showsError (filter : LogFilter) (target : String) (fields : List String) : Bool :=
  match mostSpecific? (filter.directives.filter fun d => d.applies target fields) with
  | some d => d.level.isSome
  | none => false

end LogFilter

end ClassicAlgorithms
