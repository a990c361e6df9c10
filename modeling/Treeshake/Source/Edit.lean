import Treeshake.Build.Journal
import Treeshake.Text.Offset

namespace Treeshake.Source

structure Edit where
  label : String
  replacement : String
  span : Text.Span
deriving DecidableEq, Repr

namespace Edit

-- Edits by where they start; those that start together keep their order.
def sorted (edits : List Edit) : List Edit :=
  edits.mergeSort fun a b => a.span.start ≤ b.span.start

def skipped (edit : Edit) : Journal :=
  .warn ("Skipping " ++ edit.label ++ " replacement at " ++ toString edit.span.start ++ ".." ++
    toString edit.span.stop ++ ": span is out of range")

def locate? (rest : List Char) (cursor : Nat) (span : Text.Span) :
    Option (List Char × List Char) := do
  if span.start < cursor || span.stop < span.start then none
  let (before, atStart) ← Text.cut? rest (span.start - cursor)
  let (_, behind) ← Text.cut? atStart (span.stop - span.start)
  return (before, behind)

-- Applies edits in order to the text ahead of the cursor. One whose stretch lies behind the
-- cursor or outside the text, or splits a character, is left out with a warning.
def spliceFrom (rest : List Char) (cursor : Nat) : List Edit → List Char × Journal
  | [] => (rest, [])
  | edit :: edits =>
    match locate? rest cursor edit.span with
    | some (before, behind) =>
      let (text, journal) := spliceFrom behind edit.span.stop edits
      (before ++ edit.replacement.toList ++ text, journal)
    | none =>
      let (text, journal) := spliceFrom rest cursor edits
      (text, edit.skipped ++ journal)

def splice (edits : List Edit) (source : String) : String × Journal :=
  let (text, journal) := spliceFrom source.toList 0 (sorted edits)
  (String.ofList text, journal)

end Edit

end Treeshake.Source
