import CorpusMark.Span
import CorpusMark.Text.Slice

/-!
# Text edits

An edit replaces a byte range of a text. `applyEdits` takes a list of edits to one text: it brings
them into descending order of their starts, refuses the list if two neighbours overlap, and then
replaces from right to left, so that the offsets of what is still to do stay valid.
-/

namespace CorpusMark

/-- Replacement of a byte range. -/
structure Edit where
  span : Span
  replacement : String
deriving DecidableEq, Repr

/-- Why a list of edits cannot be applied. -/
inductive EditError where
  /-- Two edits overlap. -/
  | overlap
  /-- A range goes past the end of the text or cuts a character. -/
  | outside (span : Span)
  /-- A range ends before it starts. -/
  | reversed (span : Span)
deriving DecidableEq, Repr

namespace Edit

/-- Edits by descending start; those with equal starts keep their order. -/
def descending (edits : List Edit) : List Edit :=
  edits.mergeSort fun a b => b.span.start ≤ a.span.start

/-- Whether two neighbours of a list overlap. -/
def neighboursOverlap : List Edit → Bool
  | a :: b :: rest => b.span.overlaps a.span || neighboursOverlap (b :: rest)
  | _ => false

/-- Replaces one range of a text. -/
def applyTo (text : List Char) (e : Edit) : Except EditError (List Char) :=
  match Text.cut? text e.span.start, Text.cut? text e.span.stop with
  | some (before, _), some (_, after) =>
    if e.span.stop < e.span.start then .error (.reversed e.span)
    else .ok (before ++ e.replacement.toList ++ after)
  | _, _ => .error (.outside e.span)

end Edit

/-- Replaces the ranges of all edits in a text. -/
def applyEdits (source : String) (edits : List Edit) : Except EditError String :=
  let sorted := Edit.descending edits
  if Edit.neighboursOverlap sorted then .error .overlap
  else (sorted.foldlM Edit.applyTo source.toList).map String.ofList

end CorpusMark
