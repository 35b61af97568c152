/-!
# Byte ranges

A half-open range `[start, stop)` of byte offsets into a source text. Nothing forces
`start ≤ stop`; a range that ends before it starts is empty.
-/

namespace CorpusMark

/-- A half-open range of byte offsets. -/
structure Span where
  start : Nat
  stop : Nat
deriving DecidableEq, Repr, Inhabited

namespace Span

/-- Number of bytes covered. -/
def length (s : Span) : Nat := s.stop - s.start

def isEmpty (s : Span) : Bool := s.length == 0

/-- True unless one of the ranges ends at or before the start of the other. So an empty range that
lies strictly inside another one overlaps it. -/
def overlaps (s t : Span) : Bool :=
  !(s.stop ≤ t.start || t.stop ≤ s.start)

/-- Whether `t` starts and ends inside `s`. -/
def contains (s t : Span) : Bool :=
  s.start ≤ t.start && t.stop ≤ s.stop

/-- By start, then by end. -/
instance : Ord Span where
  compare s t := (compare s.start t.start).then (compare s.stop t.stop)

theorem overlaps_comm (s t : Span) : s.overlaps t = t.overlaps s := by
  simp only [overlaps, Bool.or_comm]

@[simp] theorem overlaps_iff {s t : Span} :
    s.overlaps t = true ↔ t.start < s.stop ∧ s.start < t.stop := by
  simp [overlaps]

@[simp] theorem contains_iff {s t : Span} :
    s.contains t = true ↔ s.start ≤ t.start ∧ t.stop ≤ s.stop := by
  simp [contains]

end Span

end CorpusMark
