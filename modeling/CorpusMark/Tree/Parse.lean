import CorpusMark.Tree.Node

/-!
# Parsing within limits

A parser joins a grammar with the limits that a source must keep: no node deeper than `maxDepth`
and, unless faulty trees are welcome, no place where the text does not fit the grammar. The depth
is looked at first.
-/

namespace CorpusMark

/-- What the tree of a source has to satisfy. -/
structure ParseLimits where
  maxDepth : Nat
  rejectFaults : Bool
deriving DecidableEq, Repr

/-- A grammar with limits. -/
structure Parser where
  grammar : Grammar
  limits : ParseLimits

/-- The arena of a source, or why it has none within the limits. -/
def Parser.parse (p : Parser) (source : String) : Except ParseError Arena :=
  match Arena.ofTree p.limits.maxDepth source (p.grammar source) with
  | .error e => .error e
  | .ok arena =>
    if p.limits.rejectFaults && 0 < arena.faultCount then .error (.malformed arena.faultCount)
    else .ok arena

/-- A corpus sample with its tree. -/
structure ParsedSample where
  index : Nat
  arena : Arena

namespace ParsedSample

/-- The source text of the sample. -/
def code (s : ParsedSample) : String := s.arena.source

end ParsedSample

end CorpusMark
