import CorpusMark.Assignment
import CorpusMark.Backdoor
import CorpusMark.Edit

/-!
# Rewriting samples

A rewriter brings chosen occurrences into another form and copies everything else. A backdoor is
applied by choosing one occurrence for each of its terms, all disjoint, and replacing them
together. With verification, a rewritten text is accepted only if it parses without a fault and
within the depth limit of the source.
-/

namespace CorpusMark

/-- How samples are rewritten. -/
structure Rewriter where
  /-- Parser that a rewritten text must satisfy. -/
  verifier : Option Parser
  /-- Number of candidates that the search for disjoint occurrences may look at. -/
  searchBudget : Nat

namespace EditError

/-- What a failed edit means for the sample. -/
def toTransformError : EditError → TransformError
  | overlap => .interference []
  | outside span => .invalidOutput s!"edit {span.start}..{span.stop} falls outside the source"
  | reversed span => .invalidOutput s!"edit {span.start}..{span.stop} ends before it starts"

end EditError

namespace Rewriter

/-- The rewriter that goes with a parser: what it verifies keeps the parser's depth limit and has
no faults. -/
def ofParser (parser : Parser) (verify : Bool) (searchBudget : Nat) : Rewriter where
  verifier :=
    if verify then some { parser with limits := { parser.limits with rejectFaults := true } }
    else none
  searchBudget := searchBudget

/-- Accepts a rewritten text. -/
def verify (r : Rewriter) (out : String) : Except TransformError String :=
  match r.verifier with
  | none => .ok out
  | some parser =>
    match parser.parse out with
    | .ok _ => .ok out
    | .error e => .error (.invalidOutput e.message)

/-- The edit that brings an occurrence into the form of a term. -/
def editFor (arena : Arena) (term : Term) (o : Occurrence) : Except TransformError Edit :=
  let declined := TransformError.declined term.id term.formName o.span.start
  match arena.node? o.node with
  | none => .error declined
  | some n =>
    if n.span ≠ o.span then .error declined
    else match term.transform.render? term.form n with
      | none => .error declined
      | some text => .ok ⟨o.span, text⟩

/-- Replaces parts of a source. -/
def applyAll (source : String) (edits : List Edit) : Except TransformError String :=
  (applyEdits source edits).mapError EditError.toTransformError

/-- Rewrites one occurrence. -/
def apply (r : Rewriter) (arena : Arena) (term : Term) (o : Occurrence) :
    Except TransformError String := do
  let edit ← editFor arena term o
  let out ← applyAll arena.source [edit]
  r.verify out

/-- The occurrences of each term; all terms must have some. -/
def candidates (found : MatchSet) (terms : List Term) :
    Except TransformError (List (List Occurrence)) :=
  terms.mapM fun term =>
    let occurrences := found.occurrences term.id
    if occurrences.isEmpty then .error (.missingOccurrence term.id)
    else .ok occurrences.toList

/-- Rewrites one occurrence of every term of a backdoor. -/
def applyBackdoor (r : Rewriter) (arena : Arena) (found : MatchSet) (b : Backdoor) :
    Except TransformError String := do
  let options ← candidates found b.terms
  match Assignment.chooseDisjoint r.searchBudget options with
  | none => throw (.interference b.ids)
  | some chosen =>
    let edits ← (b.terms.zip chosen).mapM fun (term, o) => editFor arena term o
    let out ← applyAll arena.source edits
    r.verify out

end Rewriter

end CorpusMark
