import CorpusMark.Occurrence

/-!
# Disjoint assignments

To apply all terms of a backdoor at once, one occurrence is chosen for each term so that no two
of them overlap. The search serves the terms in order and keeps for each of them the candidates
that it has not looked at yet. When the term in turn has none left, the turn goes back to the term
before, and all candidates of the one that gave it back will be tried again (`next?`).
`chooseDisjoint` gives up when it has looked at as many candidates as its budget allows.
-/

namespace CorpusMark.Assignment

/-- How a search ended, and how much of its budget was left. -/
inductive Outcome where
  | found (chosen : List Occurrence) (left : Nat)
  /-- No choice is left. -/
  | exhausted (left : Nat)
  /-- There was another candidate, but no budget for it. -/
  | spent
deriving DecidableEq, Repr

/-- Whether a candidate overlaps none of the chosen occurrences. -/
def fits (chosen : List Occurrence) (candidate : Occurrence) : Bool :=
  chosen.all fun c => !c.span.overlaps candidate.span

/-- A term that has got an occurrence. -/
structure Served where
  chosen : Occurrence
  /-- The candidates of the term. -/
  options : List Occurrence
  /-- Those that come after the chosen one. -/
  untried : List Occurrence
deriving DecidableEq, Repr

/-- Where a search stands: the turn is with one of the terms. -/
structure Turn where
  /-- The terms before it, the nearest first. -/
  served : List Served
  /-- The candidates of the term. -/
  options : List Occurrence
  /-- Those that have not been looked at since the term before got its occurrence. -/
  untried : List Occurrence
  /-- The candidates of the terms behind it. -/
  later : List (List Occurrence)
deriving DecidableEq, Repr

/-- The occurrences that the terms have got, in the order of the terms. -/
def chosenOf (served : List Served) : List Occurrence :=
  (served.map Served.chosen).reverse

/-- The candidate to look at next, and where the search stands then. -/
def next? : List Served → List Occurrence → List Occurrence → List (List Occurrence) →
    Option (Occurrence × Turn)
  | served, options, candidate :: untried, later =>
    some (candidate, ⟨served, options, untried, later⟩)
  | [], _, [], _ => none
  | s :: served, options, [], later => next? served s.options s.untried (options :: later)

/-- Goes on with a search, and looks at no more than `left` candidates. -/
def walk (left : Nat) (turn : Turn) : Outcome :=
  match next? turn.served turn.options turn.untried turn.later with
  | none => .exhausted left
  | some (candidate, ⟨served, options, untried, later⟩) =>
    match left with
    | 0 => .spent
    | left + 1 =>
      if fits (chosenOf served) candidate then
        match later with
        | [] => .found (chosenOf served ++ [candidate]) left
        | next :: later => walk left ⟨⟨candidate, options, untried⟩ :: served, next, next, later⟩
      else walk left ⟨served, options, untried, later⟩
termination_by structural left

/-- Searches from the first term on. -/
def searchAll (budget : Nat) : List (List Occurrence) → Outcome
  | [] => .found [] budget
  | options :: later => walk budget ⟨[], options, options, later⟩

/-- The first choice of one candidate for each term without overlaps. -/
def chooseDisjoint (budget : Nat) (candidates : List (List Occurrence)) :
    Option (List Occurrence) :=
  match searchAll budget candidates with
  | .found chosen _ => some chosen
  | _ => none

end CorpusMark.Assignment
