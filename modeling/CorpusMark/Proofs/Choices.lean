import CorpusMark.Assignment
import Mathlib.Tactic.SplitIfs

/-!
# Choices by recursion

`chooseDisjoint` goes from term to term and back again, with the candidates of
every term that it has not looked at yet. The same search can be written by
recursion on the terms, which is what proofs want: `tryOptions` takes the
candidates of one term in order, and what comes after a candidate that fits is
the search for the other terms. The two agree (`searchAll_eq_search`), since from
wherever the turn is with a term, the walk does what the recursion does for this
term and those behind it, and if that ends without a choice it stands where the
term has nothing left to try (`walk_eq_tryOptions`).
-/

namespace CorpusMark

namespace Assignment

/-- Tries the candidates of one term in order; `next` goes on with the terms that follow. -/
def tryOptions (next : List Occurrence → Nat → Outcome) (chosen : List Occurrence) :
    List Occurrence → Nat → Outcome
  | [], left => .exhausted left
  | _ :: _, 0 => .spent
  | candidate :: rest, left + 1 =>
    if fits chosen candidate then
      match next (chosen ++ [candidate]) left with
      | .exhausted left => tryOptions next chosen rest left
      | outcome => outcome
    else tryOptions next chosen rest left

/-- Completes a choice for the terms that are left. -/
def search : List (List Occurrence) → List Occurrence → Nat → Outcome
  | [], chosen, left => .found chosen left
  | options :: rest, chosen, left => tryOptions (search rest) chosen options left

/-! ## Turns -/

/-- Goes on with a search whose term in turn and those behind it have come to
the given end: if it is exhausted, the term has nothing left to try. -/
def resume (served : List Served) (options : List Occurrence)
    (later : List (List Occurrence)) : Outcome → Outcome
  | .exhausted left => walk left ⟨served, options, [], later⟩
  | outcome => outcome

theorem chosenOf_cons (s : Served) (served : List Served) :
    chosenOf (s :: served) = chosenOf served ++ [s.chosen] := by
  simp [chosenOf]

theorem next?_cons (served : List Served) (options : List Occurrence) (candidate : Occurrence)
    (untried : List Occurrence) (later : List (List Occurrence)) :
    next? served options (candidate :: untried) later
      = some (candidate, ⟨served, options, untried, later⟩) := by
  cases served <;> rfl

/-- Without a term before it, a term with nothing left to try ends the search. -/
theorem walk_first (left : Nat) (options : List Occurrence) (later : List (List Occurrence)) :
    walk left ⟨[], options, [], later⟩ = .exhausted left := by
  rw [walk.eq_def]
  rfl

/-- A term with nothing left to try gives its turn back to the term before. -/
theorem walk_back (left : Nat) (s : Served) (served : List Served) (options : List Occurrence)
    (later : List (List Occurrence)) :
    walk left ⟨s :: served, options, [], later⟩
      = walk left ⟨served, s.options, s.untried, options :: later⟩ := by
  rw [walk.eq_def, walk.eq_def left ⟨served, _, _, _⟩]
  rfl

/-- There is no budget for another candidate. -/
theorem walk_zero (served : List Served) (options : List Occurrence) (candidate : Occurrence)
    (untried : List Occurrence) (later : List (List Occurrence)) :
    walk 0 ⟨served, options, candidate :: untried, later⟩ = .spent := by
  rw [walk.eq_def, next?_cons]

/-- One candidate is looked at. -/
theorem walk_succ (left : Nat) (served : List Served) (options : List Occurrence)
    (candidate : Occurrence) (untried : List Occurrence) (later : List (List Occurrence)) :
    walk (left + 1) ⟨served, options, candidate :: untried, later⟩
      = if fits (chosenOf served) candidate then
          match later with
          | [] => .found (chosenOf served ++ [candidate]) left
          | next :: later => walk left ⟨⟨candidate, options, untried⟩ :: served, next, next, later⟩
        else walk left ⟨served, options, untried, later⟩ := by
  cases later with
  | nil => rw [walk.eq_def, next?_cons]
  | cons next later => rw [walk.eq_def, next?_cons]

/-! ## Walk and recursion -/

/-- **The walk serves a term and those behind it as the recursion does**, and then
goes back to the terms before. -/
theorem walk_eq_tryOptions (served : List Served) (options untried : List Occurrence)
    (later : List (List Occurrence)) (left : Nat) :
    walk left ⟨served, options, untried, later⟩
      = resume served options later
          (tryOptions (search later) (chosenOf served) untried left) := by
  -- the terms behind are served for one candidate after the other
  induction later generalizing served options untried left with
  | nil =>
    induction untried generalizing left with
    | nil => rfl
    | cons candidate untried ih =>
      cases left with
      | zero => exact walk_zero ..
      | succ left =>
        rw [walk_succ, tryOptions]
        split_ifs
        · rfl
        · exact ih left
  | cons next later ihLater =>
    induction untried generalizing left with
    | nil => rfl
    | cons candidate untried ih =>
      cases left with
      | zero => exact walk_zero ..
      | succ left =>
        rw [walk_succ, tryOptions]
        split_ifs
        · dsimp only
          rw [ihLater, chosenOf_cons, search]
          cases tryOptions (search later) (chosenOf served ++ [candidate]) next left with
          | exhausted left =>
            -- the term behind has tried all next to this candidate
            rw [resume, walk_back]
            exact ih left
          | _ => rfl
        · exact ih left

/-- **The walk is the search by recursion.** -/
theorem searchAll_eq_search (budget : Nat) (candidates : List (List Occurrence)) :
    searchAll budget candidates = search candidates [] budget := by
  cases candidates with
  | nil => rfl
  | cons options later =>
    rw [searchAll, walk_eq_tryOptions, search]
    show resume [] options later (tryOptions (search later) [] options budget) = _
    cases tryOptions (search later) [] options budget with
    | exhausted left => rw [resume, walk_first]
    | _ => rfl

end Assignment

end CorpusMark
