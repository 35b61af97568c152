import CorpusMark.Tree.Basic

/-!
# Cursors

A cursor stands at a node of a tree and goes from there to the first child, to the next sibling or
to the parent. Pre-order takes two moves: down to the first child and, from a node without one, on
to the next sibling of the nearest node around it that has one (`Cursor.climb?`). Both leave fewer
nodes ahead of the cursor (`remaining`).
-/

namespace CorpusMark

namespace Tree

mutual

/-- Number of nodes. -/
def size : Tree → Nat
  | .node _ ts => sizeAll ts + 1

/-- Number of nodes of the trees of a list. -/
def sizeAll : List Tree → Nat
  | [] => 0
  | t :: ts => size t + sizeAll ts

end

theorem size_pos (t : Tree) : 0 < t.size := by
  cases t
  rw [size]
  omega

end Tree

/-- A place in a tree. -/
structure Cursor where
  /-- The node at which the cursor stands, with everything below it. -/
  focus : Tree
  /-- The siblings that come after it. -/
  later : List Tree
  /-- The ancestors, nearest first, each with the siblings that come after it. -/
  above : List (Tree × List Tree)

namespace Cursor

/-- The cursor at the root of a tree. -/
def ofTree (t : Tree) : Cursor := ⟨t, [], []⟩

/-! ## Moves -/

/-- The cursor at the first child. -/
def firstChild? (c : Cursor) : Option Cursor :=
  match c.focus.children with
  | [] => none
  | t :: ts => some ⟨t, ts, (c.focus, c.later) :: c.above⟩

/-- The cursor at the next sibling. -/
def nextSibling? (c : Cursor) : Option Cursor :=
  match c.later with
  | [] => none
  | t :: ts => some ⟨t, ts, c.above⟩

/-- The cursor at the parent. -/
def parent? (c : Cursor) : Option Cursor :=
  match c.above with
  | [] => none
  | (t, later) :: above => some ⟨t, later, above⟩

theorem length_above_of_parent? {c up : Cursor} (h : c.parent? = some up) :
    up.above.length < c.above.length := by
  unfold parent? at h
  split at h
  · cases h
  · rename_i heq
    cases h
    rw [heq]
    exact Nat.lt_succ_self _

/-- The first node behind everything below the cursor, none at the end of the tree: the next
sibling if there is one, else what comes behind the parent. What is kept for each ancestor, the
nearest first, is dropped for those that are left. -/
def climb? {α : Type} (c : Cursor) (ancestors : List α) : Option (Cursor × List α) :=
  match c.nextSibling? with
  | some next => some (next, ancestors)
  | none =>
    match _h : c.parent? with
    | some up => climb? up ancestors.tail
    | none => none
termination_by c.above.length
decreasing_by exact length_above_of_parent? _h

section Climb

variable {α : Type} {c next up : Cursor} {ancestors : List α}

theorem climb?_of_nextSibling? (h : c.nextSibling? = some next) :
    c.climb? ancestors = some (next, ancestors) := by
  rw [climb?, h]

theorem climb?_of_parent? (hlast : c.nextSibling? = none) (h : c.parent? = some up) :
    c.climb? ancestors = up.climb? ancestors.tail := by
  rw [climb?, hlast]
  dsimp only
  split
  · rename_i heq
    rw [h] at heq
    cases heq
    rfl
  · rename_i heq
    rw [h] at heq
    cases heq

theorem climb?_of_root (hlast : c.nextSibling? = none) (h : c.parent? = none) :
    c.climb? ancestors = none := by
  rw [climb?, hlast]
  dsimp only
  split
  · rename_i heq
    rw [h] at heq
    cases heq
  · rfl

end Climb

/-! ## What lies ahead -/

/-- Number of nodes in the later siblings of ancestors. -/
def behindAll : List (Tree × List Tree) → Nat
  | [] => 0
  | (_, later) :: above => Tree.sizeAll later + behindAll above

/-- Number of nodes behind everything below the cursor. -/
def behind (c : Cursor) : Nat :=
  Tree.sizeAll c.later + behindAll c.above

/-- Number of nodes from the cursor on. -/
def remaining (c : Cursor) : Nat :=
  c.focus.size + c.behind

theorem remaining_of_firstChild? {c child : Cursor} (h : c.firstChild? = some child) :
    child.remaining + 1 = c.remaining := by
  obtain ⟨⟨label, ts⟩, later, above⟩ := c
  cases ts with
  | nil => cases h
  | cons t ts =>
    cases h
    simp only [remaining, behind, behindAll, Tree.size, Tree.sizeAll]
    omega

theorem remaining_of_nextSibling? {c next : Cursor} (h : c.nextSibling? = some next) :
    next.remaining = c.behind := by
  obtain ⟨focus, later, above⟩ := c
  cases later with
  | nil => cases h
  | cons t ts =>
    cases h
    simp only [remaining, behind, Tree.sizeAll, Nat.add_assoc]

theorem behind_of_parent? {c up : Cursor} (hlast : c.nextSibling? = none)
    (h : c.parent? = some up) : up.behind = c.behind := by
  obtain ⟨focus, later, above⟩ := c
  cases later with
  | cons t ts => cases hlast
  | nil =>
    cases above with
    | nil => cases h
    | cons level above =>
      cases h
      simp only [behind, behindAll, Tree.sizeAll, Nat.zero_add]

theorem remaining_of_climb? {α : Type} {c next : Cursor} {ancestors left : List α}
    (h : c.climb? ancestors = some (next, left)) : next.remaining = c.behind := by
  -- along the climb; leaving a last child keeps the number of nodes behind it
  induction c, ancestors using climb?.induct with
  | case1 c ancestors sibling hsibling =>
    rw [climb?_of_nextSibling? hsibling] at h
    cases h
    exact remaining_of_nextSibling? hsibling
  | case2 c ancestors hlast up hup ih =>
    rw [climb?_of_parent? hlast hup] at h
    rw [← behind_of_parent? hlast hup]
    exact ih h
  | case3 c ancestors hlast hroot =>
    rw [climb?_of_root hlast hroot] at h
    cases h

theorem remaining_lt_of_climb? {α : Type} {c next : Cursor} {ancestors left : List α}
    (h : c.climb? ancestors = some (next, left)) : next.remaining < c.remaining := by
  rw [remaining_of_climb? h, remaining]
  have := c.focus.size_pos
  omega

end Cursor

end CorpusMark
