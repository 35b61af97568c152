import CorpusMark.Error
import CorpusMark.Tree.Cursor
import CorpusMark.Tree.Kind

/-!
# Arenas

The nodes of one syntax tree in pre-order, linked by their indices. Pre-order puts every node
behind its parent, and the type keeps that: children have greater indices than their parent, so
every walk from parent to child ends. `Arena.ofTree` moves a cursor through a tree, copies the nodes
it comes to and stops at the first one that lies too deep. The indices of the nodes above the cursor
are kept on a stack: its top is the parent of the next node and its height the depth. Two counters
go along, of faults and of the greatest depth so far; the type keeps them true to the nodes.
-/

namespace CorpusMark

/-- A node in an arena. -/
structure Entry where
  label : Label
  /-- Distance from the root. -/
  depth : Nat
  parent : Option Nat
  children : Array Nat
deriving Repr

/-- The nodes of a syntax tree in pre-order, with the source text they cover. -/
structure Arena where
  source : String
  entries : Array Entry
  /-- Number of nodes that mark places where the text does not fit the grammar. -/
  faultCount : Nat
  /-- Depth of the deepest node. -/
  maxDepth : Nat
  child_later : ∀ (i : Nat) (h : i < entries.size), ∀ c ∈ entries[i].children,
    i < c ∧ c < entries.size
  parent_earlier : ∀ (i : Nat) (h : i < entries.size), ∀ p ∈ entries[i].parent, p < i
  faults_counted : faultCount = (entries.toList.map Entry.label).countP Label.isFault
  depths_compared : maxDepth = (entries.toList.map Entry.depth).foldl max 0

namespace Arena

/-- Number of nodes. -/
def size (a : Arena) : Nat := a.entries.size

/-- The arena without nodes. -/
def empty (source : String) : Arena where
  source := source
  entries := #[]
  faultCount := 0
  maxDepth := 0
  child_later := by simp
  parent_earlier := by simp
  faults_counted := rfl
  depths_compared := rfl

/-- Hangs a child under a node. -/
def link (entries : Array Entry) (parent : Option Nat) (child : Nat) : Array Entry :=
  match parent with
  | none => entries
  | some p => entries.modify p fun e => { e with children := e.children.push child }

@[simp] theorem size_link (entries : Array Entry) (parent : Option Nat) (child : Nat) :
    (link entries parent child).size = entries.size := by
  cases parent <;> simp [link]

theorem parent_link {entries : Array Entry} {parent : Option Nat} {child i : Nat}
    (h : i < (link entries parent child).size) :
    (link entries parent child)[i].parent =
      entries[Fin.mk i (by simpa using h)].parent := by
  cases parent with
  | none => rfl
  | some p =>
    simp only [link, Array.getElem_modify]
    split <;> rfl

theorem mem_children_link {entries : Array Entry} {parent : Option Nat} {child i c : Nat}
    (h : i < (link entries parent child).size)
    (hc : c ∈ (link entries parent child)[i].children) :
    c ∈ entries[Fin.mk i (by simpa using h)].children ∨ (c = child ∧ parent = some i) := by
  cases parent with
  | none => exact Or.inl hc
  | some p =>
    simp only [link, Array.getElem_modify] at hc
    split at hc
    · rename_i hp
      simp only [Array.mem_push] at hc
      exact hc.imp_right fun hc => ⟨hc, by rw [hp]⟩
    · exact Or.inl hc

/-- Hanging a child under a node changes nothing but the children of that node. -/
theorem map_toList_link {α : Type} {f : Entry → α}
    (hf : ∀ (e : Entry) (cs : Array Nat), f { e with children := cs } = f e)
    (entries : Array Entry) (parent : Option Nat) (child : Nat) :
    (link entries parent child).toList.map f = entries.toList.map f := by
  refine List.ext_getElem (by simp) fun i h _ => ?_
  cases parent with
  | none => rfl
  | some p =>
    simp only [link, List.getElem_map, Array.getElem_toList, Array.getElem_modify]
    split
    · exact hf _ _
    · rfl

/-- Appends a node under an earlier one. -/
def add (a : Arena) (parent : Option Nat) (depth : Nat) (label : Label) : Arena where
  source := a.source
  entries := (link a.entries parent a.entries.size).push
    { label := label
      depth := depth
      parent := parent.filter (· < a.entries.size)
      children := #[] }
  faultCount := if label.isFault then a.faultCount + 1 else a.faultCount
  maxDepth := max a.maxDepth depth
  child_later := by
    intro i h c hc
    rw [Array.getElem_push] at hc
    simp only [Array.size_push, size_link] at h hc ⊢
    by_cases hi : i < a.entries.size
    · rw [dif_pos (by simpa using hi)] at hc
      rcases mem_children_link (by simpa using hi) hc with hc | ⟨rfl, -⟩
      · have := a.child_later i hi c hc
        omega
      · omega
    · rw [dif_neg (by simpa using hi)] at hc
      simp at hc
  parent_earlier := by
    intro i h p hp
    rw [Array.getElem_push] at hp
    simp only [Array.size_push, size_link] at h hp
    by_cases hi : i < a.entries.size
    · rw [dif_pos (by simpa using hi), parent_link (by simpa using hi)] at hp
      exact a.parent_earlier i hi p hp
    · rw [dif_neg (by simpa using hi)] at hp
      simp only [Option.mem_def, Option.filter_eq_some_iff, decide_eq_true_eq] at hp
      omega
  faults_counted := by
    rw [Array.toList_push, List.map_append, map_toList_link fun _ _ => rfl, List.countP_append,
      ← a.faults_counted, List.map_singleton, List.countP_singleton]
    split <;> rfl
  depths_compared := by
    rw [Array.toList_push, List.map_append, map_toList_link fun _ _ => rfl, List.foldl_append,
      ← a.depths_compared]
    rfl

@[simp] theorem source_add (a : Arena) (parent : Option Nat) (depth : Nat) (label : Label) :
    (a.add parent depth label).source = a.source := rfl

@[simp] theorem size_add (a : Arena) (parent : Option Nat) (depth : Nat) (label : Label) :
    (a.add parent depth label).size = a.size + 1 := by
  simp [add, size]

/-- Appends the nodes from a cursor on, in pre-order, unless one of them lies deeper than `limit`.
The ancestors of the node at the cursor are given by their indices, nearest first. -/
def copyFrom (limit : Nat) (a : Arena) (c : Cursor) (ancestors : List Nat) :
    Except ParseError Arena :=
  if limit < ancestors.length then .error (.tooDeep limit)
  else
    let copied := a.add ancestors.head? ancestors.length c.focus.label
    match _h : c.firstChild? with
    | some child => copyFrom limit copied child (a.size :: ancestors)
    | none =>
      match _h' : c.climb? ancestors with
      | some (next, left) => copyFrom limit copied next left
      | none => .ok copied
termination_by c.remaining
decreasing_by
  · have := Cursor.remaining_of_firstChild? _h
    omega
  · exact Cursor.remaining_lt_of_climb? _h'

/-- The arena of the tree of a source text. -/
def ofTree (limit : Nat) (source : String) (t : Tree) : Except ParseError Arena :=
  copyFrom limit (empty source) (Cursor.ofTree t) []

end Arena

end CorpusMark
