import CorpusMark.Proofs.Attempts
import CorpusMark.Tree.Arena

/-!
# Copies by recursion

`Arena.ofTree` goes through a tree with a cursor and a stack of ancestors. The
same copy can be made by recursion on the tree, which is what proofs want:
`addTree` appends a node and then, under it, its children one after the other.
The two agree (`ofTree_eq_addTree`), since from wherever the cursor stands the
loop first copies what is below the cursor, as the recursion does, and then
goes on at the place to which it climbs, with the stack it had
(`copyFrom_eq_addTree`).
-/

namespace CorpusMark

namespace Arena

mutual

/-- Appends a tree under a node, unless a node of it lies deeper than `limit`. -/
def addTree (limit : Nat) (a : Arena) (parent : Option Nat) (depth : Nat) :
    Tree → Except ParseError Arena
  | .node label children =>
    if limit < depth then .error (.tooDeep limit)
    else addForest limit (a.add parent depth label) (some a.size) (depth + 1) children

/-- Appends the trees of a list, one after the other, under a node. -/
def addForest (limit : Nat) (a : Arena) (parent : Option Nat) (depth : Nat) :
    List Tree → Except ParseError Arena
  | [] => .ok a
  | t :: ts =>
    match addTree limit a parent depth t with
    | .error e => .error e
    | .ok a => addForest limit a parent depth ts

end

/-! ## Going on -/

/-- Copies what lies behind everything below a cursor. -/
def goOn (limit : Nat) (a : Arena) (c : Cursor) (ancestors : List Nat) :
    Except ParseError Arena :=
  match c.climb? ancestors with
  | some (next, left) => copyFrom limit a next left
  | none => .ok a

/-- Copies the children that are left of the node at a cursor, which has the
index `id`, and then what lies behind them. -/
def goOnBelow (limit : Nat) (a : Arena) (c : Cursor) (id : Nat) (ancestors : List Nat) :
    List Tree → Except ParseError Arena
  | [] => goOn limit a c ancestors
  | t :: ts => copyFrom limit a ⟨t, ts, (c.focus, c.later) :: c.above⟩ (id :: ancestors)

variable {limit : Nat} {a : Arena} {ancestors : List Nat}

/-- Behind a child come its later siblings and then what lies behind the parent. -/
theorem goOn_child (c : Cursor) (id : Nat) (t : Tree) :
    ∀ ts : List Tree,
      goOn limit a ⟨t, ts, (c.focus, c.later) :: c.above⟩ (id :: ancestors)
        = goOnBelow limit a c id ancestors ts
  | [] => by
    rw [goOn, Cursor.climb?_of_parent? rfl rfl, goOnBelow, goOn]
    rfl
  | t' :: ts => by
    rw [goOn, Cursor.climb?_of_nextSibling? rfl, goOnBelow]

/-- The loop copies the node at the cursor and goes on below it. -/
theorem copyFrom_node (label : Label) (ts later : List Tree) (above : List (Tree × List Tree)) :
    copyFrom limit a ⟨.node label ts, later, above⟩ ancestors
      = if limit < ancestors.length then .error (.tooDeep limit)
        else goOnBelow limit (a.add ancestors.head? ancestors.length label)
          ⟨.node label ts, later, above⟩ a.size ancestors ts := by
  rw [copyFrom]
  cases ts with
  | nil =>
    simp only [Cursor.firstChild?, Tree.children, Tree.label, goOnBelow, goOn]
    split_ifs
    · rfl
    · split <;> simp [*]
  | cons t ts => rfl

/-! ## Loop and recursion -/

mutual

/-- **The loop copies what is below the cursor as the recursion does**, and then
goes on with the stack it had. -/
theorem copyFrom_eq_addTree (limit : Nat) (a : Arena) (later : List Tree)
    (above : List (Tree × List Tree)) (ancestors : List Nat) :
    ∀ t : Tree, copyFrom limit a ⟨t, later, above⟩ ancestors
      = addTree limit a ancestors.head? ancestors.length t
        >>= fun a' => goOn limit a' ⟨t, later, above⟩ ancestors
  | .node label ts => by
    rw [copyFrom_node, addTree]
    split_ifs
    · rfl
    · exact goOnBelow_eq_addForest limit _ ⟨.node label ts, later, above⟩ a.size ancestors ts

/-- The loop copies the children that are left as the recursion does, and then
goes on behind their parent. -/
theorem goOnBelow_eq_addForest (limit : Nat) (a : Arena) (c : Cursor) (id : Nat)
    (ancestors : List Nat) :
    ∀ ts : List Tree, goOnBelow limit a c id ancestors ts
      = addForest limit a (some id) (ancestors.length + 1) ts
        >>= fun a' => goOn limit a' c ancestors
  | [] => by rw [goOnBelow, addForest, Attempts.bind_ok]
  | t :: ts => by
    rw [goOnBelow, copyFrom_eq_addTree limit a ts _ (id :: ancestors) t, addForest,
      List.head?_cons, List.length_cons]
    cases addTree limit a (some id) (ancestors.length + 1) t with
    | error e => rfl
    | ok a' =>
      -- behind the first child the rest of the list is left
      rw [Attempts.bind_ok, goOn_child]
      exact goOnBelow_eq_addForest limit a' c id ancestors ts

end

/-- **The loop makes the copy that the recursion makes.** -/
theorem ofTree_eq_addTree (limit : Nat) (source : String) (t : Tree) :
    ofTree limit source t = addTree limit (empty source) none 0 t := by
  have hend : ∀ a : Arena, goOn limit a (Cursor.ofTree t) [] = .ok a := by
    intro a
    rw [goOn, Cursor.climb?_of_root rfl rfl]
  have hloop := copyFrom_eq_addTree limit (empty source) [] [] [] t
  rw [ofTree, Cursor.ofTree, hloop]
  show addTree limit (empty source) none 0 t >>= (fun a => goOn limit a (Cursor.ofTree t) []) = _
  simp only [hend]
  cases addTree limit (empty source) none 0 t <;> rfl

end Arena

end CorpusMark
