import CorpusMark.Json.Fields
import CorpusMark.Tree.Basic

/-!
# Trees by rows

A tree can be given by its nodes in pre-order, each with its depth. `Tree.ofRows?` puts the rows
together from the last one on: a row takes the trees behind it that lie deeper for its children.
In JSON a row is an array of depth, kind, field, start, end and flags.
-/

namespace CorpusMark

open Json (Value)

/-- A node of a tree with its depth. -/
structure Row where
  depth : Nat
  label : Label
deriving DecidableEq, Repr

namespace Row

/-- Whether a flag is among flags that have been added up. -/
def hasFlag (flags flag : Nat) : Bool :=
  flags / flag % 2 = 1

/-- Reads a row. The flags are 1 for more than a token, 2 for text that does not fit the grammar
and 4 for a missing node; an empty field is none. -/
def ofJson? : Value → Option Row
  | .array [depth, kind, field, start, stop, flags] => do
    let field ← field.text?
    let flags ← flags.nat?
    some ⟨← depth.nat?, {
      kind := ← kind.text?
      field := if field.isEmpty then none else some field
      span := ⟨← start.nat?, ← stop.nat?⟩
      isNamed := hasFlag flags 1
      isError := hasFlag flags 2
      isMissing := hasFlag flags 4 }⟩
  | _ => none

/-- Puts a row in front of trees, each given with its depth. -/
def add (row : Row) (behind : List (Nat × Tree)) : List (Nat × Tree) :=
  let deeper (t : Nat × Tree) : Bool := row.depth < t.1
  (row.depth, .node row.label ((behind.takeWhile deeper).map Prod.snd)) ::
    behind.dropWhile deeper

end Row

namespace Tree

/-- The tree of rows in pre-order; none if they make up more than one tree. -/
def ofRows? (rows : List Row) : Option Tree :=
  match rows.foldr Row.add [] with
  | [(_, t)] => some t
  | _ => none

/-- Reads a tree from the array of its rows. -/
def ofJson? (v : Value) : Option Tree := do
  ofRows? (← Value.listOf? Row.ofJson? v)

end Tree

end CorpusMark
