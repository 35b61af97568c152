import CorpusMark.Span

/-!
# Ordered syntax trees

What a grammar makes of a source text: an ordered tree whose nodes carry the name of their kind,
the field of the parent they fill, and the bytes they cover. A grammar is any function from texts
to trees; nothing else about parsing enters the library.
-/

namespace CorpusMark

/-- What a grammar says about one node. -/
structure Label where
  /-- Kind in the words of the grammar; for an anonymous token its text. -/
  kind : String
  /-- Field of the parent that the node fills. -/
  field : Option String
  span : Span
  /-- Whether the node is more than a token. -/
  isNamed : Bool
  /-- Whether the node stands for text that does not fit the grammar. -/
  isError : Bool
  /-- Whether the node was put in where the grammar misses something. -/
  isMissing : Bool
deriving DecidableEq, Repr, Inhabited

namespace Label

/-- Whether a node marks a place where the text does not fit the grammar. -/
def isFault (l : Label) : Bool :=
  l.isError || l.isMissing

end Label

/-- An ordered tree of labels. -/
inductive Tree where
  | node (label : Label) (children : List Tree)
deriving Inhabited

/-- A grammar, as the trees it gives to texts. -/
abbrev Grammar := String → Tree

namespace Tree

def label : Tree → Label
  | node l _ => l

def children : Tree → List Tree
  | node _ ts => ts

end Tree

/-- A place in a text, both numbers counted from zero and columns in bytes. -/
structure Position where
  line : Nat
  column : Nat
deriving DecidableEq, Repr, Inhabited

namespace Position

/-- The place after one more byte. -/
def next (p : Position) (byte : UInt8) : Position :=
  if byte = 10 then ⟨p.line + 1, 0⟩ else ⟨p.line, p.column + 1⟩

/-- The place of a byte offset: the line feeds before it and the bytes since the last one. -/
def ofOffset (source : String) (offset : Nat) : Position :=
  (source.toUTF8.data.toList.take offset).foldl next ⟨0, 0⟩

end Position

end CorpusMark
