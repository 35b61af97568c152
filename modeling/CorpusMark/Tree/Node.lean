import CorpusMark.Text.Slice
import CorpusMark.Tree.Arena

/-!
# Nodes in their tree

A node together with the arena it lives in, and what transforms ask about it: its text, its
relatives, its tokens and the comments below it. Going from a node to a child lowers the number
of nodes that follow (`following`), the measure for recursion along children.
-/

namespace CorpusMark

/-- A node of an arena. -/
structure Node where
  arena : Arena
  id : Nat
  valid : id < arena.entries.size

namespace Arena

/-- The node at an index. -/
def node? (a : Arena) (id : Nat) : Option Node :=
  if h : id < a.entries.size then some ⟨a, id, h⟩ else none

/-- All nodes in pre-order. -/
def nodes (a : Arena) : List Node :=
  List.ofFn fun i : Fin a.entries.size => ⟨a, i, i.isLt⟩

end Arena

namespace Node

def entry (n : Node) : Entry :=
  n.arena.entries[Fin.mk n.id n.valid]

/-- Kind in the words of the grammar. -/
def grammarKind (n : Node) : String := n.entry.label.kind

def kind (n : Node) : NodeKind := NodeKind.ofGrammar n.grammarKind

def span (n : Node) : Span := n.entry.label.span

/-- Field of the parent that the node fills. -/
def field (n : Node) : Option String := n.entry.label.field

def isNamed (n : Node) : Bool := n.entry.label.isNamed

def depth (n : Node) : Nat := n.entry.depth

/-- Place of the first byte. -/
def position (n : Node) : Position :=
  Position.ofOffset n.arena.source n.span.start

/-- The source text that the node covers, empty if its range is no range of the source. -/
def text (n : Node) : String :=
  (Text.slice? n.arena.source n.span.start n.span.stop).getD ""

/-! ## Relatives -/

def parent? (n : Node) : Option Node :=
  n.entry.parent.pmap
    (fun p h => ⟨n.arena, p, Nat.lt_trans (n.arena.parent_earlier n.id n.valid p h) n.valid⟩)
    (fun _ h => h)

/-- All children in source order, tokens included. -/
def children (n : Node) : List Node :=
  n.entry.children.toList.pmap
    (fun c h => ⟨n.arena, c, (n.arena.child_later n.id n.valid c h).2⟩)
    (fun _ h => Array.mem_toList_iff.1 h)

/-- The named children other than comments. -/
def significantChildren (n : Node) : List Node :=
  n.children.filter fun c => c.isNamed && c.kind != .comment

def significantCount (n : Node) : Nat :=
  n.significantChildren.length

def firstSignificant? (n : Node) : Option Node :=
  n.significantChildren.head?

/-- The first child that fills a field. -/
def child? (n : Node) (field : String) : Option Node :=
  n.children.find? fun c => c.field == some field

/-- Whether some child is the given token. -/
def hasToken (n : Node) (token : String) : Bool :=
  n.children.any fun c => !c.isNamed && c.grammarKind == token

/-- Whether there is a comment anywhere below the node. The nodes below it are the run of deeper
ones that follows it in pre-order. -/
def containsComment (n : Node) : Bool :=
  ((n.arena.entries.toList.drop (n.id + 1)).takeWhile fun e => n.depth < e.depth).any
    fun e => NodeKind.ofGrammar e.label.kind == .comment

/-! ## Descent -/

/-- Number of nodes from this one on in pre-order. -/
def following (n : Node) : Nat :=
  n.arena.entries.size - n.id

theorem following_lt_of_mem_children {n c : Node} (h : c ∈ n.children) :
    c.following < n.following := by
  simp only [children, List.mem_pmap] at h
  obtain ⟨i, hi, rfl⟩ := h
  have := n.arena.child_later n.id n.valid i (by simpa [entry] using hi)
  simp only [following]
  omega

theorem following_lt_of_child? {n c : Node} {field : String} (h : n.child? field = some c) :
    c.following < n.following :=
  following_lt_of_mem_children (List.mem_of_find?_eq_some h)

theorem following_lt_of_firstSignificant? {n c : Node} (h : n.firstSignificant? = some c) :
    c.following < n.following :=
  following_lt_of_mem_children ((List.mem_filter.1 (List.mem_of_mem_head? h)).1)

end Node

end CorpusMark
