import CorpusMark.Proofs.Descent
import CorpusMark.Transform.Java
import CorpusMark.Transform.Python

/-!
# Chains of nodes

Two questions about an expression are answered by a walk along a chain of nodes:
whether it is a plain reference and whether it is a primitive literal. At each
node the walk stops with an answer or goes on at a child. In the arena of a tree
a child comes behind its parent, so a walk is over before the nodes are used up,
and it lies one level deeper, so a walk is over before the levels are.

- `Node.walk`: the turns of a walk one by one, as many as are allowed.
- `Node.walk_eq_some`: a walk on which a measure falls at every turn stops.
- `Node.Ends`, `Node.Descends.ends`: a walk to children ends in the arena of a
  tree, and how soon.
- `Python.PlainReference`, `Java.PrimitiveLiteral`: the chains that are looked
  for. `chains_decided` says that the walks end and find just these.
-/

namespace CorpusMark

namespace Node

/-! ## Walks -/

/-- What a walk does at a node. -/
inductive Turn where
  | goOn (next : Node)
  | stop (answer : Bool)

namespace Turn

/-- Goes on at a node, if there is one, and stops in vain otherwise. -/
def goOn? : Option Node → Turn
  | some next => goOn next
  | none => stop false

theorem goOn?_eq_goOn_iff {next? : Option Node} {next : Node} :
    goOn? next? = goOn next ↔ next? = some next := by
  cases next? <;> simp [goOn?]

/-- The answer that a turn leads to, `answer` being the one of the node to go on at. -/
def settle (answer : Node → Bool) : Turn → Bool
  | goOn next => answer next
  | stop answer => answer

end Turn

/-- The answer of a walk that stops within a number of turns. -/
def walk (turn : Node → Turn) : Nat → Node → Option Bool
  | 0, _ => none
  | turns + 1, n =>
    match turn n with
    | .goOn next => walk turn turns next
    | .stop answer => some answer

section Walk

variable {turn : Node → Turn} {answer : Node → Bool}

/-- A walk that keeps to nodes of some kind, with a measure that falls at each
turn, stops with the answer that every turn leads to. -/
theorem walk_eq_some (hanswer : ∀ n, answer n = (turn n).settle answer)
    (P : Node → Prop) (measure : Node → Nat)
    (hstep : ∀ n next, P n → turn n = .goOn next → P next ∧ measure next < measure n)
    {turns : Nat} {n : Node} (hn : P n) (hturns : measure n < turns) :
    walk turn turns n = some (answer n) := by
  induction turns generalizing n with
  | zero => omega
  | succ turns ih =>
    rw [walk, hanswer]
    cases hturn : turn n with
    | goOn next =>
      obtain ⟨hnext, hlt⟩ := hstep n next hn hturn
      exact ih hnext (by omega)
    | stop answer => rfl

/-- The walk goes on at children only. -/
def Descends (turn : Node → Turn) : Prop :=
  ∀ n next, turn n = .goOn next → next ∈ n.children

/-- A walk stops with an answer. Each turn that does not stop goes to a child,
behind the node and one level deeper, so there are no more turns than nodes from
the first one on, and no more than levels from its own down to the limit. -/
structure Ends (turn : Node → Turn) (limit : Nat) (n : Node) (answer : Bool) : Prop where
  step : ∀ next, turn n = .goOn next →
    next ∈ n.children ∧ n.id < next.id ∧ next.depth = n.depth + 1
  within_following : ∀ turns, n.following ≤ turns → walk turn turns n = some answer
  within_limit : ∀ turns, limit < n.depth + turns → walk turn turns n = some answer

theorem following_pos (n : Node) : 0 < n.following :=
  Nat.sub_pos_of_lt n.valid

/-- **A walk to children ends** in the arena of a tree. -/
theorem Descends.ends (hdescends : Descends turn)
    (hanswer : ∀ n, answer n = (turn n).settle answer)
    {limit : Nat} {source : String} {t : Tree} {a : Arena}
    (h : Arena.ofTree limit source t = .ok a) {n : Node} (hn : n.arena = a) :
    Ends turn limit n (answer n) := by
  have hlinked := Arena.linked_of_ofTree h
  have hdepth : ∀ m next : Node, m.arena = a → turn m = .goOn next →
      next.depth = m.depth + 1 := fun m next hm hturn =>
    depth_of_mem_children (by rwa [hm]) (hdescends m next hturn)
  constructor
  case step =>
    intro next hturn
    have hchild := hdescends n next hturn
    exact ⟨hchild, id_lt_of_mem_children hchild, hdepth n next hn hturn⟩
  case within_following =>
    intro turns hturns
    -- every turn leaves fewer nodes to come
    have hpos := following_pos n
    refine walk_eq_some hanswer (fun _ => True) (fun m => m.following - 1)
      (fun m next _ hturn => ⟨trivial, ?_⟩) trivial (by omega)
    have hlt := following_lt_of_mem_children (hdescends m next hturn)
    have hnext := following_pos next
    omega
  case within_limit =>
    intro turns hturns
    -- every turn leaves fewer levels down to the limit
    have hle := Arena.depth_le_of_ofTree h hn
    refine walk_eq_some hanswer (fun m => m.arena = a) (fun m => limit - m.depth)
      (fun m next hm hturn => ?_) hn (by omega)
    have harena : next.arena = a := (arena_of_mem_children (hdescends m next hturn)).trans hm
    have hdeeper := hdepth m next hm hturn
    have hbound := Arena.depth_le_of_ofTree h harena
    exact ⟨harena, by omega⟩

end Walk

end Node

namespace Transform

/-! ## Plain references -/

namespace Python

/-- An identifier, or an attribute of a plain reference. -/
inductive PlainReference : Node → Prop where
  | identifier {n : Node} (hkind : n.kind = .identifier) : PlainReference n
  | access {n object : Node} (hkind : n.kind = .attributeAccess)
      (hobject : n.child? "object" = some object) (h : PlainReference object) :
      PlainReference n

/-- What is done at one node of a reference. -/
def referenceTurn (n : Node) : Node.Turn :=
  match n.kind with
  | .identifier => .stop true
  | .attributeAccess => .goOn? (n.child? "object")
  | _ => .stop false

theorem isPlainReference_eq (n : Node) :
    isPlainReference n = (referenceTurn n).settle isPlainReference := by
  rw [isPlainReference, referenceTurn]
  generalize n.kind = kind
  split
  · rfl
  · cases n.child? "object" <;> rfl
  · simp [Node.Turn.settle]

theorem descends_referenceTurn : Node.Descends referenceTurn := by
  intro n next h
  unfold referenceTurn at h
  split at h
  · cases h
  · exact Node.mem_children_of_child? (Node.Turn.goOn?_eq_goOn_iff.mp h)
  · cases h

theorem isPlainReference_iff {n : Node} : isPlainReference n = true ↔ PlainReference n := by
  constructor
  · intro h
    -- along the walk, whose end decides
    induction n using isPlainReference.induct with
    | case1 n hkind => exact .identifier hkind
    | case2 n hkind object hobject ih =>
      rw [isPlainReference_eq, referenceTurn, hkind, hobject] at h
      exact .access hkind hobject (ih h)
    | case3 n hkind hobject =>
      rw [isPlainReference_eq, referenceTurn, hkind, hobject] at h
      cases h
    | case4 n hidentifier hattribute =>
      simp only [isPlainReference_eq, referenceTurn, Node.Turn.settle, Bool.false_eq_true] at h
  · intro h
    induction h with
    | identifier hkind => rw [isPlainReference_eq, referenceTurn, hkind, Node.Turn.settle]
    | access hkind hobject _ ih =>
      rw [isPlainReference_eq, referenceTurn, hkind, hobject]
      exact ih

end Python

/-! ## Primitive literals -/

namespace Java

/-- The kinds of the literals of characters, numbers and truth values, in the words
of the grammar. -/
def literalKinds : List String :=
  ["character_literal", "decimal_integer_literal", "hex_integer_literal", "octal_integer_literal",
    "binary_integer_literal", "decimal_floating_point_literal", "hex_floating_point_literal",
    "true", "false"]

theorem mem_literalKinds_of_kind {n : Node}
    (h : n.kind ∈ [NodeKind.characterLiteral, .decimalIntegerLiteral, .trueLiteral,
      .falseLiteral]) : n.grammarKind ∈ literalKinds := by
  rw [Node.kind] at h
  generalize n.grammarKind = name at h ⊢
  unfold NodeKind.ofGrammar at h
  split at h <;> simp [literalKinds] at h ⊢

/-- A literal under any unary operators and parentheses. -/
inductive PrimitiveLiteral : Node → Prop where
  | literal {n : Node} (hkind : n.grammarKind ∈ literalKinds) : PrimitiveLiteral n
  | operation {n operand : Node} (hkind : n.kind = .unaryExpression)
      (hoperand : n.child? "operand" = some operand) (h : PrimitiveLiteral operand) :
      PrimitiveLiteral n
  | parenthesized {n inner : Node} (hkind : n.kind = .parenthesizedExpression)
      (hinner : n.firstSignificant? = some inner) (h : PrimitiveLiteral inner) :
      PrimitiveLiteral n

/-- What is done at one node on the way to a literal. -/
def literalTurn (n : Node) : Node.Turn :=
  match n.kind with
  | .characterLiteral | .decimalIntegerLiteral | .trueLiteral | .falseLiteral => .stop true
  | .unaryExpression => .goOn? (n.child? "operand")
  | .parenthesizedExpression => .goOn? n.firstSignificant?
  | _ =>
    .stop <| ["hex_integer_literal", "octal_integer_literal", "binary_integer_literal",
      "decimal_floating_point_literal", "hex_floating_point_literal"].contains n.grammarKind

theorem isPrimitiveLiteral_eq (n : Node) :
    isPrimitiveLiteral n = (literalTurn n).settle isPrimitiveLiteral := by
  rw [isPrimitiveLiteral, literalTurn]
  generalize n.kind = kind
  split
  · rfl
  · rfl
  · rfl
  · rfl
  · cases n.child? "operand" <;> rfl
  · cases n.firstSignificant? <;> rfl
  · simp [Node.Turn.settle]

theorem descends_literalTurn : Node.Descends literalTurn := by
  intro n next h
  unfold literalTurn at h
  split at h
  case h_5 => exact Node.mem_children_of_child? (Node.Turn.goOn?_eq_goOn_iff.mp h)
  case h_6 => exact Node.mem_children_of_firstSignificant? (Node.Turn.goOn?_eq_goOn_iff.mp h)
  all_goals cases h

theorem literalTurn_of_mem_literalKinds {n : Node} (h : n.grammarKind ∈ literalKinds) :
    literalTurn n = .stop true := by
  unfold literalTurn Node.kind
  simp only [literalKinds, List.mem_cons, List.not_mem_nil, or_false] at h
  rcases h with h | h | h | h | h | h | h | h | h <;> rw [h] <;> rfl

theorem isPrimitiveLiteral_iff {n : Node} :
    isPrimitiveLiteral n = true ↔ PrimitiveLiteral n := by
  constructor
  · intro h
    induction n using isPrimitiveLiteral.induct with
    | case1 n hkind => exact .literal (mem_literalKinds_of_kind (by simp [hkind]))
    | case2 n hkind => exact .literal (mem_literalKinds_of_kind (by simp [hkind]))
    | case3 n hkind => exact .literal (mem_literalKinds_of_kind (by simp [hkind]))
    | case4 n hkind => exact .literal (mem_literalKinds_of_kind (by simp [hkind]))
    | case5 n hkind operand hoperand ih =>
      rw [isPrimitiveLiteral_eq, literalTurn, hkind, hoperand] at h
      exact .operation hkind hoperand (ih h)
    | case6 n hkind hoperand =>
      rw [isPrimitiveLiteral_eq, literalTurn, hkind, hoperand] at h
      cases h
    | case7 n hkind inner hinner ih =>
      rw [isPrimitiveLiteral_eq, literalTurn, hkind, hinner] at h
      exact .parenthesized hkind hinner (ih h)
    | case8 n hkind hinner =>
      rw [isPrimitiveLiteral_eq, literalTurn, hkind, hinner] at h
      cases h
    | case9 n =>
      -- the kinds of literals that the library does not tell apart from other nodes
      refine .literal ?_
      simp only [isPrimitiveLiteral_eq, literalTurn, Node.Turn.settle, List.contains_eq_mem,
        List.mem_cons, List.not_mem_nil, or_false, decide_eq_true_eq] at h
      rcases h with h | h | h | h | h <;> simp [literalKinds, h]
  · intro h
    induction h with
    | literal hkind =>
      rw [isPrimitiveLiteral_eq, literalTurn_of_mem_literalKinds hkind, Node.Turn.settle]
    | operation hkind hoperand _ ih =>
      rw [isPrimitiveLiteral_eq, literalTurn, hkind, hoperand]
      exact ih
    | parenthesized hkind hinner _ ih =>
      rw [isPrimitiveLiteral_eq, literalTurn, hkind, hinner]
      exact ih

end Java

/-- **Both chains are followed to their end.** In the arena of a tree each turn
goes on at a child, behind the node, so both walks stop, and what they answer
is whether the node is a plain reference and whether it is a primitive literal. -/
theorem chains_decided {limit : Nat} {source : String} {t : Tree} {a : Arena}
    (h : Arena.ofTree limit source t = .ok a) {n : Node} (hn : n.arena = a) :
    (Node.Ends Python.referenceTurn limit n (Python.isPlainReference n) ∧
      (Python.isPlainReference n = true ↔ Python.PlainReference n)) ∧
    (Node.Ends Java.literalTurn limit n (Java.isPrimitiveLiteral n) ∧
      (Java.isPrimitiveLiteral n = true ↔ Java.PrimitiveLiteral n)) := by
  refine ⟨⟨?_, Python.isPlainReference_iff⟩, ?_, Java.isPrimitiveLiteral_iff⟩
  · exact Python.descends_referenceTurn.ends Python.isPlainReference_eq h hn
  · exact Java.descends_literalTurn.ends Java.isPrimitiveLiteral_eq h hn

/-- The tree of `a.b.c`. -/
def attributeChain : Tree :=
  let leaf (kind : String) (field : Option String) (isNamed : Bool) (start : Nat) : Tree :=
    .node ⟨kind, field, ⟨start, start + 1⟩, isNamed, false, false⟩ []
  .node ⟨"attribute", none, ⟨0, 5⟩, true, false, false⟩
    [.node ⟨"attribute", some "object", ⟨0, 3⟩, true, false, false⟩
      [leaf "identifier" (some "object") true 0, leaf "." none false 1,
        leaf "identifier" (some "attribute") true 2],
      leaf "." none false 3, leaf "identifier" (some "attribute") true 4]

/-- The tree of `-(+1)`. -/
def signedNumber : Tree :=
  let leaf (kind : String) (field : Option String) (isNamed : Bool) (start : Nat) : Tree :=
    .node ⟨kind, field, ⟨start, start + 1⟩, isNamed, false, false⟩ []
  .node ⟨"unary_expression", none, ⟨0, 5⟩, true, false, false⟩
    [leaf "-" (some "operator") false 0,
      .node ⟨"parenthesized_expression", some "operand", ⟨1, 5⟩, true, false, false⟩
        [leaf "(" none false 1,
          .node ⟨"unary_expression", none, ⟨2, 4⟩, true, false, false⟩
            [leaf "+" (some "operator") false 2,
              leaf "decimal_integer_literal" (some "operand") true 3],
          leaf ")" none false 4]]

/-- Three turns are enough for `a.b.c` and four for `-(+1)`, as many as the trees have
levels. -/
theorem chains_decided_references :
    (∃ a, Arena.ofTree 2 "a.b.c" attributeChain = .ok a ∧ ∃ n ∈ a.nodes, n.id = 0 ∧
      Node.walk Python.referenceTurn 3 n = some true ∧
      Python.isPlainReference n = true ∧ Python.PlainReference n) ∧
    ∃ a, Arena.ofTree 3 "-(+1)" signedNumber = .ok a ∧ ∃ n ∈ a.nodes, n.id = 0 ∧
      Node.walk Java.literalTurn 4 n = some true ∧
      Java.isPrimitiveLiteral n = true ∧ Java.PrimitiveLiteral n := by
  constructor
  · obtain ⟨a, hok, n, hn, hid, hdepth, hwalk⟩ : ∃ a,
        Arena.ofTree 2 "a.b.c" attributeChain = .ok a ∧ ∃ n ∈ a.nodes, n.id = 0 ∧ n.depth = 0 ∧
          Node.walk Python.referenceTurn 3 n = some true := by
      refine ⟨_, (Arena.ofTree_eq_addTree ..).trans rfl, ?_⟩
      decide +kernel
    obtain ⟨⟨hends, hiff⟩, -⟩ := chains_decided hok (Arena.mem_nodes_iff.mp hn)
    have hanswer := Option.some.inj ((hends.within_limit 3 (by omega)).symm.trans hwalk)
    exact ⟨a, hok, n, hn, hid, hwalk, hanswer, hiff.mp hanswer⟩
  · obtain ⟨a, hok, n, hn, hid, hdepth, hwalk⟩ : ∃ a,
        Arena.ofTree 3 "-(+1)" signedNumber = .ok a ∧ ∃ n ∈ a.nodes, n.id = 0 ∧ n.depth = 0 ∧
          Node.walk Java.literalTurn 4 n = some true := by
      refine ⟨_, (Arena.ofTree_eq_addTree ..).trans rfl, ?_⟩
      decide +kernel
    obtain ⟨-, hends, hiff⟩ := chains_decided hok (Arena.mem_nodes_iff.mp hn)
    have hanswer := Option.some.inj ((hends.within_limit 4 (by omega)).symm.trans hwalk)
    exact ⟨a, hok, n, hn, hid, hwalk, hanswer, hiff.mp hanswer⟩

end Transform

end CorpusMark
