import CorpusMark.Proofs.Interference
import CorpusMark.Proofs.Rendering

/-!
# Comments in rewritten code

A trigger form is put together from the texts of some parts of a node, and
predicates refuse a node with a comment in a part that the rewrite takes to
pieces. A comment between the node's own tokens is in none of these parts. Two
predicates refuse it as well and two rewrites keep the whole text of the node.
The other transforms match, and the comment is gone.

- `Node.CommentsOccurIn`: the comments of a part are in a text, because the text
  of the part is (`commentsOccurIn_of_occurs`) or because there are none
  (`commentsOccurIn_of_uncommented`).
- `Transform.keptParts`: the parts of a match whose comments are kept, with one
  lemma for each transform that says so.
- `Transform.CommentedMatch`: for each of the other transforms a match whose
  comment is lost.
- `Transform.losesNone_iff`: the transforms that lose no comment are those that
  keep the comments of the whole node.
-/

namespace CorpusMark

/-- One text is a part of another. -/
def Occurs (part text : String) : Prop :=
  part.toList <:+: text.toList

namespace Occurs

instance (part text : String) : Decidable (Occurs part text) :=
  inferInstanceAs (Decidable (part.toList <:+: text.toList))

theorem refl (s : String) : Occurs s s :=
  List.infix_rfl

theorem trans {r s t : String} (h : Occurs r s) (h' : Occurs s t) : Occurs r t :=
  List.IsInfix.trans h h'

variable {part text : String}

theorem append_right (h : Occurs part text) (behind : String) : Occurs part (text ++ behind) := by
  rw [Occurs, String.toList_append]
  exact List.IsInfix.trans h (List.prefix_append _ _).isInfix

theorem append_left (h : Occurs part text) (before : String) : Occurs part (before ++ text) := by
  rw [Occurs, String.toList_append]
  exact List.IsInfix.trans h (List.suffix_append _ _).isInfix

end Occurs

namespace Node

/-! ## Comments of a part -/

/-- The text of every comment at or below the node is a part of a text. -/
def CommentsOccurIn (p : Node) (text : String) : Prop :=
  ∀ c : Node, p.IsAtOrAbove c → c.kind = .comment → Occurs c.text text

/-- The text of a child is a part of the text of its parent. -/
theorem occurs_of_mem_children {p c : Node} (hwf : p.arena.WellFormed) (hc : c ∈ p.children) :
    Occurs c.text p.text := by
  obtain ⟨before, after, htext, -, -⟩ := exists_child_split hwf.ranged hc
  rw [htext]
  exact ((Occurs.refl _).append_left before).append_right after

theorem occurs_of_isAtOrAbove {p c : Node} (hwf : p.arena.WellFormed) (h : p.IsAtOrAbove c) :
    Occurs c.text p.text := by
  induction h with
  | refl => exact .refl _
  | @tail q c hq hc ih =>
    have hqwf : q.arena.WellFormed := by rwa [arena_of_isAtOrAbove hq]
    exact (occurs_of_mem_children hqwf hc).trans ih

variable {p : Node} {text : String}

/-- Comments of a part whose text is kept are kept. -/
theorem commentsOccurIn_of_occurs (hwf : p.arena.WellFormed) (h : Occurs p.text text) :
    p.CommentsOccurIn text :=
  fun _ hc _ => (occurs_of_isAtOrAbove hwf hc).trans h

/-- A part without comments has none to lose. -/
theorem commentsOccurIn_of_uncommented (hlinked : p.arena.Linked) (hpre : p.arena.InPreorder)
    (hkind : p.kind ≠ .comment) (h : p.containsComment = false) : p.CommentsOccurIn text := by
  intro c hc hcomment
  rcases isAtOrAbove_iff.mp hc with rfl | hbelow
  · exact absurd hcomment hkind
  · rw [(containsComment_iff hlinked hpre).mpr ⟨c, hbelow, hcomment⟩] at h
    cases h

end Node

/-- The arena of a well-formed tree. -/
structure Arena.Sound (a : Arena) : Prop where
  wellFormed : a.WellFormed
  linked : a.Linked
  inPreorder : a.InPreorder

theorem Arena.sound_of_ofTree {limit : Nat} {source : String} {tree : Tree} {a : Arena}
    (h : Arena.ofTree limit source tree = .ok a) (hwf : a.WellFormed) : a.Sound :=
  ⟨hwf, linked_of_ofTree h, inPreorder_of_ofTree h⟩

namespace Transform

/-- The parts of a match whose comments are safe: the trigger form has the text of
the part, or the predicate refuses comments in it. -/
def keptParts (t : Transform) (n : Node) : List Node :=
  match t.id with
  | "initlist" | "is_empty" | "init_string" | "if_else_return" => [n]
  | "call" | "range" | "print" =>
    (n.child? "function").toList ++ (n.child? "arguments").toList
  | "items" =>
    ((n.child? "function").bind (·.child? "object")).toList ++ (n.child? "arguments").toList
  | "list" => (n.child? "arguments").toList
  | "unequal_null" | "index_of" | "equal_false" => (n.child? "left").toList
  | "self_add" => n.firstSignificant?.toList
  | "not" => (n.child? "operand").toList
  | _ => []

section Kept

variable {n : Node} {out : String}

theorem forall_mem_toList_iff {o : Option Node} {c : Node} (ho : o = some c) :
    (∀ p ∈ o.toList, p.CommentsOccurIn out) ↔ c.CommentsOccurIn out := by
  rw [ho, Option.toList_some, List.forall_mem_singleton]

variable (hsound : n.arena.Sound)

include hsound

/-- Comments of a child whose text is kept are kept. -/
theorem child_keeps {c : Node} (hc : c ∈ n.children) (h : Occurs c.text out) :
    c.CommentsOccurIn out :=
  Node.commentsOccurIn_of_occurs (by rw [Node.arena_of_mem_children hc]; exact hsound.wellFormed) h

/-- A child without comments has none to lose. -/
theorem uncommented_child_keeps {c : Node} (hc : c ∈ n.children) (hkind : c.kind ≠ .comment)
    (h : c.containsComment = false) : c.CommentsOccurIn out := by
  have harena := Node.arena_of_mem_children hc
  exact Node.commentsOccurIn_of_uncommented (harena ▸ hsound.linked)
    (harena ▸ hsound.inPreorder) hkind h

/-- Comments of a match whose text is kept are kept. -/
theorem match_keeps (h : Occurs n.text out) : ∀ p ∈ [n], p.CommentsOccurIn out :=
  List.forall_mem_singleton.mpr (Node.commentsOccurIn_of_occurs hsound.wellFormed h)

/-- A match without comments has none to lose. -/
theorem uncommented_match_keeps {t : Transform} (hkinds : NodeKind.comment ∉ t.kinds)
    (hmatch : t.isMatch n = true) (h : n.containsComment = false) :
    ∀ p ∈ [n], p.CommentsOccurIn out := by
  have hkind : n.kind ≠ .comment := by
    intro hcomment
    rw [isMatch, hcomment, Bool.and_eq_true, List.contains_iff_mem] at hmatch
    exact hkinds hmatch.1
  exact List.forall_mem_singleton.mpr
    (Node.commentsOccurIn_of_uncommented hsound.linked hsound.inPreorder hkind h)

/-! ## Python -/

namespace Python

omit hsound in
theorem child_arguments_of_argumentList? {args : Node} (h : argumentList? n = some args) :
    n.child? "arguments" = some args :=
  (Option.filter_eq_some_iff.mp h).1

omit hsound in
/-- What has been seen of a call of `items`. -/
theorem itemsReceiver?_eq_some {receiver : Node} (h : itemsReceiver? n = some receiver) :
    ∃ function args, n.child? "function" = some function ∧
      function.child? "object" = some receiver ∧
      argumentList? n = some args ∧ args.containsComment = false := by
  unfold itemsReceiver? at h
  obtain ⟨function, hfunction, h⟩ := Option.bind_eq_some_iff.mp h
  split at h
  · cases h
  obtain ⟨name, -, h⟩ := Option.bind_eq_some_iff.mp h
  split at h
  · cases h
  obtain ⟨args, hargs, h⟩ := Option.bind_eq_some_iff.mp h
  split at h
  · cases h
  rename_i hrefused
  simp only [Bool.or_eq_true, not_or, Bool.not_eq_true] at hrefused
  exact ⟨function, args, hfunction, (Option.filter_eq_some_iff.mp h).1, hargs, hrefused.2⟩

theorem arguments_keep {args : Node} (h : argumentList? n = some args)
    (hnone : args.containsComment = false) : args.CommentsOccurIn out := by
  obtain ⟨hchild, hkind⟩ := Option.filter_eq_some_iff.mp h
  rw [beq_iff_eq] at hkind
  exact uncommented_child_keeps hsound (Node.mem_children_of_child? hchild) (by simp [hkind]) hnone

/-- Comments of a function and of the arguments are kept if the text begins
with the function and the arguments keep theirs. -/
theorem function_and_arguments_keep {t : Transform} {function args : Node} {behind : String}
    (hparts : t.keptParts n = (n.child? "function").toList ++ (n.child? "arguments").toList)
    (hfunction : n.child? "function" = some function) (hargs : argumentList? n = some args)
    (hkeep : args.CommentsOccurIn (function.text ++ behind)) :
    ∀ p ∈ t.keptParts n, p.CommentsOccurIn (function.text ++ behind) := by
  rw [hparts, List.forall_mem_append, forall_mem_toList_iff hfunction,
    forall_mem_toList_iff (child_arguments_of_argumentList? hargs)]
  refine ⟨?_, hkeep⟩
  exact child_keeps hsound (Node.mem_children_of_child? hfunction) ((Occurs.refl _).append_right _)

theorem toDunderCall_keeps (h : toDunderCall n = some out) :
    ∀ p ∈ call.keptParts n, p.CommentsOccurIn out := by
  obtain ⟨function, hfunction, h⟩ := Option.bind_eq_some_iff.mp h
  obtain ⟨args, hargs, h⟩ := Option.bind_eq_some_iff.mp h
  cases h
  rw [String.append_assoc]
  refine function_and_arguments_keep hsound rfl hfunction hargs ?_
  refine child_keeps hsound
    (Node.mem_children_of_child? (child_arguments_of_argumentList? hargs)) ?_
  exact ((Occurs.refl _).append_left _).append_left _

theorem initList_keeps (h : initList.isMatch n = true) :
    ∀ p ∈ initList.keptParts n, p.CommentsOccurIn out := by
  have hnone : n.containsComment = false := by
    simp only [isMatch, initList, isEmptyListInit, Bool.and_eq_true, Bool.not_eq_true'] at h
    exact h.2.1.1.2
  exact uncommented_match_keeps hsound (by decide) h hnone

theorem toExplicitRange_keeps (h : toExplicitRange n = some out) :
    ∀ p ∈ range.keptParts n, p.CommentsOccurIn out := by
  obtain ⟨arg, harg, h⟩ := Option.bind_eq_some_iff.mp h
  obtain ⟨function, hfunction, h⟩ := Option.bind_eq_some_iff.mp h
  cases h
  obtain ⟨-, args, hargs, hnone⟩ := soleArgument?_eq_some harg
  rw [String.append_assoc, String.append_assoc]
  exact function_and_arguments_keep hsound rfl hfunction hargs
    (arguments_keep hsound hargs hnone)

theorem toZippedItems_keeps (h : toZippedItems n = some out) :
    ∀ p ∈ items.keptParts n, p.CommentsOccurIn out := by
  obtain ⟨receiver, hreceiver, h⟩ := Option.bind_eq_some_iff.mp h
  cases h
  obtain ⟨function, args, hfunction, hobject, hargs, hnone⟩ :=
    itemsReceiver?_eq_some hreceiver
  have hreached : (n.child? "function").bind (·.child? "object") = some receiver := by
    rw [hfunction, Option.bind_some, hobject]
  refine List.forall_mem_append.mpr ⟨?_, ?_⟩
  · have hfsound : function.arena.Sound := by
      rwa [Node.arena_of_child? hfunction]
    rw [forall_mem_toList_iff hreached]
    refine child_keeps hfsound (Node.mem_children_of_child? hobject) ?_
    exact ((((Occurs.refl _).append_left _).append_right _).append_right _).append_right _
  · rw [forall_mem_toList_iff (child_arguments_of_argumentList? hargs)]
    exact arguments_keep hsound hargs hnone

theorem toFlushedPrint_keeps (hmatch : isUnflushedPrint n = true)
    (h : toFlushedPrint n = some out) : ∀ p ∈ print.keptParts n, p.CommentsOccurIn out := by
  obtain ⟨function, hfunction, h⟩ := Option.bind_eq_some_iff.mp h
  obtain ⟨args, hargs, h⟩ := Option.bind_eq_some_iff.mp h
  obtain ⟨inside, -, h⟩ := Option.bind_eq_some_iff.mp h
  cases h
  have hnone : args.containsComment = false := by
    simp only [isUnflushedPrint, hargs, Bool.and_eq_true, Bool.not_eq_true'] at hmatch
    exact hmatch.2.1
  rw [String.append_assoc, String.append_assoc]
  exact function_and_arguments_keep hsound rfl hfunction hargs
    (arguments_keep hsound hargs hnone)

theorem toUnpackedList_keeps (h : toUnpackedList n = some out) :
    ∀ p ∈ list.keptParts n, p.CommentsOccurIn out := by
  obtain ⟨arg, harg, -⟩ := Option.bind_eq_some_iff.mp h
  obtain ⟨-, args, hargs, hnone⟩ := soleArgument?_eq_some harg
  refine (forall_mem_toList_iff (child_arguments_of_argumentList? hargs)).mpr ?_
  exact arguments_keep hsound hargs hnone

/-- Every trigger form of Python code keeps the comments of the kept parts. -/
theorem toTrigger_keeps {t : Transform} (ht : t ∈ all) (hmatch : t.isMatch n = true)
    (h : t.toTrigger n = some out) : ∀ p ∈ t.keptParts n, p.CommentsOccurIn out := by
  have hpredicate : t.predicate n = true := (Bool.and_eq_true_iff.mp hmatch).2
  simp only [all, List.mem_cons, List.not_mem_nil, or_false] at ht
  rcases ht with rfl | rfl | rfl | rfl | rfl | rfl
  · exact toDunderCall_keeps hsound h
  · exact initList_keeps hsound hmatch
  · exact toExplicitRange_keeps hsound h
  · exact toZippedItems_keeps hsound h
  · exact toFlushedPrint_keeps hsound hpredicate h
  · exact toUnpackedList_keeps hsound h

end Python

/-! ## Java -/

namespace Java

omit hsound in
theorem occurs_operandText (n : Node) : Occurs n.text (operandText n) := by
  rw [operandText]
  split
  · exact .refl _
  · exact ((Occurs.refl _).append_left _).append_right _

/-- Comments of a left operand whose text is kept are kept. -/
theorem left_keeps {left : Node} (hleft : n.child? "left" = some left)
    (h : Occurs left.text out) : ∀ p ∈ (n.child? "left").toList, p.CommentsOccurIn out := by
  rw [forall_mem_toList_iff hleft]
  exact child_keeps hsound (Node.mem_children_of_child? hleft) h

theorem toNullFirst_keeps (h : toNullFirst n = some out) :
    ∀ p ∈ unequalNull.keptParts n, p.CommentsOccurIn out := by
  obtain ⟨left, hleft, h⟩ := Option.bind_eq_some_iff.mp h
  cases h
  exact left_keeps hsound hleft ((occurs_operandText left).append_left _)

theorem toComparedTrue_keeps (h : toComparedTrue n = some out) :
    ∀ p ∈ isEmpty.keptParts n, p.CommentsOccurIn out := by
  cases h
  exact match_keeps hsound (((Occurs.refl _).append_left _).append_right _)

theorem toValueOf_keeps (h : toValueOf n = some out) :
    ∀ p ∈ initString.keptParts n, p.CommentsOccurIn out := by
  cases h
  exact match_keeps hsound (((Occurs.refl _).append_left _).append_right _)

theorem toNonNegative_keeps (h : toNonNegative n = some out) :
    ∀ p ∈ indexOf.keptParts n, p.CommentsOccurIn out := by
  obtain ⟨left, hleft, h⟩ := Option.bind_eq_some_iff.mp h
  cases h
  exact left_keeps hsound hleft ((Occurs.refl _).append_right _)

theorem ifElseReturn_keeps (h : ifElseReturn.isMatch n = true) :
    ∀ p ∈ ifElseReturn.keptParts n, p.CommentsOccurIn out := by
  have hnone : n.containsComment = false := by
    simp only [isMatch, ifElseReturn, isIfElseReturn, Bool.and_eq_true, Bool.not_eq_true'] at h
    exact h.2.1
  exact uncommented_match_keeps hsound (by decide) h hnone

theorem toCompoundAdd_keeps (h : toCompoundAdd n = some out) :
    ∀ p ∈ selfAdd.keptParts n, p.CommentsOccurIn out := by
  obtain ⟨target, htarget, h⟩ := Option.bind_eq_some_iff.mp h
  cases h
  refine (forall_mem_toList_iff htarget).mpr ?_
  exact child_keeps hsound (Node.mem_children_of_firstSignificant? htarget)
    ((Occurs.refl _).append_right _)

theorem toFlippedEquality_keeps (h : toFlippedEquality n = some out) :
    ∀ p ∈ not.keptParts n, p.CommentsOccurIn out := by
  obtain ⟨binary, hbinary, -⟩ := Option.bind_eq_some_iff.mp h
  obtain ⟨inner, operator, flipped, hseen, -⟩ := negatedEquality?_eq_some hbinary
  refine (forall_mem_toList_iff hseen.child_operand).mpr ?_
  exact uncommented_child_keeps hsound (Node.mem_children_of_child? hseen.child_operand)
    (by simp [hseen.parenthesized]) hseen.uncommented

theorem toNegation_keeps (h : toNegation n = some out) :
    ∀ p ∈ equalFalse.keptParts n, p.CommentsOccurIn out := by
  obtain ⟨left, hleft, h⟩ := Option.bind_eq_some_iff.mp h
  cases h
  exact left_keeps hsound hleft (((occurs_operandText left).append_left _).append_right _)

/-- Every trigger form of Java code keeps the comments of the kept parts. -/
theorem toTrigger_keeps {t : Transform} (ht : t ∈ all) (hmatch : t.isMatch n = true)
    (h : t.toTrigger n = some out) : ∀ p ∈ t.keptParts n, p.CommentsOccurIn out := by
  simp only [all, List.mem_cons, List.not_mem_nil, or_false] at ht
  rcases ht with rfl | rfl | rfl | rfl | rfl | rfl | rfl | rfl
  · exact toNullFirst_keeps hsound h
  · exact toComparedTrue_keeps hsound h
  · exact toValueOf_keeps hsound h
  · exact toNonNegative_keeps hsound h
  · exact ifElseReturn_keeps hsound hmatch
  · exact toCompoundAdd_keeps hsound h
  · exact toFlippedEquality_keeps hsound h
  · exact toNegation_keeps hsound h

end Java

end Kept

/-! ## Lost comments -/

/-- The trigger form of a match in a well-formed tree has every comment that is
below the match. -/
def LosesNone (t : Transform) : Prop :=
  ∀ (limit : Nat) (source : String) (tree : Tree) (a : Arena),
    Arena.ofTree limit source tree = .ok a → a.WellFormed →
    ∀ n : Node, n.arena = a → t.isMatch n = true →
      ∃ out, t.render? .trigger n = some out ∧
        ∀ c : Node, n.IsAncestorOf c → c.kind = .comment → Occurs c.text out

/-- Whether the node matches and has a comment among its children that the
trigger form does not have. -/
def losesChild (t : Transform) (n : Node) : Bool :=
  t.isMatch n && (t.toTrigger n).any fun out =>
    n.children.any fun c => c.kind == .comment && !decide (Occurs c.text out)

/-- The tree of a text, and a transform that one of its nodes matches. -/
structure CommentedMatch where
  transform : Transform
  source : String
  tree : Tree

namespace CommentedMatch

/-- Whether the tree is well-formed and a match in it loses a comment. -/
def isLoss (m : CommentedMatch) : Bool :=
  match Arena.ofTree 8 m.source m.tree with
  | .ok a => decide a.WellFormed && a.nodes.any m.transform.losesChild
  | .error _ => false

theorem not_losesNone {m : CommentedMatch} (h : m.isLoss = true) : ¬ m.transform.LosesNone := by
  intro hnone
  rw [isLoss] at h
  split at h
  case h_2 => cases h
  case h_1 a hok =>
    rw [Bool.and_eq_true, decide_eq_true_eq, List.any_eq_true] at h
    obtain ⟨hwf, n, hn, hlost⟩ := h
    rw [losesChild, Bool.and_eq_true, Option.any_eq_true] at hlost
    obtain ⟨hmatch, lossy, hlossy, hlost⟩ := hlost
    obtain ⟨c, hc, hcomment⟩ := List.any_eq_true.mp hlost
    simp only [Bool.and_eq_true, beq_iff_eq, Bool.not_eq_true', decide_eq_false_iff_not] at hcomment
    -- the trigger form is the one that the comment does not occur in
    obtain ⟨out, hout, hall⟩ := hnone _ _ _ a hok hwf n (Arena.mem_nodes_iff.mp hn) hmatch
    rw [render?, if_pos hmatch, formText?, hlossy] at hout
    cases hout
    exact hcomment.2 (hall c (.single hc) hcomment.1)

def token (kind : String) (start stop : Nat) : Tree :=
  .node ⟨kind, none, ⟨start, stop⟩, false, false, false⟩ []

def operator (kind : String) (start stop : Nat) : Tree :=
  .node ⟨kind, some "operator", ⟨start, stop⟩, false, false, false⟩ []

def named (kind : String) (field : Option String) (start stop : Nat) (children : List Tree) :
    Tree :=
  .node ⟨kind, field, ⟨start, stop⟩, true, false, false⟩ children

/-- A Python call in parentheses, with a comment between name and arguments. -/
def call (name : String) : String × Tree :=
  let k := name.length
  ("(" ++ name ++ " #c\n(x))",
    named "parenthesized_expression" none 0 (k + 9)
      [token "(" 0 1,
        named "call" none 1 (k + 8)
          [named "identifier" (some "function") 1 (k + 1) [],
            named "comment" none (k + 2) (k + 4) [],
            named "argument_list" (some "arguments") (k + 5) (k + 8)
              [token "(" (k + 5) (k + 6), named "identifier" none (k + 6) (k + 7) [],
                token ")" (k + 7) (k + 8)]],
        token ")" (k + 8) (k + 9)])

def items : Tree :=
  named "for_statement" none 0 28
    [token "for" 0 3, named "identifier" (some "left") 4 5 [], token "in" 6 8,
      named "call" (some "right") 9 22
        [named "attribute" (some "function") 9 16
          [named "identifier" (some "object") 9 10 [], token "." 10 11,
            named "identifier" (some "attribute") 11 16 []],
          named "comment" none 17 19 [],
          named "argument_list" (some "arguments") 20 22 [token "(" 20 21, token ")" 21 22]],
      token ":" 22 23,
      named "block" (some "body") 24 28 [named "pass_statement" none 24 28 [token "pass" 24 28]]]

/-- A Java comparison with a comment behind its left operand. -/
def comparison (kind : String) (left right : Tree) : Tree :=
  let k := left.label.span.stop
  named "binary_expression" none 0 right.label.span.stop
    [left, named "block_comment" none (k + 1) (k + 8) [], operator kind (k + 9) (k + 11), right]

def unequalNull : Tree :=
  comparison "!=" (named "identifier" (some "left") 0 1 [])
    (named "null_literal" (some "right") 13 17 [])

def indexOf : Tree :=
  comparison "!="
    (named "method_invocation" (some "left") 0 12
      [named "identifier" (some "object") 0 1 [], token "." 1 2,
        named "identifier" (some "name") 2 9 [],
        named "argument_list" (some "arguments") 9 12
          [token "(" 9 10, named "identifier" none 10 11 [], token ")" 11 12]])
    (named "unary_expression" (some "right") 24 26
      [operator "-" 24 25, named "decimal_integer_literal" (some "operand") 25 26 []])

def selfAdd : Tree :=
  named "expression_statement" none 0 13
    [named "update_expression" none 0 12
      [named "identifier" none 0 1 [], named "block_comment" none 2 9 [], token "++" 10 12],
      token ";" 12 13]

def not : Tree :=
  named "unary_expression" none 0 18
    [operator "!" 0 1, named "block_comment" none 2 9 [],
      named "parenthesized_expression" (some "operand") 10 18
        [token "(" 10 11,
          named "binary_expression" none 11 17
            [named "identifier" (some "left") 11 12 [], operator "==" 13 15,
              named "identifier" (some "right") 16 17 []],
          token ")" 17 18]]

def equalFalse : Tree :=
  comparison "==" (named "identifier" (some "left") 0 1 []) (named "false" (some "right") 13 18 [])

/-- A match with a comment between its own tokens, for each transform that does
not look there. -/
def all : List CommentedMatch :=
  [⟨Python.call, (call "f").1, (call "f").2⟩,
   ⟨Python.range, (call "range").1, (call "range").2⟩,
   ⟨Python.items, "for k in d.items #c\n(): pass", items⟩,
   ⟨Python.print, (call "print").1, (call "print").2⟩,
   ⟨Python.list, (call "list").1, (call "list").2⟩,
   ⟨Java.unequalNull, "a /* c */ != null", unequalNull⟩,
   ⟨Java.indexOf, "s.indexOf(t) /* c */ != -1", indexOf⟩,
   ⟨Java.selfAdd, "i /* c */ ++;", selfAdd⟩,
   ⟨Java.not, "! /* c */ (a == b)", not⟩,
   ⟨Java.equalFalse, "b /* c */ == false", equalFalse⟩]

theorem isLoss_of_mem_all : ∀ m ∈ all, m.isLoss = true := by
  simp only [isLoss, Arena.ofTree_eq_addTree]
  decide +kernel

end CommentedMatch

/-! ## What is kept and what is lost -/

/-- Ids of the transforms that keep the comments of the whole node. -/
def keepingIds : List String :=
  ["initlist", "is_empty", "init_string", "if_else_return"]

theorem keptParts_of_mem_keepingIds {t : Transform} (h : t.id ∈ keepingIds) (n : Node) :
    t.keptParts n = [n] := by
  simp only [keepingIds, List.mem_cons, List.not_mem_nil, or_false] at h
  rcases h with h | h | h | h <;> simp only [keptParts, h]

/-- Every transform keeps the comments of the whole node or has a lossy match. -/
theorem keeps_or_exists_loss {l : Language} {t : Transform}
    (ht : t ∈ (Catalog.ofLanguage l).transforms) :
    t.id ∈ keepingIds ∨ ∃ m ∈ CommentedMatch.all, m.transform = t := by
  cases l with
  | python =>
    simp only [Catalog.ofLanguage, Python.all, List.mem_cons, List.not_mem_nil, or_false] at ht
    rcases ht with rfl | rfl | rfl | rfl | rfl | rfl
    · exact .inr (by simp [CommentedMatch.all])
    · exact .inl (by decide)
    · exact .inr (by simp [CommentedMatch.all])
    · exact .inr (by simp [CommentedMatch.all])
    · exact .inr (by simp [CommentedMatch.all])
    · exact .inr (by simp [CommentedMatch.all])
  | java =>
    simp only [Catalog.ofLanguage, Java.all, List.mem_cons, List.not_mem_nil, or_false] at ht
    rcases ht with rfl | rfl | rfl | rfl | rfl | rfl | rfl | rfl
    · exact .inr (by simp [CommentedMatch.all])
    · exact .inl (by decide)
    · exact .inl (by decide)
    · exact .inr (by simp [CommentedMatch.all])
    · exact .inl (by decide)
    · exact .inr (by simp [CommentedMatch.all])
    · exact .inr (by simp [CommentedMatch.all])
    · exact .inr (by simp [CommentedMatch.all])

section Trigger

variable {l : Language} {t : Transform} (ht : t ∈ (Catalog.ofLanguage l).transforms)

include ht

/-- A match in a well-formed tree has a trigger form, with the comments of the
kept parts. -/
theorem exists_render?_keeps {n : Node} (hsound : n.arena.Sound) (hmatch : t.isMatch n = true) :
    ∃ out, t.render? .trigger n = some out ∧ ∀ p ∈ t.keptParts n, p.CommentsOccurIn out := by
  obtain ⟨out, hout⟩ := exists_render?_of_isMatch ht hsound.wellFormed hmatch .trigger
  refine ⟨out, hout, ?_⟩
  rw [render?, if_pos hmatch] at hout
  cases l with
  | python => exact Python.toTrigger_keeps hsound ht hmatch hout
  | java => exact Java.toTrigger_keeps hsound ht hmatch hout

theorem losesNone_iff : t.LosesNone ↔ t.id ∈ keepingIds := by
  constructor
  · intro hnone
    rcases keeps_or_exists_loss ht with hid | ⟨m, hm, rfl⟩
    · exact hid
    · exact absurd hnone (CommentedMatch.not_losesNone (CommentedMatch.isLoss_of_mem_all m hm))
  · rintro hid limit source tree a hok hwf n rfl hmatch
    obtain ⟨out, hout, hkeep⟩ :=
      exists_render?_keeps ht (Arena.sound_of_ofTree hok hwf) hmatch
    rw [keptParts_of_mem_keepingIds hid, List.forall_mem_singleton] at hkeep
    exact ⟨out, hout, fun c hc => hkeep c (Node.isAtOrAbove_iff.mpr (.inr hc))⟩

/-- **Which comments a trigger form keeps.** Four of the transforms lose none of
those below a match. Each of the others loses one between the tokens of some
match, but none of the parts that it keeps. -/
theorem comments_kept :
    (t.LosesNone ↔ t.id ∈ ["initlist", "is_empty", "init_string", "if_else_return"]) ∧
      ∀ (limit : Nat) (source : String) (tree : Tree) (a : Arena),
        Arena.ofTree limit source tree = .ok a → a.WellFormed →
        ∀ n : Node, n.arena = a → t.isMatch n = true →
          ∃ out, t.render? .trigger n = some out ∧ ∀ p ∈ t.keptParts n, p.CommentsOccurIn out := by
  refine ⟨losesNone_iff ht, ?_⟩
  rintro limit source tree a hok hwf n rfl hmatch
  exact exists_render?_keeps ht (Arena.sound_of_ofTree hok hwf) hmatch

end Trigger

/-- The tree of the Java expression `b(/* c */) == false`. -/
def CommentedMatch.operand : Tree :=
  named "binary_expression" none 0 19
    [named "method_invocation" (some "left") 0 10
      [named "identifier" (some "name") 0 1 [],
        named "argument_list" (some "arguments") 1 10
          [token "(" 1 2, named "block_comment" none 2 9 [], token ")" 9 10]],
      operator "==" 11 13, named "false" (some "right") 14 19 []]

/-- A comparison with `false` keeps a comment of its left operand. -/
theorem comments_kept_operand :
    Java.equalFalse ∈ (Catalog.ofLanguage .java).transforms ∧
      ∃ a, Arena.ofTree 4 "b(/* c */) == false" CommentedMatch.operand = .ok a ∧ a.WellFormed ∧
        ∃ n ∈ a.nodes, Java.equalFalse.isMatch n = true ∧
          ∃ out, Java.equalFalse.render? .trigger n = some out ∧
            ∃ p ∈ Java.equalFalse.keptParts n, ∃ c : Node,
              p.IsAncestorOf c ∧ c.kind = .comment ∧ Occurs c.text out := by
  have hmem : Java.equalFalse ∈ (Catalog.ofLanguage .java).transforms := by
    simp [Catalog.ofLanguage, Java.all]
  obtain ⟨a, hok, hwf, n, hn, hmatch, p, hp, hcontains⟩ : ∃ a,
      Arena.ofTree 4 "b(/* c */) == false" CommentedMatch.operand = .ok a ∧ a.WellFormed ∧
        ∃ n ∈ a.nodes, Java.equalFalse.isMatch n = true ∧
          ∃ p ∈ (n.child? "left").toList, p.containsComment = true := by
    refine ⟨_, (Arena.ofTree_eq_addTree ..).trans rfl, ?_, ?_⟩
    · decide +kernel
    · decide +kernel
  have harena := Arena.mem_nodes_iff.mp hn
  have hchild := Node.mem_children_of_child? (Option.mem_toList.mp hp)
  have hparena : p.arena = a := (Node.arena_of_mem_children hchild).trans harena
  have hsound := Arena.sound_of_ofTree hok hwf
  obtain ⟨c, hbelow, hcomment⟩ := (Node.containsComment_iff
    (hparena ▸ hsound.linked) (hparena ▸ hsound.inPreorder)).mp hcontains
  obtain ⟨out, hout, hkeep⟩ := (comments_kept hmem).2 4 _ _ a hok hwf n harena hmatch
  refine ⟨hmem, a, hok, hwf, n, hn, hmatch, out, hout, p, hp, c, hbelow, hcomment, ?_⟩
  exact hkeep p hp c (Node.isAtOrAbove_iff.mpr (.inr hbelow)) hcomment

/-- `b /* c */ == false` becomes `(!b)`. -/
theorem comment_lost_equalFalse :
    Java.equalFalse ∈ (Catalog.ofLanguage .java).transforms ∧
      ∃ a, Arena.ofTree 8 "b /* c */ == false" CommentedMatch.equalFalse = .ok a ∧ a.WellFormed ∧
        ∃ n ∈ a.nodes, Java.equalFalse.render? .trigger n = some "(!b)" ∧
          ∃ c : Node, n.IsAncestorOf c ∧ c.kind = .comment ∧ c.text = "/* c */" ∧
            ¬ Occurs c.text "(!b)" := by
  have hmem : Java.equalFalse ∈ (Catalog.ofLanguage .java).transforms := by
    simp [Catalog.ofLanguage, Java.all]
  obtain ⟨a, hok, hwf, n, hn, hout, c, hc, hcomment, htext⟩ : ∃ a,
      Arena.ofTree 8 "b /* c */ == false" CommentedMatch.equalFalse = .ok a ∧ a.WellFormed ∧
        ∃ n ∈ a.nodes, Java.equalFalse.render? .trigger n = some "(!b)" ∧
          ∃ c ∈ n.children, c.kind = .comment ∧ c.text = "/* c */" := by
    refine ⟨_, (Arena.ofTree_eq_addTree ..).trans rfl, ?_, ?_⟩
    · decide +kernel
    · decide +kernel
  refine ⟨hmem, a, hok, hwf, n, hn, hout, c, .single hc, hcomment, htext, ?_⟩
  rw [htext]
  decide

end Transform

end CorpusMark
