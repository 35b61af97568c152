import CorpusMark.Proofs.WellFormed
import CorpusMark.Transform.Catalog
import Mathlib.Data.List.Basic

/-!
# Rendered matches

No rewrite declines a node that its own predicate accepts. The trigger form of
a transform reads parts of a node that the predicate has seen already, or that
every well-formed tree has, so a match in a well-formed tree can be rendered in
either form (`exists_render?_of_isMatch`). There is one lemma for each
transform that does not render everything; those that read the same parts share
the lemma about the parts.
-/

namespace CorpusMark

namespace Transform

/-! ## Python -/

namespace Python

variable {n : Node}

theorem exists_function_of_calleeName? {name : String} (h : calleeName? n = some name) :
    ∃ function, n.child? "function" = some function := by
  obtain ⟨function, hfunction, -⟩ := Option.map_eq_some_iff.mp h
  exact ⟨function, (Option.filter_eq_some_iff.mp hfunction).1⟩

/-- What has been seen of a call with one argument. -/
theorem soleArgument?_eq_some {name : String} {arg : Node} (h : soleArgument? name n = some arg) :
    calleeName? n = some name ∧
      ∃ args, argumentList? n = some args ∧ args.containsComment = false := by
  unfold soleArgument? at h
  obtain ⟨callee, hcallee, h⟩ := Option.bind_eq_some_iff.mp h
  split at h
  · cases h
  rename_i hname
  obtain ⟨args, hargs, h⟩ := Option.bind_eq_some_iff.mp h
  split at h
  · cases h
  rename_i hrefused
  simp only [Bool.or_eq_true, not_or, Bool.not_eq_true] at hrefused
  exact ⟨by rw [hcallee, not_not.mp hname], args, hargs, hrefused.1⟩

/-- Argument lists of a well-formed tree have an inside. -/
theorem exists_insideParentheses? (hwf : n.arena.WellFormed) {args : Node}
    (h : argumentList? n = some args) :
    ∃ inside, insideParentheses? args.text.toList = some inside := by
  obtain ⟨hchild, hkind⟩ := Option.filter_eq_some_iff.mp h
  have harena := Node.arena_of_child? hchild
  obtain ⟨inside, htext⟩ := hwf.parenthesized args harena (by simpa using hkind)
  refine ⟨inside, ?_⟩
  rw [htext, insideParentheses?]
  simp

theorem toDunderCall_isSome (h : isDirectCall n = true) : (toDunderCall n).isSome = true := by
  unfold isDirectCall at h
  cases hcallee : calleeName? n with
  | none => simp [hcallee] at h
  | some name =>
    simp only [hcallee, Bool.and_eq_true] at h
    obtain ⟨function, hfunction⟩ := exists_function_of_calleeName? hcallee
    obtain ⟨args, hargs⟩ := Option.isSome_iff_exists.mp h.1.2
    simp [toDunderCall, hfunction, hargs]

theorem toExplicitRange_isSome (h : isSingleArgumentRange n = true) :
    (toExplicitRange n).isSome = true := by
  obtain ⟨arg, harg⟩ := Option.isSome_iff_exists.mp h
  obtain ⟨function, hfunction⟩ :=
    exists_function_of_calleeName? (soleArgument?_eq_some harg).1
  simp [toExplicitRange, harg, hfunction]

theorem toZippedItems_isSome (h : isLoopItems n = true) : (toZippedItems n).isSome = true := by
  rw [isLoopItems, Bool.and_eq_true] at h
  obtain ⟨receiver, hreceiver⟩ := Option.isSome_iff_exists.mp h.2
  simp [toZippedItems, hreceiver]

theorem toFlushedPrint_isSome (hwf : n.arena.WellFormed) (h : isUnflushedPrint n = true) :
    (toFlushedPrint n).isSome = true := by
  rw [isUnflushedPrint, Bool.and_eq_true, beq_iff_eq] at h
  obtain ⟨function, hfunction⟩ := exists_function_of_calleeName? h.1
  cases hargs : argumentList? n with
  | none => simp [hargs] at h
  | some args =>
    obtain ⟨inside, hinside⟩ := exists_insideParentheses? hwf hargs
    simp [toFlushedPrint, hfunction, hargs, hinside]

theorem toUnpackedList_isSome (h : isListConversion n = true) :
    (toUnpackedList n).isSome = true := by
  obtain ⟨arg, harg⟩ := Option.isSome_iff_exists.mp h
  simp [toUnpackedList, harg]

/-- Every match of a Python transform has a trigger form. -/
theorem toTrigger_isSome {t : Transform} (ht : t ∈ all) (hwf : n.arena.WellFormed)
    (h : t.isMatch n = true) : (t.toTrigger n).isSome = true := by
  have hpredicate : t.predicate n = true := (Bool.and_eq_true_iff.mp h).2
  simp only [all, List.mem_cons, List.not_mem_nil, or_false] at ht
  rcases ht with rfl | rfl | rfl | rfl | rfl | rfl
  · exact toDunderCall_isSome hpredicate
  · rfl
  · exact toExplicitRange_isSome hpredicate
  · exact toZippedItems_isSome hpredicate
  · exact toFlushedPrint_isSome hwf hpredicate
  · exact toUnpackedList_isSome hpredicate

end Python

/-! ## Java -/

namespace Java

variable {n : Node}

theorem exists_of_any {o : Option Node} {p : Node → Bool} (h : o.any p = true) :
    ∃ c, o = some c := by
  cases o with
  | none => cases h
  | some c => exact ⟨c, rfl⟩

theorem toNullFirst_isSome (h : isUnequalNull n = true) : (toNullFirst n).isSome = true := by
  rw [isUnequalNull, Bool.and_eq_true] at h
  obtain ⟨left, hleft⟩ := exists_of_any h.2
  simp [toNullFirst, hleft]

theorem toNonNegative_isSome (h : isIndexOfCheck n = true) :
    (toNonNegative n).isSome = true := by
  rw [isIndexOfCheck, Bool.and_eq_true] at h
  obtain ⟨left, hleft⟩ := exists_of_any h.2
  simp [toNonNegative, hleft]

theorem toTernaryReturn_isSome (hwf : n.arena.WellFormed) (hkind : n.kind = .ifStatement)
    (h : isIfElseReturn n = true) : (toTernaryReturn n).isSome = true := by
  obtain ⟨condition, hcondition⟩ := Option.isSome_iff_exists.mp (hwf.condition n rfl hkind)
  rw [isIfElseReturn, Bool.and_eq_true] at h
  -- the predicate has seen both branches and what they return
  have hbranches := h.2
  split at hbranches
  · rename_i consequence alternative hconsequence halternative
    split at hbranches
    · rename_i first second hfirst hsecond
      simp [toTernaryReturn, hcondition, hconsequence, halternative, hfirst, hsecond]
    · cases hbranches
  · cases hbranches

theorem toCompoundAdd_isSome (h : isIncrementStatement n = true) :
    (toCompoundAdd n).isSome = true := by
  rw [isIncrementStatement, Bool.and_eq_true, Bool.and_eq_true, beq_iff_eq] at h
  have hcount : n.significantChildren.length = 1 := h.1.2
  obtain ⟨target, htarget⟩ := List.length_eq_one_iff.mp hcount
  simp [toCompoundAdd, Node.firstSignificant?, htarget]

theorem toNegation_isSome (h : isEqualFalse n = true) : (toNegation n).isSome = true := by
  rw [isEqualFalse, Bool.and_eq_true] at h
  obtain ⟨left, hleft⟩ := exists_of_any h.2
  simp [toNegation, hleft]

/-- What has been seen of `!( … )`: a comparison in parentheses without comments,
and its operator. -/
structure NegatedComparison (n inner binary operator : Node) : Prop where
  negated : operator? n = some "!"
  child_operand : n.child? "operand" = some inner
  parenthesized : inner.kind = .parenthesizedExpression
  uncommented : inner.containsComment = false
  first_comparison : inner.firstSignificant? = some binary
  comparison : binary.kind = .binaryExpression
  child_operator : binary.child? "operator" = some operator

theorem NegatedComparison.arena_eq {inner binary operator : Node}
    (h : NegatedComparison n inner binary operator) : binary.arena = n.arena := by
  rw [Node.arena_of_mem_children (Node.mem_children_of_firstSignificant? h.first_comparison),
    Node.arena_of_child? h.child_operand]

/-- The operator of a negated comparison has an opposite. -/
theorem negatedEquality?_eq_some {binary : Node} (h : negatedEquality? n = some binary) :
    ∃ inner operator flipped, NegatedComparison n inner binary operator ∧
      opposite? operator.grammarKind = some flipped := by
  unfold negatedEquality? at h
  split at h
  · cases h
  rename_i hnegated
  obtain ⟨inner, hinner, h⟩ := Option.bind_eq_some_iff.mp h
  split at h
  · cases h
  rename_i hrefused
  obtain ⟨comparison, hcomparison, h⟩ := Option.bind_eq_some_iff.mp h
  obtain ⟨kind, hkind, h⟩ := Option.bind_eq_some_iff.mp h
  split at h
  · cases h
  rename_i hopposite
  cases h
  obtain ⟨operator, hoperator, rfl⟩ := Option.map_eq_some_iff.mp hkind
  obtain ⟨flipped, hflipped⟩ := Option.ne_none_iff_exists'.mp fun hnone =>
    hopposite (Option.isNone_iff_eq_none.mpr hnone)
  obtain ⟨hchild, hparens⟩ := Option.filter_eq_some_iff.mp hinner
  obtain ⟨hfirst, hbinary⟩ := Option.filter_eq_some_iff.mp hcomparison
  exact ⟨inner, operator, flipped, {
    negated := not_not.mp hnegated
    child_operand := hchild
    parenthesized := beq_iff_eq.mp hparens
    uncommented := eq_false_of_ne_true hrefused
    first_comparison := hfirst
    comparison := beq_iff_eq.mp hbinary
    child_operator := hoperator }, hflipped⟩

/-- What stands in the inner range is replaced, and nothing else. -/
theorem replaceInside?_append {before old after : String} {outer inner : Span}
    (hstart : outer.start + Text.byteLength before.toList = inner.start)
    (hstop : inner.start + Text.byteLength old.toList = inner.stop) (new : String) :
    replaceInside? (before ++ old ++ after) outer inner new = some (before ++ new ++ after) := by
  have hle : ¬ (decide (inner.start < outer.start) || decide (inner.stop < outer.start)) = true := by
    simp only [Bool.or_eq_true, decide_eq_true_eq]
    omega
  have hfirst : Text.cut? (before ++ old ++ after).toList (inner.start - outer.start)
      = some (before.toList, (old ++ after).toList) := by
    refine Text.cut?_eq_some_iff.mpr ⟨?_, by omega⟩
    simp only [String.toList_append, List.append_assoc]
  have hsecond : Text.cut? (before ++ old ++ after).toList (inner.stop - outer.start)
      = some ((before ++ old).toList, after.toList) := by
    refine Text.cut?_eq_some_iff.mpr ⟨by simp only [String.toList_append], ?_⟩
    rw [String.toList_append, Text.byteLength_append]
    omega
  simp only [replaceInside?, if_neg hle, hfirst, hsecond, Option.bind_eq_bind, Option.bind_some,
    String.ofList_toList]

/-- The trigger form of a negated comparison is the comparison in parentheses,
with the opposite operator in the place of its own. -/
theorem toFlippedEquality_eq_some (hranged : n.arena.Ranged) (h : isNegatedEquality n = true) :
    ∃ inner binary operator flipped before after,
      NegatedComparison n inner binary operator ∧
      opposite? operator.grammarKind = some flipped ∧
      binary.text = before ++ operator.text ++ after ∧
      binary.span.start + Text.byteLength before.toList = operator.span.start ∧
      operator.span.start + Text.byteLength operator.text.toList = operator.span.stop ∧
      toFlippedEquality n = some ("(" ++ (before ++ flipped ++ after) ++ ")") := by
  obtain ⟨binary, hbinary⟩ := Option.isSome_iff_exists.mp h
  obtain ⟨inner, operator, flipped, hseen, hflipped⟩ := negatedEquality?_eq_some hbinary
  obtain ⟨before, after, htext, hstart, hstop⟩ := Node.exists_child_split
    (by rwa [hseen.arena_eq]) (Node.mem_children_of_child? hseen.child_operator)
  refine ⟨inner, binary, operator, flipped, before, after, hseen, hflipped, htext, hstart,
    hstop, ?_⟩
  have hreplaced : replaceInside? binary.text binary.span operator.span flipped
      = some (before ++ flipped ++ after) := by
    rw [htext, replaceInside?_append hstart hstop]
  simp [toFlippedEquality, hbinary, hseen.child_operator, hflipped, hreplaced]

theorem toFlippedEquality_isSome (hwf : n.arena.WellFormed) (h : isNegatedEquality n = true) :
    (toFlippedEquality n).isSome = true := by
  obtain ⟨inner, binary, operator, flipped, before, after, -, -, -, -, -, hout⟩ :=
    toFlippedEquality_eq_some hwf.ranged h
  rw [hout, Option.isSome_some]

/-- Every match of a Java transform has a trigger form. -/
theorem toTrigger_isSome {t : Transform} (ht : t ∈ all) (hwf : n.arena.WellFormed)
    (h : t.isMatch n = true) : (t.toTrigger n).isSome = true := by
  obtain ⟨hkind, hpredicate⟩ := Bool.and_eq_true_iff.mp h
  simp only [all, List.mem_cons, List.not_mem_nil, or_false] at ht
  rcases ht with rfl | rfl | rfl | rfl | rfl | rfl | rfl | rfl
  · exact toNullFirst_isSome hpredicate
  · rfl
  · rfl
  · exact toNonNegative_isSome hpredicate
  · exact toTernaryReturn_isSome hwf (by simpa [ifElseReturn] using hkind) hpredicate
  · exact toCompoundAdd_isSome hpredicate
  · exact toFlippedEquality_isSome hwf hpredicate
  · exact toNegation_isSome hpredicate

end Java

/-- **A match can be rendered in every form.** -/
theorem exists_render?_of_isMatch {l : Language} {t : Transform}
    (ht : t ∈ (Catalog.ofLanguage l).transforms) {n : Node} (hwf : n.arena.WellFormed)
    (h : t.isMatch n = true) (form : Form) : ∃ text, t.render? form n = some text := by
  rw [render?, if_pos h]
  cases form with
  | source => exact ⟨n.text, rfl⟩
  | trigger =>
    refine Option.isSome_iff_exists.mp ?_
    cases l with
    | python => exact Python.toTrigger_isSome ht hwf h
    | java => exact Java.toTrigger_isSome ht hwf h

/-- Only matches are rendered. -/
theorem isMatch_of_render? {t : Transform} {form : Form} {n : Node} {text : String}
    (h : t.render? form n = some text) : t.isMatch n = true := by
  by_cases hmatch : t.isMatch n = true
  · exact hmatch
  · rw [render?, if_neg hmatch] at h
    cases h

/-- **A node of a well-formed tree can be rendered exactly if it matches**, in each of the
forms. -/
theorem isSome_render?_iff {l : Language} {t : Transform}
    (ht : t ∈ (Catalog.ofLanguage l).transforms) (form : Form) {n : Node}
    (hwf : n.arena.WellFormed) :
    (t.render? form n).isSome = true ↔ t.isMatch n = true := by
  rw [Option.isSome_iff_exists]
  constructor
  · rintro ⟨text, htext⟩
    exact isMatch_of_render? htext
  · exact fun hmatch => exists_render?_of_isMatch ht hwf hmatch form

/-- The tree of the Java expression `!(é == b)`. -/
def negationArena : Arena :=
  Arena.empty "!(é == b)"
    |>.add none 0 ⟨"unary_expression", none, ⟨0, 10⟩, true, false, false⟩
    |>.add (some 0) 1 ⟨"!", some "operator", ⟨0, 1⟩, false, false, false⟩
    |>.add (some 0) 1 ⟨"parenthesized_expression", some "operand", ⟨1, 10⟩, true, false, false⟩
    |>.add (some 2) 2 ⟨"(", none, ⟨1, 2⟩, false, false, false⟩
    |>.add (some 2) 2 ⟨"binary_expression", none, ⟨2, 9⟩, true, false, false⟩
    |>.add (some 4) 3 ⟨"identifier", some "left", ⟨2, 4⟩, true, false, false⟩
    |>.add (some 4) 3 ⟨"==", some "operator", ⟨5, 7⟩, false, false, false⟩
    |>.add (some 4) 3 ⟨"identifier", some "right", ⟨8, 9⟩, true, false, false⟩
    |>.add (some 2) 2 ⟨")", none, ⟨9, 10⟩, false, false, false⟩

/-- Of the nodes of `!(é == b)` only the negation itself can be rendered. -/
theorem isSome_render?_iff_negation :
    Java.not ∈ (Catalog.ofLanguage .java).transforms ∧ negationArena.WellFormed ∧
      ∀ n ∈ negationArena.nodes, ∀ form,
        ((Java.not.render? form n).isSome = true ↔ n.id = 0) := by
  have hmem : Java.not ∈ (Catalog.ofLanguage .java).transforms := by
    simp [Catalog.ofLanguage, Java.all]
  have hwf : negationArena.WellFormed := by decide +kernel
  have hmatch : ∀ n ∈ negationArena.nodes, (Java.not.isMatch n = true ↔ n.id = 0) := by
    decide +kernel
  refine ⟨hmem, hwf, fun n hn form => ?_⟩
  have harena := Arena.mem_nodes_iff.mp hn
  exact (isSome_render?_iff hmem form (harena ▸ hwf)).trans (hmatch n hn)

end Transform

end CorpusMark
