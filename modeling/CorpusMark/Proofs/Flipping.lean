import CorpusMark.Proofs.Rendering

/-!
# Flipped comparisons

A negated comparison is rendered with the opposite operator and without the
negation. This is the one rewrite that computes with offsets inside the text of
a node: it keeps what stands before and behind the operator. The operator lies
two levels below the negation, and its offsets are safe as long as every node
covers a range of the source inside that of its parent.

- `CutsOut`: the offsets of a node in the text of another one are safe.
- `opposite?_eq_some_of_eq_some`: the operators come in pairs.
- `toFlippedEquality_flips`: nothing but the operator changes, and flipping it
  once more undoes it if it is spelled like its kind.
- `not_restored_misspelled`: else flipping it once more does not undo it.
-/

namespace CorpusMark

namespace Transform

namespace Java

variable {n outer inner : Node}

/-- The offsets of a node from the start of another one are not negative, and the
text of the other one can be cut at both. -/
structure CutsOut (outer inner : Node) : Prop where
  start_le : outer.span.start ≤ inner.span.start
  stop_le : outer.span.start ≤ inner.span.stop
  start_boundary :
    Text.isBoundary outer.text.toList (inner.span.start - outer.span.start) = true
  stop_boundary :
    Text.isBoundary outer.text.toList (inner.span.stop - outer.span.start) = true

theorem cutsOut_of_text {before after : String} (htext : outer.text = before ++ inner.text ++ after)
    (hstart : outer.span.start + Text.byteLength before.toList = inner.span.start)
    (hstop : inner.span.start + Text.byteLength inner.text.toList = inner.span.stop) :
    CutsOut outer inner where
  start_le := by omega
  stop_le := by omega
  start_boundary := by
    refine Text.isBoundary_iff.mpr ⟨before.toList, (inner.text ++ after).toList, ?_, by omega⟩
    rw [htext, String.append_assoc, String.toList_append]
  stop_boundary := by
    refine Text.isBoundary_iff.mpr ⟨(before ++ inner.text).toList, after.toList, ?_, ?_⟩
    · rw [htext, String.toList_append]
    · rw [String.toList_append, Text.byteLength_append]
      omega

/-- The opposite of the opposite operator is the operator itself. -/
theorem opposite?_eq_some_of_eq_some {operator flipped : String}
    (h : opposite? operator = some flipped) : opposite? flipped = some operator := by
  unfold opposite? at h
  split at h
  · cases h
    rfl
  · cases h
    rfl
  · cases h

/-- What has been put in can be replaced in turn, and the text is the old one again
if the same comes in as went out. -/
theorem replaceInside?_again_iff {before old new after back : String} {outer inner : Span}
    (hstart : outer.start + Text.byteLength before.toList = inner.start) :
    replaceInside? (before ++ new ++ after) outer
        ⟨inner.start, inner.start + Text.byteLength new.toList⟩ back
        = some (before ++ old ++ after) ↔ old = back := by
  have hagain : replaceInside? (before ++ new ++ after) outer
      ⟨inner.start, inner.start + Text.byteLength new.toList⟩ back
      = some (before ++ back ++ after) := by
    refine replaceInside?_append ?_ rfl back
    exact hstart
  rw [hagain, Option.some.injEq]
  simp only [String.append_left_inj, String.append_right_inj]
  exact eq_comm

/-- **A negated comparison is rendered by flipping its operator.** Both offsets
are safe, the text of the comparison is the one that stands in its range, and
only the operator in it is replaced. Where the opposite operator now stands it
can be replaced by its own opposite, and the text is the old one again if and
only if the operator was spelled like its kind, as the tokens of a grammar are. -/
theorem toFlippedEquality_flips (hranged : n.arena.Ranged) (hmatch : not.isMatch n = true) :
    ∃ inner binary operator flipped before after,
      NegatedComparison n inner binary operator ∧
      opposite? operator.grammarKind = some flipped ∧
      CutsOut binary operator ∧
      Text.slice? n.arena.source binary.span.start binary.span.stop = some binary.text ∧
      Text.slice? n.arena.source operator.span.start operator.span.stop = some operator.text ∧
      binary.text = before ++ operator.text ++ after ∧
      Text.byteLength before.toList = operator.span.start - binary.span.start ∧
      toFlippedEquality n = some ("(" ++ (before ++ flipped ++ after) ++ ")") ∧
      opposite? flipped = some operator.grammarKind ∧
      (replaceInside? (before ++ flipped ++ after) binary.span
          ⟨operator.span.start, operator.span.start + Text.byteLength flipped.toList⟩
          operator.grammarKind = some binary.text ↔
        operator.text = operator.grammarKind) := by
  obtain ⟨inner, binary, operator, flipped, before, after, hseen, hflipped, htext, hstart, hstop,
    hout⟩ := toFlippedEquality_eq_some hranged (Bool.and_eq_true_iff.mp hmatch).2
  -- all of these nodes are nodes of one arena
  have hbinary := hseen.arena_eq
  have hoperator := (Node.arena_of_child? hseen.child_operator).trans hbinary
  refine ⟨inner, binary, operator, flipped, before, after, hseen, hflipped,
    cutsOut_of_text htext hstart hstop, ?_, ?_, htext, by omega, hout,
    opposite?_eq_some_of_eq_some hflipped, ?_⟩
  · rw [← hbinary]
    exact Node.slice?_span (by rwa [hbinary])
  · rw [← hoperator]
    exact Node.slice?_span (by rwa [hoperator])
  · rw [htext]
    exact replaceInside?_again_iff hstart

/-- The tree of the Java expression `!("é==" == b)`. -/
def quotedNegation : Arena :=
  Arena.empty "!(\"é==\" == b)"
    |>.add none 0 ⟨"unary_expression", none, ⟨0, 14⟩, true, false, false⟩
    |>.add (some 0) 1 ⟨"!", some "operator", ⟨0, 1⟩, false, false, false⟩
    |>.add (some 0) 1 ⟨"parenthesized_expression", some "operand", ⟨1, 14⟩, true, false, false⟩
    |>.add (some 2) 2 ⟨"(", none, ⟨1, 2⟩, false, false, false⟩
    |>.add (some 2) 2 ⟨"binary_expression", none, ⟨2, 13⟩, true, false, false⟩
    |>.add (some 4) 3 ⟨"string_literal", some "left", ⟨2, 8⟩, true, false, false⟩
    |>.add (some 4) 3 ⟨"==", some "operator", ⟨9, 11⟩, false, false, false⟩
    |>.add (some 4) 3 ⟨"identifier", some "right", ⟨12, 13⟩, true, false, false⟩
    |>.add (some 2) 2 ⟨")", none, ⟨13, 14⟩, false, false, false⟩

/-- `!("é==" == b)` becomes `("é==" != b)`. Only the second `==` is the operator, and
flipping it once more gives the comparison back. -/
theorem toFlippedEquality_flips_quoted :
    quotedNegation.Ranged ∧ ∃ n ∈ quotedNegation.nodes, not.isMatch n = true ∧
      toFlippedEquality n = some "(\"é==\" != b)" ∧
      ∃ (binary operator : Node) (before flipped after : String),
        binary.text = "\"é==\" == b" ∧
        toFlippedEquality n = some ("(" ++ (before ++ flipped ++ after) ++ ")") ∧
        replaceInside? (before ++ flipped ++ after) binary.span
          ⟨operator.span.start, operator.span.start + Text.byteLength flipped.toList⟩ "=="
          = some binary.text := by
  have hranged : quotedNegation.Ranged :=
    Arena.WellFormed.ranged (show quotedNegation.WellFormed by decide +kernel)
  obtain ⟨n, hn, hmatch, hout⟩ : ∃ n ∈ quotedNegation.nodes, not.isMatch n = true ∧
      toFlippedEquality n = some "(\"é==\" != b)" := by
    decide +kernel
  have hbinaries : ∀ b ∈ quotedNegation.nodes, b.kind = .binaryExpression →
      b.text = "\"é==\" == b" ∧
        ∀ o ∈ (b.child? "operator").toList, o.text = "==" ∧ o.grammarKind = "==" := by
    decide +kernel
  have harena := Arena.mem_nodes_iff.mp hn
  obtain ⟨inner, binary, operator, flipped, before, after, hseen, -, -, -, -, -, -, hflips, -,
    hagain⟩ := toFlippedEquality_flips (harena ▸ hranged) hmatch
  obtain ⟨htext, hoperator⟩ := hbinaries binary
    (Arena.mem_nodes_iff.mpr (hseen.arena_eq.trans harena)) hseen.comparison
  obtain ⟨hspelled, hkind⟩ := hoperator operator (Option.mem_toList.mpr hseen.child_operator)
  rw [hkind] at hagain
  exact ⟨hranged, n, hn, hmatch, hout, binary, operator, before, flipped, after, htext, hflips,
    hagain.mpr hspelled⟩

/-- The tree of `!(a xx b)` that takes the characters `xx` for an operator of the kind
`==`. -/
def misspelledNegation : Arena :=
  Arena.empty "!(a xx b)"
    |>.add none 0 ⟨"unary_expression", none, ⟨0, 9⟩, true, false, false⟩
    |>.add (some 0) 1 ⟨"!", some "operator", ⟨0, 1⟩, false, false, false⟩
    |>.add (some 0) 1 ⟨"parenthesized_expression", some "operand", ⟨1, 9⟩, true, false, false⟩
    |>.add (some 2) 2 ⟨"(", none, ⟨1, 2⟩, false, false, false⟩
    |>.add (some 2) 2 ⟨"binary_expression", none, ⟨2, 8⟩, true, false, false⟩
    |>.add (some 4) 3 ⟨"identifier", some "left", ⟨2, 3⟩, true, false, false⟩
    |>.add (some 4) 3 ⟨"==", some "operator", ⟨4, 6⟩, false, false, false⟩
    |>.add (some 4) 3 ⟨"identifier", some "right", ⟨7, 8⟩, true, false, false⟩
    |>.add (some 2) 2 ⟨")", none, ⟨8, 9⟩, false, false, false⟩

/-- Ranges inside one another are not enough for the operator to come back. The
opposite is that of the kind, so `a xx b` becomes `a != b` and that `a == b`. -/
theorem not_restored_misspelled :
    ¬ ∀ (n inner binary operator : Node) (flipped back text : String), n.arena.Ranged →
      not.isMatch n = true → NegatedComparison n inner binary operator →
      opposite? operator.grammarKind = some flipped → opposite? flipped = some back →
      toFlippedEquality n = some ("(" ++ text ++ ")") →
      replaceInside? text binary.span
        ⟨operator.span.start, operator.span.start + Text.byteLength flipped.toList⟩ back
        = some binary.text := by
  intro hrestored
  have hranged : misspelledNegation.Ranged :=
    Arena.WellFormed.ranged (show misspelledNegation.WellFormed by decide +kernel)
  have hseen : NegatedComparison ⟨misspelledNegation, 0, by decide⟩
      ⟨misspelledNegation, 2, by decide⟩ ⟨misspelledNegation, 4, by decide⟩
      ⟨misspelledNegation, 6, by decide⟩ :=
    ⟨by decide +kernel, rfl, rfl, by decide +kernel, rfl, rfl, rfl⟩
  have hback := hrestored _ _ _ _ "!=" "==" "a != b" hranged (by decide +kernel) hseen rfl rfl
    (by decide +kernel)
  exact absurd hback (by decide +kernel)

end Java

end Transform

end CorpusMark
