import CorpusMark.Proofs.Slices
import CorpusMark.Tree.Node

/-!
# Well-formed trees

What may be expected of the tree of a source text: the range of every node is a
range of the text, children lie inside their parent, argument lists stand in
parentheses and every `if` has a condition. The first two are enough for the
texts of nodes (`Ranged`): the text of a node is what stands in its range
(`exists_text_split`), and the text of a child is found in it at the place that
the two ranges say (`exists_child_split`).
-/

namespace CorpusMark

namespace Arena

/-- Every node covers a range of the source text, inside that of its parent. -/
structure Ranged (a : Arena) : Prop where
  ordered : ∀ n : Node, n.arena = a → n.span.start ≤ n.span.stop
  start_boundary : ∀ n : Node, n.arena = a →
    Text.isBoundary a.source.toList n.span.start = true
  stop_boundary : ∀ n : Node, n.arena = a →
    Text.isBoundary a.source.toList n.span.stop = true
  inside : ∀ n : Node, n.arena = a → ∀ c ∈ n.children, n.span.contains c.span = true

/-- The tree of a source text. -/
structure WellFormed (a : Arena) : Prop where
  ordered : ∀ n : Node, n.arena = a → n.span.start ≤ n.span.stop
  start_boundary : ∀ n : Node, n.arena = a →
    Text.isBoundary a.source.toList n.span.start = true
  stop_boundary : ∀ n : Node, n.arena = a →
    Text.isBoundary a.source.toList n.span.stop = true
  inside : ∀ n : Node, n.arena = a → ∀ c ∈ n.children, n.span.contains c.span = true
  parenthesized : ∀ n : Node, n.arena = a → n.kind = .argumentList →
    ∃ mid, n.text.toList = '(' :: (mid ++ [')'])
  condition : ∀ n : Node, n.arena = a → n.kind = .ifStatement →
    (n.child? "condition").isSome = true

theorem WellFormed.ranged {a : Arena} (h : a.WellFormed) : a.Ranged where
  ordered := h.ordered
  start_boundary := h.start_boundary
  stop_boundary := h.stop_boundary
  inside := h.inside

theorem mem_nodes_iff {a : Arena} {n : Node} : n ∈ a.nodes ↔ n.arena = a := by
  rw [nodes, List.mem_ofFn]
  constructor
  · rintro ⟨i, rfl⟩
    rfl
  · rintro rfl
    exact ⟨⟨n.id, n.valid⟩, rfl⟩

/-- Whether a text stands in parentheses can be read off its inside. -/
theorem exists_inside_iff {cs : List Char} :
    (∃ mid, cs = '(' :: (mid ++ [')'])) ↔ cs = '(' :: ((cs.drop 1).dropLast ++ [')']) := by
  constructor
  · rintro ⟨mid, rfl⟩
    simp
  · intro h
    exact ⟨_, h⟩

/-- Well-formedness is a condition on each node. -/
theorem wellFormed_iff {a : Arena} :
    a.WellFormed ↔ ∀ n ∈ a.nodes, n.span.start ≤ n.span.stop ∧
      Text.isBoundary a.source.toList n.span.start = true ∧
      Text.isBoundary a.source.toList n.span.stop = true ∧
      (∀ c ∈ n.children, n.span.contains c.span = true) ∧
      (n.kind = .argumentList →
        n.text.toList = '(' :: ((n.text.toList.drop 1).dropLast ++ [')'])) ∧
      (n.kind = .ifStatement → (n.child? "condition").isSome = true) := by
  simp only [mem_nodes_iff, ← exists_inside_iff]
  constructor
  · intro h n hn
    exact ⟨h.ordered n hn, h.start_boundary n hn, h.stop_boundary n hn, h.inside n hn,
      h.parenthesized n hn, h.condition n hn⟩
  · intro h
    exact {
      ordered := fun n hn => (h n hn).1
      start_boundary := fun n hn => (h n hn).2.1
      stop_boundary := fun n hn => (h n hn).2.2.1
      inside := fun n hn => (h n hn).2.2.2.1
      parenthesized := fun n hn => (h n hn).2.2.2.2.1
      condition := fun n hn => (h n hn).2.2.2.2.2 }

instance (a : Arena) : Decidable a.WellFormed :=
  decidable_of_iff _ wellFormed_iff.symm

theorem node?_id (n : Node) : n.arena.node? n.id = some n := by
  rw [node?, dif_pos n.valid]

theorem node?_eq_some_iff {a : Arena} {i : Nat} {n : Node} :
    a.node? i = some n ↔ n.arena = a ∧ n.id = i := by
  constructor
  · intro h
    by_cases hi : i < a.entries.size
    · rw [node?, dif_pos hi] at h
      cases h
      exact ⟨rfl, rfl⟩
    · rw [node?, dif_neg hi] at h
      cases h
  · rintro ⟨rfl, rfl⟩
    exact node?_id n

end Arena

namespace Node

variable {n c : Node}

theorem arena_of_mem_children (h : c ∈ n.children) : c.arena = n.arena := by
  simp only [children, List.mem_pmap] at h
  obtain ⟨i, hi, rfl⟩ := h
  rfl

theorem mem_children_of_child? {field : String} (h : n.child? field = some c) :
    c ∈ n.children :=
  List.mem_of_find?_eq_some h

theorem arena_of_child? {field : String} (h : n.child? field = some c) : c.arena = n.arena :=
  arena_of_mem_children (mem_children_of_child? h)

theorem mem_children_of_firstSignificant? (h : n.firstSignificant? = some c) :
    c ∈ n.children :=
  (List.mem_filter.mp (List.mem_of_mem_head? h)).1

variable (hranged : n.arena.Ranged)

include hranged

/-- The text of a node is what stands in its range. -/
theorem exists_text_split :
    ∃ before after, n.arena.source.toList = before ++ n.text.toList ++ after ∧
      Text.byteLength before = n.span.start ∧
      Text.byteLength (before ++ n.text.toList) = n.span.stop := by
  obtain ⟨before, mid, after, hsource, hstart, hstop⟩ := Text.exists_split
    (hranged.ordered n rfl) (hranged.start_boundary n rfl) (hranged.stop_boundary n rfl)
  have htext : n.text = String.ofList mid := by
    rw [text, ← hstart, ← hstop, Text.slice?_eq_some hsource, Option.getD_some]
  rw [htext, String.toList_ofList]
  exact ⟨before, after, hsource, hstart, hstop⟩

/-- The text of a node is never empty for want of a range. -/
theorem slice?_span :
    Text.slice? n.arena.source n.span.start n.span.stop = some n.text := by
  obtain ⟨before, after, hsource, hstart, hstop⟩ := exists_text_split hranged
  exact Text.slice?_eq_some_iff.mpr ⟨before, after, hsource, hstart, hstop⟩

/-- The text of a child stands in the text of its parent where the ranges say. -/
theorem exists_child_split (hc : c ∈ n.children) :
    ∃ before after, n.text = before ++ c.text ++ after ∧
      n.span.start + Text.byteLength before.toList = c.span.start ∧
      c.span.start + Text.byteLength c.text.toList = c.span.stop := by
  have harena := arena_of_mem_children hc
  have hinside := Span.contains_iff.mp (hranged.inside n rfl c hc)
  obtain ⟨before, after, hsource, hstart, hstop⟩ := exists_text_split hranged
  obtain ⟨upto, rest, hcut, hcstart, hcstop⟩ := exists_text_split (n := c) (by rwa [harena])
  rw [harena, hsource, List.append_assoc, List.append_assoc] at hcut
  -- the child starts behind the start of the parent and stops before its end
  obtain ⟨lead, rfl, htail⟩ := Text.exists_between hcut.symm (by omega)
  rw [← List.append_assoc] at htail
  obtain ⟨trail, htext, -⟩ := Text.exists_between htail (by
    simp only [Text.byteLength_append] at *
    omega)
  refine ⟨String.ofList lead, String.ofList trail, ?_, ?_, ?_⟩
  · refine String.toList_inj.mp ?_
    simp only [String.toList_append, String.toList_ofList, htext]
  · rw [String.toList_ofList, ← hcstart, Text.byteLength_append, hstart]
  · rw [← hcstop, ← hcstart, Text.byteLength_append _ c.text.toList]

end Node

end CorpusMark
