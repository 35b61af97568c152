import CorpusMark.Proofs.Budgets
import CorpusMark.Proofs.Descent
import CorpusMark.Proofs.Failures
import CorpusMark.Proofs.Insertions

/-!
# Interference is nesting

In a tree whose nodes cover what their children cover, one child behind the
other, ranges overlap for one reason only: one of the two nodes lies on the way
from the root to the other. So the search for disjoint occurrences, which knows
ranges and no tree, fails exactly if every choice takes two nodes on one path
from the root to a leaf.

- `Tree.Nested`: how the ranges of children lie in that of their parent. The
  arena of a nested tree has ranges like that (`Arena.nested_of_ofTree`).
- `Node.OnOnePath`: two nodes at or above one leaf; one of them is then at or
  above the other (`Node.onOnePath_iff`).
- `Node.exists_parting`: else the ways to them part at some node, to two of its
  children.
- `Node.overlaps_iff_onOnePath`: nodes that cover something overlap exactly if
  they are on one path.
- `Rewriter.interference_onOnePath`: the search, and with it the rewrite, fails
  for interference exactly if no choice avoids such nodes.
-/

namespace CorpusMark

/-- Everywhere in the tree the ranges of children lie in that of their parent,
one behind the other. -/
inductive Tree.Nested : Tree → Prop where
  | node {label : Label} {ts : List Tree}
      (inside : ∀ t ∈ ts, label.span.contains t.label.span = true)
      (apart : ts.Pairwise fun t u => t.label.span.stop ≤ u.label.span.start)
      (below : ∀ t ∈ ts, Nested t) : Nested (.node label ts)

theorem Tree.nested_node_iff {label : Label} {ts : List Tree} :
    (Tree.node label ts).Nested ↔ (∀ t ∈ ts, label.span.contains t.label.span = true) ∧
      (ts.Pairwise fun t u => t.label.span.stop ≤ u.label.span.start) ∧ ∀ t ∈ ts, t.Nested := by
  constructor
  · rintro ⟨inside, apart, below⟩
    exact ⟨inside, apart, below⟩
  · rintro ⟨inside, apart, below⟩
    exact .node inside apart below

/-- The ranges of children lie in that of their parent, one behind the other. -/
structure Arena.Nested (a : Arena) : Prop where
  inside : ∀ n : Node, n.arena = a → ∀ c ∈ n.children, n.span.contains c.span = true
  apart : ∀ n : Node, n.arena = a →
    n.children.Pairwise fun c d => c.span.stop ≤ d.span.start

namespace Node

/-! ## Paths -/

/-- The node itself or one of its ancestors. -/
def IsAtOrAbove (n d : Node) : Prop :=
  Relation.ReflTransGen (fun p c => c ∈ p.children) n d

theorem isAtOrAbove_iff {n d : Node} : n.IsAtOrAbove d ↔ n = d ∨ n.IsAncestorOf d := by
  rw [IsAtOrAbove, Relation.reflTransGen_iff_eq_or_transGen, eq_comm]
  rfl

theorem arena_of_isAtOrAbove {n d : Node} (h : n.IsAtOrAbove d) : d.arena = n.arena := by
  rcases isAtOrAbove_iff.mp h with rfl | hbelow
  · rfl
  · exact arena_of_isAncestorOf hbelow

/-- Every node is on the way to some leaf. -/
theorem exists_leaf (n : Node) : ∃ leaf : Node, leaf.children = [] ∧ n.IsAtOrAbove leaf := by
  induction hk : n.following using Nat.strongRecOn generalizing n with
  | ind k ih =>
    subst hk
    cases hchildren : n.children with
    | nil => exact ⟨n, hchildren, .refl⟩
    | cons c cs =>
      have hc : c ∈ n.children := by rw [hchildren]; exact List.mem_cons_self
      obtain ⟨leaf, hleaf, hpath⟩ := ih _ (following_lt_of_mem_children hc) c rfl
      exact ⟨leaf, hleaf, .head hc hpath⟩

/-- There is a path from the root to a leaf that goes through both nodes. -/
def OnOnePath (m n : Node) : Prop :=
  ∃ leaf : Node, leaf.children = [] ∧ m.IsAtOrAbove leaf ∧ n.IsAtOrAbove leaf

/-- A node has one parent. -/
theorem eq_of_mem_children {p q c : Node} (hlinked : c.arena.Linked) (hp : c ∈ p.children)
    (hq : c ∈ q.children) : p = q := by
  have hparena := arena_of_mem_children hp
  have hqarena := arena_of_mem_children hq
  have hpc := ((mem_children_iff (by rwa [← hparena])).mp hp).2
  have hqc := ((mem_children_iff (by rwa [← hqarena])).mp hq).2
  rw [← hparena] at hpc
  rw [← hqarena, hpc] at hqc
  exact eq_of_id_eq (hparena.symm.trans hqarena) (Option.some.inj hqc)

/-- What is above one node is above or below one another. -/
theorem isAtOrAbove_total {m n d : Node} (hlinked : d.arena.Linked) (hm : m.IsAtOrAbove d)
    (hn : n.IsAtOrAbove d) : m.IsAtOrAbove n ∨ n.IsAtOrAbove m := by
  induction hm with
  | refl => exact .inr hn
  | @tail p c hmp hc ih =>
    rcases Relation.ReflTransGen.cases_tail hn with rfl | ⟨q, hnq, hq⟩
    · exact .inl (.tail hmp hc)
    · obtain rfl := eq_of_mem_children hlinked hc hq
      exact ih (by rwa [← arena_of_mem_children hc]) hnq

/-- **Two nodes are on one path** exactly if they are equal or one is above the
other. -/
theorem onOnePath_iff {m n : Node} (hlinked : m.arena.Linked) :
    m.OnOnePath n ↔ m = n ∨ m.IsAncestorOf n ∨ n.IsAncestorOf m := by
  constructor
  · rintro ⟨leaf, -, hm, hn⟩
    have hleaf : leaf.arena.Linked := by rwa [arena_of_isAtOrAbove hm]
    rcases isAtOrAbove_total hleaf hm hn with h | h <;>
      rcases isAtOrAbove_iff.mp h with rfl | hbelow
    · exact .inl rfl
    · exact .inr (.inl hbelow)
    · exact .inl rfl
    · exact .inr (.inr hbelow)
  · rintro (rfl | hbelow | hbelow)
    · obtain ⟨leaf, hleaf, hpath⟩ := exists_leaf m
      exact ⟨leaf, hleaf, hpath, hpath⟩
    · obtain ⟨leaf, hleaf, hpath⟩ := exists_leaf n
      exact ⟨leaf, hleaf, (isAtOrAbove_iff.mpr (.inr hbelow)).trans hpath, hpath⟩
    · obtain ⟨leaf, hleaf, hpath⟩ := exists_leaf m
      exact ⟨leaf, hleaf, hpath, (isAtOrAbove_iff.mpr (.inr hbelow)).trans hpath⟩

/-- The first node is above all others. -/
theorem isAtOrAbove_of_first {r n : Node} (hlinked : n.arena.Linked) (harena : r.arena = n.arena)
    (hr : r.id = 0) : r.IsAtOrAbove n := by
  induction hk : n.id using Nat.strongRecOn generalizing n with
  | ind k ih =>
    subst hk
    by_cases hid : n.id = 0
    · obtain rfl := eq_of_id_eq harena (hr.trans hid.symm)
      exact .refl
    · obtain ⟨p, hp, hparena⟩ := exists_parent n hlinked hid
      exact .tail (ih p.id (id_lt_of_mem_children hp) (by rwa [hparena])
        (harena.trans hparena.symm) rfl) hp

/-- **The ways to two nodes part** at a node that is above both, unless one of
them is above the other. -/
theorem exists_parting {r m n : Node} (hm : r.IsAtOrAbove m) (hn : r.IsAtOrAbove n)
    (hmn : ¬ m.IsAtOrAbove n) (hnm : ¬ n.IsAtOrAbove m) :
    ∃ p c d : Node, r.IsAtOrAbove p ∧ c ∈ p.children ∧ d ∈ p.children ∧ c ≠ d ∧
      c.IsAtOrAbove m ∧ d.IsAtOrAbove n := by
  -- along the way to the first node, as far as it leads to the second one as well
  induction hm using Relation.ReflTransGen.head_induction_on with
  | refl => exact absurd hn hmn
  | @head r c hc hcm ih =>
    rcases Relation.ReflTransGen.cases_head hn with rfl | ⟨d, hd, hdn⟩
    · exact absurd (.head hc hcm) hnm
    · by_cases hcd : c = d
      · subst hcd
        obtain ⟨p, c', d', hp, hpart⟩ := ih hdn
        exact ⟨p, c', d', .head hc hp, hpart⟩
      · exact ⟨r, c, d, .refl, hc, hd, hcd, hcm, hdn⟩

end Node

/-! ## Ranges -/

namespace Node

theorem label_tree (n : Node) : n.tree.label = n.entry.label := by
  rw [tree_eq, Tree.label]

theorem nested_tree_of_isAtOrAbove {n d : Node} (hn : n.tree.Nested) (h : n.IsAtOrAbove d) :
    d.tree.Nested := by
  induction h with
  | refl => exact hn
  | @tail p c _ hc ih =>
    rw [tree_eq, Tree.nested_node_iff] at ih
    exact ih.2.2 c.tree (List.mem_map_of_mem hc)

end Node

/-- **The arena of a nested tree is nested.** -/
theorem Arena.nested_of_ofTree {limit : Nat} {source : String} {t : Tree} {a : Arena}
    (h : ofTree limit source t = .ok a) (ht : t.Nested) : a.Nested := by
  obtain ⟨root, hroot, htree⟩ := (isCopyOf_of_ofTree h).exists_root
  obtain ⟨harena, hid⟩ := node?_eq_some_iff.mp hroot
  -- what is read at a node is a part of the tree
  have hall : ∀ n : Node, n.arena = a → n.tree.Nested := by
    intro n hn
    have hlinked : n.arena.Linked := by
      rw [hn]
      exact linked_of_ofTree h
    exact Node.nested_tree_of_isAtOrAbove (by rwa [htree])
      (Node.isAtOrAbove_of_first hlinked (harena.trans hn.symm) hid)
  constructor
  case inside =>
    intro n hn c hc
    have hnested := hall n hn
    rw [Node.tree_eq, Tree.nested_node_iff] at hnested
    have hcontains := hnested.1 c.tree (List.mem_map_of_mem hc)
    rwa [Node.label_tree] at hcontains
  case apart =>
    intro n hn
    have hnested := hall n hn
    rw [Node.tree_eq, Tree.nested_node_iff, List.pairwise_map] at hnested
    simp only [Node.label_tree] at hnested
    exact hnested.2.1

namespace Node

section Nested

variable {a : Arena} (hnested : a.Nested)

include hnested

/-- A node covers what is below it. -/
theorem span_of_isAtOrAbove {n d : Node} (hn : n.arena = a) (h : n.IsAtOrAbove d) :
    n.span.start ≤ d.span.start ∧ d.span.stop ≤ n.span.stop := by
  induction h with
  | refl => exact ⟨Nat.le_refl _, Nat.le_refl _⟩
  | @tail p c hp hc ih =>
    have hcontains := hnested.inside p ((arena_of_isAtOrAbove hp).trans hn) c hc
    rw [Span.contains_iff] at hcontains
    omega

/-- One of two children ends before the other starts. -/
theorem apart_of_mem_children {p c d : Node} (hp : p.arena = a) (hc : c ∈ p.children)
    (hd : d ∈ p.children) (hcd : c ≠ d) :
    c.span.stop ≤ d.span.start ∨ d.span.stop ≤ c.span.start := by
  have hsymm : Std.Symm fun c d : Node =>
      c.span.stop ≤ d.span.start ∨ d.span.stop ≤ c.span.start := ⟨fun _ _ h => h.symm⟩
  have hpair : p.children.Pairwise fun c d =>
      c.span.stop ≤ d.span.start ∨ d.span.stop ≤ c.span.start :=
    (hnested.apart p hp).imp fun h => Or.inl h
  exact hpair.forall hc hd hcd

/-- **Ranges overlap exactly if the nodes are on one path.** -/
theorem overlaps_iff_onOnePath (hlinked : a.Linked) {m n : Node} (hm : m.arena = a)
    (hn : n.arena = a) (hmspan : m.span.start < m.span.stop) (hnspan : n.span.start < n.span.stop) :
    m.span.overlaps n.span = true ↔ m = n ∨ m.IsAncestorOf n ∨ n.IsAncestorOf m := by
  rw [Span.overlaps_iff]
  constructor
  · intro hoverlap
    by_contra hpath
    simp only [not_or] at hpath
    obtain ⟨hne, hmn, hnm⟩ := hpath
    let r : Node := ⟨a, 0, Nat.lt_of_le_of_lt (Nat.zero_le _) (hm ▸ m.valid)⟩
    obtain ⟨p, c, d, hp, hc, hd, hcd, hcm, hdn⟩ := exists_parting
      (isAtOrAbove_of_first (r := r) (by rwa [hm]) hm.symm rfl)
      (isAtOrAbove_of_first (r := r) (by rwa [hn]) hn.symm rfl)
      (mt isAtOrAbove_iff.mp (not_or.mpr ⟨hne, hmn⟩))
      (mt isAtOrAbove_iff.mp (not_or.mpr ⟨Ne.symm hne, hnm⟩))
    -- the nodes lie in two siblings, which do not overlap
    have hparena : p.arena = a := arena_of_isAtOrAbove hp
    have hapart := apart_of_mem_children hnested hparena hc hd hcd
    have hcover := span_of_isAtOrAbove hnested ((arena_of_mem_children hc).trans hparena) hcm
    have hcover' := span_of_isAtOrAbove hnested ((arena_of_mem_children hd).trans hparena) hdn
    omega
  · rintro (rfl | hbelow | hbelow)
    · exact ⟨hmspan, hmspan⟩
    · have := span_of_isAtOrAbove hnested hm (isAtOrAbove_iff.mpr (.inr hbelow))
      omega
    · have := span_of_isAtOrAbove hnested hn (isAtOrAbove_iff.mpr (.inr hbelow))
      omega

end Nested

end Node

/-! ## Found nodes -/

namespace Occurrence

variable {a : Arena}

/-- The occurrence names the node and has its range. -/
def IsAt (a : Arena) (o : Occurrence) (n : Node) : Prop :=
  a.node? o.node = some n ∧ n.span = o.span

variable {l : Language} {index : Nat} {ids : List String} {found : MatchSet}

/-- **What is found are nodes of the arena.** -/
theorem exists_isAt_of_findAll (h : findAll (Catalog.ofLanguage l) ⟨index, a⟩ ids = .ok found)
    {id : String} {o : Occurrence} (ho : o ∈ found.occurrences id) : ∃ n, o.IsAt a n := by
  obtain ⟨hknown, hanswers⟩ := answers_of_findAll (Catalog.nodup_ids l) h
  -- an id without an entry has no occurrences
  have hid : id ∈ ids := by
    rw [← hanswers.mem_keys_iff, SortedMap.mem_keys_iff]
    cases hentry : found.get? id with
    | none =>
      rw [MatchSet.occurrences, hentry] at ho
      exact absurd ho (Array.not_mem_empty o)
    | some v => exact ⟨v, rfl⟩
  obtain ⟨t, ht, rfl⟩ := List.mem_map.mp (hknown id hid)
  rw [MatchSet.occurrences, hanswers.get?_eq t ht hid, Option.getD_some, naive,
    List.mem_toArray] at ho
  obtain ⟨n, hn, rfl⟩ := List.mem_map.mp ho
  obtain rfl := Arena.mem_nodes_iff.mp (List.mem_filter.mp hn).1
  exact ⟨n, Arena.node?_id n, rfl⟩

end Occurrence

/-! ## Tangled choices -/

namespace Assignment

/-- Two of the chosen nodes are on one path from the root to a leaf, which they
are in particular if one node is chosen twice. -/
def Tangled (a : Arena) (os : List Occurrence) : Prop :=
  ∃ (i j : Nat) (o o' : Occurrence), i < j ∧ os[i]? = some o ∧ os[j]? = some o' ∧
    ∃ m n, a.node? o.node = some m ∧ a.node? o'.node = some n ∧ m.OnOnePath n

section Tangled

variable {a : Arena} (hnested : a.Nested) (hlinked : a.Linked)

include hnested hlinked

theorem overlaps_iff_of_isAt {o o' : Occurrence} {m n : Node} (hm : o.IsAt a m)
    (hn : o'.IsAt a n) (ho : o.span.start < o.span.stop) (ho' : o'.span.start < o'.span.stop) :
    o.span.overlaps o'.span = true ↔ m.OnOnePath n := by
  have hmarena := (Arena.node?_eq_some_iff.mp hm.1).1
  have hnarena := (Arena.node?_eq_some_iff.mp hn.1).1
  rw [← hm.2] at ho ⊢
  rw [← hn.2] at ho' ⊢
  rw [Node.overlaps_iff_onOnePath hnested hlinked hmarena hnarena ho ho',
    Node.onOnePath_iff (by rwa [hmarena])]

/-- **A choice of nodes that cover something is disjoint unless it is tangled.** -/
theorem not_disjoint_iff_tangled {os : List Occurrence}
    (hos : ∀ o ∈ os, o.span.start < o.span.stop ∧ ∃ n, o.IsAt a n) :
    ¬ Disjoint os ↔ Tangled a os := by
  rw [Disjoint, List.pairwise_iff_getElem]
  constructor
  · intro h
    push Not at h
    obtain ⟨i, j, hi, hj, hij, hoverlap⟩ := h
    obtain ⟨hspan, m, hm⟩ := hos _ (List.getElem_mem hi)
    obtain ⟨hspan', n, hn⟩ := hos _ (List.getElem_mem hj)
    exact ⟨i, j, os[i], os[j], hij, List.getElem?_eq_getElem hi, List.getElem?_eq_getElem hj,
      m, n, hm.1, hn.1, (overlaps_iff_of_isAt hnested hlinked hm hn hspan hspan').mp
        (Bool.eq_true_of_not_eq_false hoverlap)⟩
  · rintro ⟨i, j, o, o', hij, hi, hj, m, n, hm, hn, hpath⟩ hdisjoint
    obtain ⟨hilt, rfl⟩ := List.getElem?_eq_some_iff.mp hi
    obtain ⟨hjlt, rfl⟩ := List.getElem?_eq_some_iff.mp hj
    obtain ⟨hspan, m', hm'⟩ := hos _ (List.getElem_mem hilt)
    obtain ⟨hspan', n', hn'⟩ := hos _ (List.getElem_mem hjlt)
    obtain rfl : m = m' := Option.some.inj (hm.symm.trans hm'.1)
    obtain rfl : n = n' := Option.some.inj (hn.symm.trans hn'.1)
    have hoverlap := (overlaps_iff_of_isAt hnested hlinked hm' hn' hspan hspan').mpr hpath
    rw [hdisjoint i j hilt hjlt hij] at hoverlap
    cases hoverlap

/-- Of what is found no choice is disjoint exactly if every choice is tangled. -/
theorem forall_not_disjoint_iff_tangled {l : Language} {index : Nat} {ids : List String}
    {found : MatchSet} (hfind : Occurrence.findAll (Catalog.ofLanguage l) ⟨index, a⟩ ids = .ok found)
    {terms : List Term}
    (hspans : ∀ t ∈ terms, ∀ o ∈ found.occurrences t.id, o.span.start < o.span.stop) :
    (∀ js os, Picks (terms.map fun t => (found.occurrences t.id).toList) js os → ¬ Disjoint os) ↔
      ∀ js os, Picks (terms.map fun t => (found.occurrences t.id).toList) js os →
        Tangled a os := by
  refine forall_congr' fun js => forall_congr' fun os => forall_congr' fun hpicks => ?_
  refine not_disjoint_iff_tangled hnested hlinked fun o ho => ?_
  obtain ⟨t, ht, hot⟩ := hpicks.exists_mem ho
  rw [Array.mem_toList_iff] at hot
  exact ⟨hspans t ht o hot, Occurrence.exists_isAt_of_findAll hfind hot⟩

end Tangled

end Assignment

/-! ## Interference -/

namespace Rewriter

variable {r : Rewriter} {a : Arena} {found : MatchSet} {b : Backdoor}

/-- A rewrite whose edits are disjoint does not interfere. -/
theorem applyAll_ne_interference {source : String} {edits : List Edit}
    (h : Edit.Apart edits) (ids : List String) :
    applyAll source edits ≠ .error (.interference ids) := by
  intro herr
  rw [applyAll] at herr
  cases happly : applyEdits source edits with
  | ok out =>
    rw [happly] at herr
    cases herr
  | error e =>
    rw [happly] at herr
    cases e with
    | overlap =>
      exact Edit.not_apart_of_neighboursOverlap (Edit.applyEdits_eq_overlap_iff.mp happly) h
    | outside span => cases herr
    | reversed span => cases herr

/-- **Once there is a choice, nothing interferes.** -/
theorem applyBackdoor_ne_interference
    (hall : ∀ t ∈ b.terms, found.occurrences t.id ≠ #[])
    (hspans : ∀ t ∈ b.terms, ∀ o ∈ found.occurrences t.id, o.span.start < o.span.stop)
    {chosen : List Occurrence}
    (h : Assignment.chooseDisjoint r.searchBudget
      (b.terms.map fun t => (found.occurrences t.id).toList) = some chosen) (ids : List String) :
    r.applyBackdoor a found b ≠ .error (.interference ids) := by
  intro herr
  rw [applyBackdoor, candidates_eq_ok_iff.mpr ⟨hall, rfl⟩, Attempts.bind_ok, h] at herr
  rcases Attempts.bind_eq_error_iff.mp herr with hmapM | ⟨edits, hmapM, hrest⟩
  · obtain ⟨_, x, _, -, -, hx⟩ := Attempts.mapM_eq_error_iff.mp hmapM
    cases declined_of_editFor hx
  · rcases Attempts.bind_eq_error_iff.mp hrest with happly | ⟨out, -, hverify⟩
    · -- the edits are as disjoint as the choice
      rw [Attempts.mapM_eq_ok_iff] at hmapM
      simp only [editFor_eq_ok_iff] at hmapM
      obtain ⟨js, hfirst⟩ := Assignment.isFirst_of_chooseDisjoint h
      exact applyAll_ne_interference (spans_of_isFirst hspans hfirst hmapM).2 ids happly
    · obtain ⟨reason, hreason⟩ := invalidOutput_of_verify hverify
      cases hreason

/-- **Interference is nesting.** In the arena of a nested tree the ranges of two
nodes that cover something overlap exactly if the nodes are equal or one is
above the other. So take what is found in it for a backdoor of which every term
occurs, all of it covering something. A budget from some number of candidates
on, and no smaller one, lets the search come to its end. With such a budget
there is no choice exactly if every choice of one occurrence for each term takes
two nodes on one path or a node twice, and exactly then the rewrite fails for
interference, naming the terms of the backdoor. -/
theorem interference_onOnePath {limit : Nat} {source : String} {t : Tree} {a : Arena}
    (h : Arena.ofTree limit source t = .ok a) (ht : t.Nested) :
    (∀ m n : Node, m.arena = a → n.arena = a → m.span.start < m.span.stop →
      n.span.start < n.span.stop →
      (m.span.overlaps n.span = true ↔ m = n ∨ m.IsAncestorOf n ∨ n.IsAncestorOf m)) ∧
    ∀ (l : Language) (index : Nat) (ids : List String) (found : MatchSet),
      Occurrence.findAll (Catalog.ofLanguage l) ⟨index, a⟩ ids = .ok found →
      ∀ b : Backdoor, (∀ t ∈ b.terms, found.occurrences t.id ≠ #[]) →
        (∀ t ∈ b.terms, ∀ o ∈ found.occurrences t.id, o.span.start < o.span.stop) →
        ∀ options, options = b.terms.map (fun t => (found.occurrences t.id).toList) →
          ∃ enough ≤ Assignment.mostChecks options,
            (∀ budget, Assignment.searchAll budget options = .spent ↔ budget < enough) ∧
            ∀ r : Rewriter, enough ≤ r.searchBudget →
              (Assignment.chooseDisjoint r.searchBudget options = none ↔
                ∀ js os, Assignment.Picks options js os → Assignment.Tangled a os) ∧
              ∀ named, r.applyBackdoor a found b = .error (.interference named) ↔
                named = b.ids ∧
                  ∀ js os, Assignment.Picks options js os → Assignment.Tangled a os := by
  have hnested := Arena.nested_of_ofTree h ht
  have hlinked := Arena.linked_of_ofTree h
  refine ⟨fun m n hm hn hmspan hnspan =>
    Node.overlaps_iff_onOnePath hnested hlinked hm hn hmspan hnspan, ?_⟩
  rintro l index ids found hfind b hall hspans options rfl
  obtain ⟨enough, hmost, result, htakes⟩ := Assignment.exists_takes_search
    (b.terms.map fun t => (found.occurrences t.id).toList) []
  refine ⟨enough, hmost, htakes.searchAll_eq_spent_iff, fun r henough => ?_⟩
  have hnone : Assignment.chooseDisjoint r.searchBudget
      (b.terms.map fun t => (found.occurrences t.id).toList) = none ↔
        ∀ js os, Assignment.Picks (b.terms.map fun t => (found.occurrences t.id).toList) js os →
          Assignment.Tangled a os := by
    rw [htakes.no_choice_iff, or_iff_right (Nat.not_lt.mpr henough)]
    exact Assignment.forall_not_disjoint_iff_tangled hnested hlinked hfind hspans
  refine ⟨hnone, fun named => ?_⟩
  rw [← hnone]
  cases hchoose : Assignment.chooseDisjoint r.searchBudget
      (b.terms.map fun t => (found.occurrences t.id).toList) with
  | none =>
    rw [applyBackdoor_of_none hall hchoose]
    simp [eq_comm]
  | some chosen =>
    have hne := applyBackdoor_ne_interference (a := a) hall hspans hchoose named
    simp [hne]

/-- The tree of `f(print(x))`. -/
def printCall : Tree :=
  let node (kind : String) (field : Option String) (start stop : Nat) (ts : List Tree) : Tree :=
    .node ⟨kind, field, ⟨start, stop⟩, true, false, false⟩ ts
  let token (text : String) (start : Nat) : Tree :=
    .node ⟨text, none, ⟨start, start + 1⟩, false, false, false⟩ []
  node "call" none 0 11
    [node "identifier" (some "function") 0 1 [],
     node "argument_list" (some "arguments") 1 11
      [token "(" 1,
       node "call" none 2 10
        [node "identifier" (some "function") 2 7 [],
         node "argument_list" (some "arguments") 7 10
          [token "(" 7, node "identifier" none 8 9 [], token ")" 9]],
       token ")" 10]]

/-- Both calls in `f(print(x))` lie on the way to the print, which is one of them. -/
theorem interference_onOnePath_printCall :
    ∃ a found, Arena.ofTree 4 "f(print(x))" printCall = .ok a ∧ printCall.Nested ∧
      Occurrence.findAll (Catalog.ofLanguage .python) ⟨0, a⟩ ["call", "print"] = .ok found ∧
      (∀ t ∈ printBackdoor.terms, found.occurrences t.id ≠ #[]) ∧
      (∀ t ∈ printBackdoor.terms, ∀ o ∈ found.occurrences t.id, o.span.start < o.span.stop) ∧
      (∀ js os, Assignment.Picks
        (printBackdoor.terms.map fun t => (found.occurrences t.id).toList) js os →
          Assignment.Tangled a os) ∧
      applyBackdoor ⟨none, 4⟩ a found printBackdoor = .error (.interference ["call", "print"]) := by
  obtain ⟨a, found, hok, hfind, hall, hspans, hmost, hnone⟩ :
      ∃ a found, Arena.ofTree 4 "f(print(x))" printCall = .ok a ∧
        Occurrence.findAll (Catalog.ofLanguage .python) ⟨0, a⟩ ["call", "print"] = .ok found ∧
        (∀ t ∈ printBackdoor.terms, found.occurrences t.id ≠ #[]) ∧
        (∀ t ∈ printBackdoor.terms, ∀ o ∈ found.occurrences t.id, o.span.start < o.span.stop) ∧
        Assignment.mostChecks
          (printBackdoor.terms.map fun t => (found.occurrences t.id).toList) = 4 ∧
        Assignment.chooseDisjoint 4
          (printBackdoor.terms.map fun t => (found.occurrences t.id).toList) = none := by
    refine ⟨_, _, (Arena.ofTree_eq_addTree ..).trans rfl, rfl, ?_, ?_, ?_, ?_⟩ <;>
      decide +kernel
  have hnested : printCall.Nested := by
    simp [printCall, Tree.nested_node_iff, Tree.label]
  obtain ⟨-, hinterference⟩ := interference_onOnePath hok hnested
  obtain ⟨enough, hle, -, hresult⟩ :=
    hinterference .python 0 _ found hfind printBackdoor hall hspans _ rfl
  obtain ⟨hchoice, happly⟩ := hresult ⟨none, 4⟩ (hle.trans (Nat.le_of_eq hmost))
  exact ⟨a, found, hok, hnested, hfind, hall, hspans, hchoice.mp hnone,
    (happly _).mpr ⟨rfl, hchoice.mp hnone⟩⟩

end Rewriter

end CorpusMark
