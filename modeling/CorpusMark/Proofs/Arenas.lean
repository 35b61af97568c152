import CorpusMark.Proofs.Parsing
import CorpusMark.Proofs.WellFormed
import Mathlib.Data.List.Nodup

/-!
# Arenas are copies of trees

The arena of a tree has the links of that tree: read along the children from
node 0, it gives the tree back (`ofTree_copies`). Going down and up with the
cursor never hangs a node under the wrong parent.

- `Linked`: the two kinds of link agree. Appending a node under the right
  parent keeps that (`Linked.add`).
- `Shows a i t`: below node `i` the arena looks like the tree `t`.
- `Grown`: what copying under a node leaves of the arena there was. Only that
  node gets further children, so what is shown below other nodes stays
  (`Shows.of_grown`).
- `addTree_copied`: one copied tree, and so by the recursion all of them, is
  linked, shown and leaves the rest as it was.
-/

namespace CorpusMark

namespace Arena

/-! ## Views of an arena -/

/-- The label at an index. -/
def labelAt (a : Arena) (i : Nat) : Option Label :=
  a.entries[i]?.map Entry.label

/-- The depth at an index. -/
def depthAt (a : Arena) (i : Nat) : Option Nat :=
  a.entries[i]?.map Entry.depth

/-- The parent of the node at an index. -/
def parentAt (a : Arena) (i : Nat) : Option Nat :=
  a.entries[i]?.bind Entry.parent

/-- The children of the node at an index. -/
def childrenAt (a : Arena) (i : Nat) : List Nat :=
  (a.entries[i]?.map fun e => e.children.toList).getD []

theorem exists_getElem? {a : Arena} {i : Nat} (h : i < a.size) : ∃ e, a.entries[i]? = some e :=
  ⟨_, Array.getElem?_eq_getElem h⟩

section Add

variable (a : Arena) (parent : Option Nat) (depth : Nat) (label : Label) (i : Nat)

/-- What is appended comes last, and its parent gets one more child. -/
theorem getElem?_add :
    (a.add parent depth label).entries[i]?
      = if i = a.size then some ⟨label, depth, parent.filter (· < a.size), #[]⟩
        else a.entries[i]?.map fun e =>
          if parent = some i then { e with children := e.children.push a.size } else e := by
  simp only [add, Array.getElem?_push, size_link]
  by_cases h : i = a.size
  · rw [if_pos h]
    exact if_pos h
  · rw [if_neg h, if_neg (show ¬ i = a.entries.size from h)]
    cases parent with
    | none => simp [link]
    | some p =>
      simp only [link, Array.getElem?_modify, Option.some.injEq]
      by_cases hp : p = i
      · simp only [hp, if_true]
        rfl
      · simp [hp]

theorem labelAt_add :
    (a.add parent depth label).labelAt i = if i = a.size then some label else a.labelAt i := by
  rw [labelAt, getElem?_add, labelAt]
  split_ifs
  · rfl
  · simp [Function.comp_def]
  · simp

theorem depthAt_add :
    (a.add parent depth label).depthAt i = if i = a.size then some depth else a.depthAt i := by
  rw [depthAt, getElem?_add, depthAt]
  split_ifs
  · rfl
  · simp [Function.comp_def]
  · simp

theorem parentAt_add :
    (a.add parent depth label).parentAt i
      = if i = a.size then parent.filter (· < a.size) else a.parentAt i := by
  rw [parentAt, getElem?_add, parentAt]
  split_ifs
  · rfl
  · cases a.entries[i]? <;> rfl
  · simp

theorem childrenAt_add (h : i < a.size) :
    (a.add parent depth label).childrenAt i
      = a.childrenAt i ++ if parent = some i then [a.size] else [] := by
  obtain ⟨e, he⟩ := exists_getElem? h
  rw [childrenAt, getElem?_add, if_neg (Nat.ne_of_lt h), childrenAt, he]
  split_ifs <;> simp

theorem childrenAt_add_of_le (h : a.size ≤ i) :
    (a.add parent depth label).childrenAt i = [] := by
  rw [childrenAt, getElem?_add]
  rcases Nat.eq_or_lt_of_le h with rfl | hlt
  · rw [if_pos rfl]
    rfl
  · rw [if_neg (Nat.ne_of_gt hlt), Array.getElem?_eq_none h]
    rfl

end Add

/-! ## Consistent links -/

/-- The two kinds of link agree, and every node lies one level below its parent. -/
structure Linked (a : Arena) : Prop where
  parentAt_eq_none_iff : ∀ i < a.size, a.parentAt i = none ↔ i = 0
  depthAt_eq : ∀ i p, a.parentAt i = some p → a.depthAt i = (a.depthAt p).map (· + 1)
  mem_childrenAt_iff : ∀ p i, i ∈ a.childrenAt p ↔ a.parentAt i = some p
  ascending : ∀ p, (a.childrenAt p).Pairwise (· < ·)

/-- A node of the given depth belongs under the given parent. -/
def Takes (a : Arena) (depth : Nat) : Option Nat → Prop
  | none => a.size = 0
  | some p => (a.depthAt p).map (· + 1) = some depth

theorem linked_empty (source : String) : (empty source).Linked := by
  constructor <;> simp [empty, parentAt, childrenAt, size]

theorem lt_size_of_depthAt {a : Arena} {i d : Nat} (h : a.depthAt i = some d) : i < a.size := by
  rw [depthAt, Option.map_eq_some_iff] at h
  obtain ⟨e, he, -⟩ := h
  exact (Array.getElem?_eq_some_iff.mp he).1

theorem lt_of_parentAt {a : Arena} {i p : Nat} (h : a.parentAt i = some p) :
    p < i ∧ i < a.size := by
  rw [parentAt, Option.bind_eq_some_iff] at h
  obtain ⟨e, he, hp⟩ := h
  obtain ⟨hi, rfl⟩ := Array.getElem?_eq_some_iff.mp he
  exact ⟨a.parent_earlier i hi p hp, hi⟩

/-- The parent of a node that belongs somewhere is an earlier node. -/
theorem Takes.lt {a : Arena} {parent : Option Nat} {depth p : Nat} (h : a.Takes depth parent)
    (hp : parent = some p) : p < a.size := by
  subst hp
  obtain ⟨d, hd, -⟩ := Option.map_eq_some_iff.mp h
  exact lt_size_of_depthAt hd

/-- **Appending a node under the right parent keeps the links consistent.** -/
theorem Linked.add {a : Arena} (h : a.Linked) {parent : Option Nat} {depth : Nat}
    (htakes : a.Takes depth parent) (label : Label) : (a.add parent depth label).Linked := by
  have hparentAt : ∀ i, (a.add parent depth label).parentAt i
      = if i = a.size then parent else a.parentAt i := by
    intro i
    rw [parentAt_add]
    cases parent with
    | none => rfl
    | some p =>
      have hfilter : (some p).filter (· < a.size) = some p :=
        Option.filter_eq_some_iff.mpr ⟨rfl, decide_eq_true (htakes.lt rfl)⟩
      rw [hfilter]
  have hnone : a.parentAt a.size = none :=
    Option.eq_none_iff_forall_ne_some.mpr fun p hp => Nat.lt_irrefl _ (lt_of_parentAt hp).2
  constructor
  case parentAt_eq_none_iff =>
    intro i hi
    rw [size_add] at hi
    rw [hparentAt]
    split_ifs with hlast
    · subst hlast
      cases parent with
      | none => exact iff_of_true rfl htakes
      | some p =>
        have := htakes.lt rfl
        exact iff_of_false (by simp) (by omega)
    · exact h.parentAt_eq_none_iff i (by omega)
  case depthAt_eq =>
    intro i p hp
    rw [hparentAt] at hp
    rw [depthAt_add, depthAt_add]
    split_ifs at hp with hlast
    · subst hp
      rw [if_pos hlast, if_neg (Nat.ne_of_lt (htakes.lt rfl))]
      exact htakes.symm
    · have := lt_of_parentAt hp
      rw [if_neg hlast, if_neg (by omega)]
      exact h.depthAt_eq i p hp
  case mem_childrenAt_iff =>
    intro p i
    rw [hparentAt]
    rcases Nat.lt_or_ge p a.size with hp | hp
    · -- the new node was nobody's child before, and is now that of `parent` only
      rw [childrenAt_add _ _ _ _ _ hp, List.mem_append, h.mem_childrenAt_iff]
      by_cases hlast : i = a.size
      · subst hlast
        by_cases hparent : parent = some p <;> simp [hnone, hparent]
      · by_cases hparent : parent = some p <;> simp [hlast, hparent]
    · -- a node that is not there or is the last one has no children
      rw [childrenAt_add_of_le _ _ _ _ _ hp]
      refine iff_of_false List.not_mem_nil fun hi => ?_
      split_ifs at hi
      · exact absurd (htakes.lt hi) (Nat.not_lt.mpr hp)
      · have := lt_of_parentAt hi
        omega
  case ascending =>
    intro p
    rcases Nat.lt_or_ge p a.size with hp | hp
    · -- all children there were are indices, so the new one, the size, is greater
      rw [childrenAt_add _ _ _ _ _ hp, List.pairwise_append]
      refine ⟨h.ascending p, by split_ifs <;> simp, fun i hi j hj => ?_⟩
      have hij := (lt_of_parentAt ((h.mem_childrenAt_iff p i).mp hi)).2
      split_ifs at hj
      · rwa [List.mem_singleton.mp hj]
      · cases hj
    · rw [childrenAt_add_of_le _ _ _ _ _ hp]
      exact List.Pairwise.nil

/-! ## What stays -/

/-- The nodes that were there keep their labels and depths. -/
structure Kept (a a' : Arena) : Prop where
  size_le : a.size ≤ a'.size
  labelAt_eq : ∀ i < a.size, a'.labelAt i = a.labelAt i
  depthAt_eq : ∀ i < a.size, a'.depthAt i = a.depthAt i

theorem Kept.trans {a b c : Arena} (h : Kept a b) (h' : Kept b c) : Kept a c where
  size_le := Nat.le_trans h.size_le h'.size_le
  labelAt_eq i hi := (h'.labelAt_eq i (Nat.lt_of_lt_of_le hi h.size_le)).trans (h.labelAt_eq i hi)
  depthAt_eq i hi := (h'.depthAt_eq i (Nat.lt_of_lt_of_le hi h.size_le)).trans (h.depthAt_eq i hi)

/-- The nodes that were there are as they were, but one of them may have got
further children. -/
structure Grown (parent : Option Nat) (roots : List Nat) (a a' : Arena) : Prop
    extends Kept a a' where
  childrenAt_eq : ∀ i < a.size,
    a'.childrenAt i = a.childrenAt i ++ if parent = some i then roots else []

theorem grown_add (a : Arena) (parent : Option Nat) (depth : Nat) (label : Label) :
    Grown parent [a.size] a (a.add parent depth label) where
  size_le := by rw [size_add]; exact Nat.le_succ _
  labelAt_eq i hi := by rw [labelAt_add, if_neg (Nat.ne_of_lt hi)]
  depthAt_eq i hi := by rw [depthAt_add, if_neg (Nat.ne_of_lt hi)]
  childrenAt_eq i hi := childrenAt_add a parent depth label i hi

namespace Grown

variable {parent : Option Nat} {roots roots' : List Nat} {a b c : Arena}

theorem refl (parent : Option Nat) (a : Arena) : Grown parent [] a a where
  size_le := Nat.le_refl _
  labelAt_eq _ _ := rfl
  depthAt_eq _ _ := rfl
  childrenAt_eq i _ := by split_ifs <;> rw [List.append_nil]

/-- One copy after the other under the same node. -/
theorem trans (h : Grown parent roots a b) (h' : Grown parent roots' b c) :
    Grown parent (roots ++ roots') a c where
  toKept := h.toKept.trans h'.toKept
  childrenAt_eq i hi := by
    rw [h'.childrenAt_eq i (Nat.lt_of_lt_of_le hi h.size_le), h.childrenAt_eq i hi,
      List.append_assoc]
    split_ifs <;> rfl

/-- Copies under a new node do not show in what was there before it. -/
theorem below (h : Grown parent roots a b) (h' : Grown (some a.size) roots' b c) :
    Grown parent roots a c where
  toKept := h.toKept.trans h'.toKept
  childrenAt_eq i hi := by
    rw [h'.childrenAt_eq i (Nat.lt_of_lt_of_le hi h.size_le), h.childrenAt_eq i hi,
      if_neg (fun heq => Nat.ne_of_gt hi (Option.some.inj heq)), List.append_nil]

/-- The place for further children is still there. -/
theorem takes (h : Grown parent roots a b) {p depth : Nat} (htakes : a.Takes depth (some p)) :
    b.Takes depth (some p) := by
  rw [Takes, h.depthAt_eq p (htakes.lt rfl)]
  exact htakes

end Grown

/-! ## Trees at indices -/

mutual

/-- The arena looks like the tree from an index on along the children. -/
def Shows (a : Arena) (i : Nat) : Tree → Prop
  | .node label ts => a.labelAt i = some label ∧ ShowsAll a (a.childrenAt i) ts

/-- The arena looks like the trees of a list, each from its own index on. -/
def ShowsAll (a : Arena) : List Nat → List Tree → Prop
  | [], [] => True
  | i :: ids, t :: ts => Shows a i t ∧ ShowsAll a ids ts
  | _, _ => False

end

theorem showsAll_nil (a : Arena) : a.ShowsAll [] [] := by
  rw [ShowsAll]
  trivial

theorem showsAll_cons {a : Arena} {i : Nat} {ids : List Nat} {t : Tree} {ts : List Tree} :
    a.ShowsAll (i :: ids) (t :: ts) ↔ a.Shows i t ∧ a.ShowsAll ids ts := by
  rw [ShowsAll]

theorem showsAll_singleton {a : Arena} {i : Nat} {t : Tree} :
    a.ShowsAll [i] [t] ↔ a.Shows i t := by
  rw [showsAll_cons, and_iff_left (showsAll_nil a)]

theorem lt_size_of_shows {a : Arena} {i : Nat} : ∀ {t : Tree}, a.Shows i t → i < a.size
  | .node _ _, ⟨hlabel, _⟩ => by
    obtain ⟨e, he, -⟩ := Option.map_eq_some_iff.mp hlabel
    exact (Array.getElem?_eq_some_iff.mp he).1

/-- Children come later than their parent. -/
theorem lt_of_mem_childrenAt {a : Arena} {i c : Nat} (h : c ∈ a.childrenAt i) :
    i < c ∧ c < a.size := by
  rcases Nat.lt_or_ge i a.size with hi | hi
  · rw [childrenAt, Array.getElem?_eq_getElem hi, Option.map_some, Option.getD_some,
      Array.mem_toList_iff] at h
    exact a.child_later i hi c h
  · rw [childrenAt, Array.getElem?_eq_none hi] at h
    cases h

mutual

/-- **What is shown behind a node stays when that node gets further children.** -/
theorem Shows.of_grown {a a' : Arena} {p : Nat} {roots : List Nat}
    (h : Grown (some p) roots a a') {i : Nat} (hp : p < i) :
    ∀ t : Tree, a.Shows i t → a'.Shows i t
  | .node label ts, hshows => by
    have hi := lt_size_of_shows hshows
    -- the node that grows comes earlier, and everything shown below this one comes later
    have hchildren : a'.childrenAt i = a.childrenAt i := by
      rw [h.childrenAt_eq i hi, if_neg (fun heq => Nat.ne_of_lt hp (Option.some.inj heq)),
        List.append_nil]
    rw [Shows] at hshows ⊢
    rw [h.labelAt_eq i hi, hchildren]
    exact ⟨hshows.1, ShowsAll.of_grown h _
      (fun c hc => Nat.lt_trans hp (lt_of_mem_childrenAt hc).1) ts hshows.2⟩

theorem ShowsAll.of_grown {a a' : Arena} {p : Nat} {roots : List Nat}
    (h : Grown (some p) roots a a') :
    ∀ ids : List Nat, (∀ i ∈ ids, p < i) → ∀ ts : List Tree, a.ShowsAll ids ts → a'.ShowsAll ids ts
  | [], _, [], _ => showsAll_nil a'
  | [], _, _ :: _, hshows => by simp [ShowsAll] at hshows
  | _ :: _, _, [], hshows => by simp [ShowsAll] at hshows
  | i :: ids, hlater, t :: ts, hshows => by
    rw [showsAll_cons] at hshows ⊢
    rw [List.forall_mem_cons] at hlater
    exact ⟨Shows.of_grown h hlater.1 t hshows.1, ShowsAll.of_grown h ids hlater.2 ts hshows.2⟩

end

/-! ## Copies -/

/-- Trees have been copied under a node: the links are consistent, the trees
are shown, and nothing else has changed. -/
structure Copied (parent : Option Nat) (roots : List Nat) (ts : List Tree) (a a' : Arena) : Prop
    extends Grown parent roots a a' where
  linked : a'.Linked
  shows : a'.ShowsAll roots ts
  size_eq : a'.size = a.size + Tree.sizeAll ts

mutual

/-- **A copied tree is shown at the next index.** -/
theorem addTree_copied {limit : Nat} {a a' : Arena} {parent : Option Nat} {depth : Nat}
    (hlinked : a.Linked) (htakes : a.Takes depth parent) :
    ∀ t : Tree, addTree limit a parent depth t = .ok a' → Copied parent [a.size] [t] a a'
  | .node label ts, hok => by
    rw [addTree] at hok
    split_ifs at hok
    have hgrown := grown_add a parent depth label
    have hnew : (a.add parent depth label).Takes (depth + 1) (some a.size) := by
      rw [Takes, depthAt_add, if_pos rfl]
      rfl
    -- the children are copied under the node that has just been appended
    obtain ⟨roots, hcopied⟩ := addForest_copied (hlinked.add htakes label) hnew ts hok
    have hlt : a.size < (a.add parent depth label).size := by
      rw [size_add]
      exact Nat.lt_succ_self _
    refine ⟨hgrown.below hcopied.toGrown, hcopied.linked, ?_, ?_⟩
    · rw [showsAll_singleton, Shows]
      constructor
      · rw [hcopied.labelAt_eq _ hlt, labelAt_add, if_pos rfl]
      · rw [hcopied.childrenAt_eq _ hlt, childrenAt_add_of_le _ _ _ _ _ (Nat.le_refl _),
          List.nil_append, if_pos rfl]
        exact hcopied.shows
    · rw [hcopied.size_eq, size_add, Tree.sizeAll, Tree.size, Tree.sizeAll]
      omega

/-- Copied trees are shown at the children that their parent has got. -/
theorem addForest_copied {limit : Nat} {a a' : Arena} {p depth : Nat}
    (hlinked : a.Linked) (htakes : a.Takes depth (some p)) :
    ∀ ts : List Tree, addForest limit a (some p) depth ts = .ok a' →
      ∃ roots, Copied (some p) roots ts a a'
  | [], hok => by
    rw [addForest] at hok
    cases hok
    exact ⟨[], Grown.refl _ a, hlinked, showsAll_nil a, rfl⟩
  | t :: ts, hok => by
    rw [addForest] at hok
    cases hfirst : addTree limit a (some p) depth t with
    | error e => rw [hfirst] at hok; cases hok
    | ok a₁ =>
      rw [hfirst] at hok
      have hcopied₁ := addTree_copied hlinked htakes t hfirst
      obtain ⟨roots, hcopied₂⟩ := addForest_copied hcopied₁.linked
        (hcopied₁.takes htakes) ts hok
      refine ⟨a.size :: roots, hcopied₁.toGrown.trans hcopied₂.toGrown, hcopied₂.linked, ?_, ?_⟩
      · -- the later copies do not touch what the first one has put there
        exact showsAll_cons.mpr ⟨(showsAll_singleton.mp hcopied₁.shows).of_grown
          hcopied₂.toGrown (htakes.lt rfl), hcopied₂.shows⟩
      · rw [hcopied₂.size_eq, hcopied₁.size_eq, Tree.sizeAll, Tree.sizeAll, Tree.sizeAll]
        omega

end

end Arena

/-! ## Reading back -/

namespace Node

/-- The tree that is read along the children. -/
def tree (n : Node) : Tree :=
  .node n.entry.label (n.children.attach.map fun c => c.1.tree)
termination_by n.following
decreasing_by exact following_lt_of_mem_children c.2

theorem tree_eq (n : Node) : n.tree = .node n.entry.label (n.children.map tree) := by
  rw [tree, List.attach_map_val]

theorem map_id_pmap {P : Nat → Prop} {f : ∀ p, P p → Node} (hf : ∀ p h, (f p h).id = p) :
    ∀ (o : Option Nat) (h : ∀ p ∈ o, P p), (o.pmap f h).map id = o
  | none, _ => rfl
  | some p, _ => congrArg some (hf p _)

section Views

variable (n : Node)

theorem getElem?_entries : n.arena.entries[n.id]? = some n.entry :=
  Array.getElem?_eq_getElem n.valid

theorem depthAt_id : n.arena.depthAt n.id = some n.depth := by
  rw [Arena.depthAt, getElem?_entries]
  rfl

theorem parentAt_id : n.arena.parentAt n.id = n.parent?.map id := by
  rw [Arena.parentAt, getElem?_entries, Option.bind_some]
  exact (map_id_pmap (fun _ _ => rfl) n.entry.parent _).symm

theorem childrenAt_id : n.arena.childrenAt n.id = n.children.map id := by
  rw [Arena.childrenAt, getElem?_entries, children, List.map_pmap]
  simp

theorem labelAt_id : n.arena.labelAt n.id = some n.entry.label := by
  rw [Arena.labelAt, getElem?_entries]
  rfl

theorem mem_outline : (n.depth, n.entry.label) ∈ n.arena.outline :=
  List.mem_map.mpr ⟨n.entry, Array.mem_toList_iff.mpr (Array.getElem_mem n.valid), rfl⟩

end Views

theorem arena_of_parent? {n p : Node} (h : n.parent? = some p) : p.arena = n.arena := by
  obtain ⟨i, _, -, rfl⟩ := Option.pmap_eq_some_iff.mp h
  rfl

mutual

/-- What is shown at a node is read back from it. -/
theorem tree_of_shows : ∀ (t : Tree) {n : Node}, n.arena.Shows n.id t → n.tree = t
  | .node label ts, n, h => by
    rw [Arena.Shows, labelAt_id, childrenAt_id] at h
    rw [tree_eq, Option.some.inj h.1,
      map_tree_of_showsAll ts (fun _ hc => arena_of_mem_children hc) h.2]

theorem map_tree_of_showsAll {a : Arena} : ∀ (ts : List Tree) {ns : List Node},
    (∀ n ∈ ns, n.arena = a) → a.ShowsAll (ns.map id) ts → ns.map tree = ts
  | [], [], _, _ => rfl
  | [], _ :: _, _, h => by simp [Arena.ShowsAll] at h
  | _ :: _, [], _, h => by simp [Arena.ShowsAll] at h
  | t :: ts, n :: ns, harena, h => by
    rw [List.map_cons, Arena.showsAll_cons] at h
    rw [List.forall_mem_cons] at harena
    obtain ⟨rfl, harena⟩ := harena
    rw [List.map_cons, tree_of_shows t h.1, map_tree_of_showsAll ts harena h.2]

end

end Node

namespace Arena

/-- The arena is a copy of the tree in pre-order. -/
structure IsCopyOf (a : Arena) (t : Tree) : Prop where
  /-- One node for each node of the tree: an index fits wherever their number does. -/
  size_eq : a.size = t.size
  /-- The labels are those of the tree in pre-order, each at its depth. -/
  outline_eq : a.outline = t.outline
  parent?_eq_none_iff : ∀ n ∈ a.nodes, n.parent? = none ↔ n.id = 0
  of_parent? : ∀ n ∈ a.nodes, ∀ p, n.parent? = some p → p.id < n.id ∧ n.depth = p.depth + 1
  /-- A node is a child of its parent, once, and of no other node. -/
  count_children : ∀ n ∈ a.nodes, ∀ q ∈ a.nodes,
    (q.children.map Node.id).count n.id = if n.parent?.map Node.id = some q.id then 1 else 0
  ascending : ∀ n ∈ a.nodes, (n.children.map Node.id).Pairwise (· < ·)
  /-- Read from node 0 along the children, it is the tree. -/
  exists_root : ∃ root, a.node? 0 = some root ∧ root.tree = t

theorem Linked.count_childrenAt {a : Arena} (h : a.Linked) (p i : Nat) :
    (a.childrenAt p).count i = if a.parentAt i = some p then 1 else 0 := by
  have hnodup : (a.childrenAt p).Nodup := (h.ascending p).imp Nat.ne_of_lt
  split_ifs with hparent
  · exact List.count_eq_one_of_mem hnodup ((h.mem_childrenAt_iff p i).mpr hparent)
  · exact List.count_eq_zero_of_not_mem (mt (h.mem_childrenAt_iff p i).mp hparent)

/-- A copy made under nothing is a copy of one tree. -/
theorem Copied.isCopyOf {a : Arena} {source : String} {t : Tree}
    (h : Copied none [0] [t] (empty source) a) (houtline : a.outline = t.outline) :
    a.IsCopyOf t := by
  have hshows : a.Shows 0 t := showsAll_singleton.mp h.shows
  have hroot : 0 < a.entries.size := lt_size_of_shows hshows
  constructor
  case size_eq =>
    rw [h.size_eq, Tree.sizeAll, Tree.sizeAll]
    exact Nat.zero_add _
  case outline_eq => exact houtline
  case parent?_eq_none_iff =>
    intro n hn
    obtain rfl := mem_nodes_iff.mp hn
    rw [← h.linked.parentAt_eq_none_iff n.id n.valid, n.parentAt_id, Option.map_eq_none_iff]
  case of_parent? =>
    intro n hn p hp
    obtain rfl := mem_nodes_iff.mp hn
    have hparentAt : n.arena.parentAt n.id = some p.id := by rw [n.parentAt_id, hp, Option.map_some]
    have hdepth := h.linked.depthAt_eq n.id p.id hparentAt
    rw [n.depthAt_id, ← Node.arena_of_parent? hp, p.depthAt_id] at hdepth
    exact ⟨(lt_of_parentAt hparentAt).1, Option.some.inj hdepth⟩
  case count_children =>
    intro n hn q hq
    obtain rfl := mem_nodes_iff.mp hn
    rw [← n.parentAt_id, ← q.childrenAt_id, mem_nodes_iff.mp hq]
    exact h.linked.count_childrenAt q.id n.id
  case ascending =>
    intro n hn
    obtain rfl := mem_nodes_iff.mp hn
    rw [← n.childrenAt_id]
    exact h.linked.ascending n.id
  case exists_root =>
    exact ⟨⟨a, 0, hroot⟩, dif_pos hroot, Node.tree_of_shows t hshows⟩

section OfTree

variable {limit : Nat} {source : String} {t : Tree} {a : Arena}

theorem copied_of_ofTree (h : ofTree limit source t = .ok a) :
    Copied none [0] [t] (empty source) a := by
  rw [ofTree_eq_addTree] at h
  have htakes : (empty source).Takes 0 none := rfl
  exact addTree_copied (linked_empty source) htakes t h

/-- What is copied without an error is a copy. -/
theorem isCopyOf_of_ofTree (h : ofTree limit source t = .ok a) : a.IsCopyOf t :=
  (copied_of_ofTree h).isCopyOf (outline_of_ofTree h).2.2

theorem linked_of_ofTree (h : ofTree limit source t = .ok a) : a.Linked :=
  (copied_of_ofTree h).linked

theorem depth_le_of_ofTree (h : ofTree limit source t = .ok a) {n : Node} (hn : n.arena = a) :
    n.depth ≤ limit := by
  obtain ⟨hfits, -, houtline⟩ := outline_of_ofTree h
  refine hfits (n.depth, n.entry.label) ?_
  rw [← houtline, ← hn]
  exact n.mem_outline

end OfTree

/-- **The arena of a tree is a copy of it in pre-order**, if no node of the tree
lies too deep. -/
theorem ofTree_copies {limit : Nat} (source : String) {t : Tree} (h : t.FitsIn limit) :
    ∃ a, ofTree limit source t = .ok a ∧ a.source = source ∧ a.IsCopyOf t := by
  obtain ⟨a, hok, hsource, -⟩ :
      ∃ a, ofTree limit source t = .ok a ∧ a.source = source ∧ a.outline = t.outline :=
    ofTree_eq_ok h
  exact ⟨a, hok, hsource, isCopyOf_of_ofTree hok⟩

/-- A block around a return of a binary expression, with a token behind it: from
the last operand to that token the cursor climbs two levels. -/
def returnTree : Tree :=
  let leaf (kind : String) (isNamed : Bool) (start : Nat) : Tree :=
    .node ⟨kind, none, ⟨start, start + 1⟩, isNamed, false, false⟩ []
  .node ⟨"block", none, ⟨0, 14⟩, true, false, false⟩
    [.node ⟨"return_statement", none, ⟨0, 12⟩, true, false, false⟩
      [.node ⟨"binary_expression", none, ⟨7, 12⟩, true, false, false⟩
        [leaf "identifier" true 7, leaf "+" false 9, leaf "identifier" true 11]],
     leaf ";" false 12]

theorem ofTree_copies_return :
    returnTree.FitsIn 3 ∧
      ∃ a, ofTree 3 "return a + b; " returnTree = .ok a ∧ a.source = "return a + b; " ∧
        a.IsCopyOf returnTree :=
  have h : returnTree.FitsIn 3 := by
    unfold Tree.FitsIn
    decide
  ⟨h, ofTree_copies "return a + b; " h⟩

end Arena

end CorpusMark
