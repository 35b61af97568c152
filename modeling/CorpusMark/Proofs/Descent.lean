import CorpusMark.Proofs.Arenas
import Mathlib.Data.Nat.Find
import Mathlib.Logic.Relation

/-!
# Nodes below a node

What lies below a node, going from parents to children, against where it lies in
the arena.

- `Node.IsAncestorOf`: one or more steps from parent to child.
- `Arena.InPreorder`: everything between a node and one of its children is
  deeper than the node. Copying a tree keeps that, since a node gets a child
  only as long as nothing else has been appended behind it that is not deeper
  (`Arena.OpenAt`).
- `Node.isAncestorOf_iff`: so the nodes below a node are the run of deeper ones
  right behind it.
- `Node.containsComment_below`: the scan along that run sees the comments below
  the node, at any depth, and no other ones.
-/

namespace CorpusMark

namespace Arena

/-! ## Pre-order -/

/-- Everything between a node and one of its children lies deeper than the node. -/
def InPreorder (a : Arena) : Prop :=
  ∀ i p d, a.parentAt i = some p → a.depthAt p = some d →
    ∀ j e, p < j → j < i → a.depthAt j = some e → d < e

/-- The node has the given depth and everything behind it lies deeper. -/
def OpenAt (a : Arena) (p d : Nat) : Prop :=
  a.depthAt p = some d ∧ ∀ j e, p < j → a.depthAt j = some e → d < e

theorem inPreorder_empty (source : String) : (empty source).InPreorder := by
  intro i p d hp
  cases hp

section Add

variable {a : Arena} {parent : Option Nat} {depth : Nat}

/-- A new node is the last one. -/
theorem openAt_new (label : Label) : (a.add parent depth label).OpenAt a.size depth := by
  constructor
  · rw [depthAt_add, if_pos rfl]
  · intro j e hj he
    rw [depthAt_add, if_neg (Nat.ne_of_gt hj)] at he
    exact absurd (lt_size_of_depthAt he) (Nat.not_lt.mpr (Nat.le_of_lt hj))

/-- Only nodes that are not deeper close a node. -/
theorem OpenAt.add {p d : Nat} (h : a.OpenAt p d) (hdepth : d < depth) (label : Label) :
    (a.add parent depth label).OpenAt p d := by
  obtain ⟨hp, hbehind⟩ := h
  constructor
  · rw [depthAt_add, if_neg (Nat.ne_of_lt (lt_size_of_depthAt hp)), hp]
  · intro j e hj he
    rw [depthAt_add] at he
    split_ifs at he with hlast
    · cases he
      exact hdepth
    · exact hbehind j e hj he

/-- A node is appended under an open one. -/
theorem InPreorder.add (h : a.InPreorder) (hparent : ∀ p, parent = some p → ∃ d, a.OpenAt p d)
    (label : Label) : (a.add parent depth label).InPreorder := by
  intro i p d hp hd j e hpj hji he
  rw [parentAt_add] at hp
  split_ifs at hp with hlast
  · -- the new node: what lies between is what lies behind its parent
    subst hlast
    rw [Option.filter_eq_some_iff, decide_eq_true_eq] at hp
    obtain ⟨d', hd', hbehind⟩ := hparent p hp.1
    rw [depthAt_add, if_neg (Nat.ne_of_lt hp.2), hd'] at hd
    rw [depthAt_add, if_neg (Nat.ne_of_lt hji)] at he
    cases hd
    exact hbehind j e hpj he
  · have hi := (lt_of_parentAt hp).2
    rw [depthAt_add, if_neg (by omega)] at hd he
    exact h i p d hp hd j e hpj hji he

end Add

mutual

/-- Copying a tree under an open node keeps pre-order, and keeps the nodes open
that are not as deep. -/
theorem addTree_inPreorder {limit : Nat} {a a' : Arena} {parent : Option Nat} {depth : Nat}
    (hpre : a.InPreorder) (hparent : ∀ p, parent = some p → ∃ d, a.OpenAt p d) :
    ∀ t : Tree, addTree limit a parent depth t = .ok a' →
      a'.InPreorder ∧ ∀ p d, d < depth → a.OpenAt p d → a'.OpenAt p d
  | .node label ts, hok => by
    rw [addTree] at hok
    split_ifs at hok
    -- the children come under the node that has just been appended
    obtain ⟨hpre', hopen⟩ := addForest_inPreorder (hpre.add hparent label)
      (openAt_new label) (Nat.lt_succ_self depth) ts hok
    refine ⟨hpre', fun p d hd hp => ?_⟩
    exact hopen p d (Nat.lt_succ_of_lt hd) (hp.add hd label)

theorem addForest_inPreorder {limit : Nat} {a a' : Arena} {q dq depth : Nat}
    (hpre : a.InPreorder) (hq : a.OpenAt q dq) (hdq : dq < depth) :
    ∀ ts : List Tree, addForest limit a (some q) depth ts = .ok a' →
      a'.InPreorder ∧ ∀ p d, d < depth → a.OpenAt p d → a'.OpenAt p d
  | [], hok => by
    rw [addForest] at hok
    cases hok
    exact ⟨hpre, fun _ _ _ hp => hp⟩
  | t :: ts, hok => by
    rw [addForest] at hok
    cases hfirst : addTree limit a (some q) depth t with
    | error e =>
      rw [hfirst] at hok
      cases hok
    | ok a₁ =>
      rw [hfirst] at hok
      have hparent : ∀ p, some q = some p → ∃ d, a.OpenAt p d := by
        intro p hp
        cases hp
        exact ⟨dq, hq⟩
      obtain ⟨hpre₁, hopen₁⟩ := addTree_inPreorder hpre hparent t hfirst
      obtain ⟨hpre₂, hopen₂⟩ := addForest_inPreorder hpre₁ (hopen₁ q dq hdq hq) hdq ts hok
      exact ⟨hpre₂, fun p d hd hp => hopen₂ p d hd (hopen₁ p d hd hp)⟩

end

/-- **The arena of a tree is in pre-order.** -/
theorem inPreorder_of_ofTree {limit : Nat} {source : String} {t : Tree} {a : Arena}
    (h : ofTree limit source t = .ok a) : a.InPreorder := by
  rw [ofTree_eq_addTree] at h
  exact (addTree_inPreorder (inPreorder_empty source) (by simp) t h).1

end Arena

namespace Node

/-! ## Parents and children -/

/-- Nodes of an arena are told apart by their indices. -/
theorem eq_of_id_eq {m n : Node} (harena : m.arena = n.arena) (hid : m.id = n.id) : m = n := by
  obtain ⟨a, i, hi⟩ := m
  obtain ⟨a', i', hi'⟩ := n
  cases harena
  cases hid
  rfl

/-- A node is a child of its parent. -/
theorem mem_children_iff {p c : Node} (hlinked : p.arena.Linked) :
    c ∈ p.children ↔ c.arena = p.arena ∧ p.arena.parentAt c.id = some p.id := by
  rw [← hlinked.mem_childrenAt_iff, childrenAt_id, List.mem_map]
  constructor
  · intro hc
    exact ⟨arena_of_mem_children hc, c, hc, rfl⟩
  · rintro ⟨harena, c', hc', hid⟩
    rwa [← eq_of_id_eq ((arena_of_mem_children hc').trans harena.symm) hid]

theorem depth_of_mem_children {p c : Node} (hlinked : p.arena.Linked) (hc : c ∈ p.children) :
    c.depth = p.depth + 1 := by
  obtain ⟨harena, hparent⟩ := (mem_children_iff hlinked).mp hc
  have hdepth := hlinked.depthAt_eq c.id p.id hparent
  rw [p.depthAt_id, ← harena, c.depthAt_id] at hdepth
  exact Option.some.inj hdepth

theorem id_lt_of_mem_children {p c : Node} (hc : c ∈ p.children) : p.id < c.id := by
  have := following_lt_of_mem_children hc
  have hvalid := c.valid
  rw [arena_of_mem_children hc] at hvalid
  rw [following, following, arena_of_mem_children hc] at this
  omega

/-- A node is the first one or has a parent. -/
theorem exists_parent (c : Node) (hlinked : c.arena.Linked) (hid : c.id ≠ 0) :
    ∃ p : Node, c ∈ p.children ∧ p.arena = c.arena := by
  obtain ⟨i, hi⟩ := Option.ne_none_iff_exists'.mp
    (mt (hlinked.parentAt_eq_none_iff c.id c.valid).mp hid)
  have hlt := Arena.lt_of_parentAt hi
  have hvalid : i < c.arena.entries.size := Nat.lt_trans hlt.1 hlt.2
  let p : Node := ⟨c.arena, i, hvalid⟩
  have hplinked : p.arena.Linked := hlinked
  exact ⟨p, (mem_children_iff hplinked).mpr ⟨rfl, hi⟩, rfl⟩

/-! ## Ancestors -/

/-- One or more steps from parent to child lead from a node to another. -/
def IsAncestorOf (n d : Node) : Prop :=
  Relation.TransGen (fun p c => c ∈ p.children) n d

variable {n d : Node}

theorem arena_of_isAncestorOf (h : n.IsAncestorOf d) : d.arena = n.arena := by
  induction h with
  | single hc => exact arena_of_mem_children hc
  | tail _ hc ih => exact (arena_of_mem_children hc).trans ih

theorem id_lt_of_isAncestorOf (h : n.IsAncestorOf d) : n.id < d.id := by
  induction h with
  | single hc => exact id_lt_of_mem_children hc
  | tail _ hc ih => exact Nat.lt_trans ih (id_lt_of_mem_children hc)

theorem not_isAncestorOf_self (n : Node) : ¬ n.IsAncestorOf n :=
  fun h => Nat.lt_irrefl _ (id_lt_of_isAncestorOf h)

section Run

variable (hlinked : n.arena.Linked) (hpre : n.arena.InPreorder)

include hlinked

theorem depth_lt_of_isAncestorOf (h : n.IsAncestorOf d) : n.depth < d.depth := by
  induction h with
  | single hc =>
    rw [depth_of_mem_children hlinked hc]
    exact Nat.lt_succ_self _
  | tail hbelow hc ih =>
    rw [depth_of_mem_children (by rwa [arena_of_isAncestorOf hbelow]) hc]
    exact Nat.lt_succ_of_lt ih

include hpre

omit hlinked in
/-- What lies between a node and one of its children is deeper than the node. -/
theorem depth_lt_between {c e : Node} (hc : n.arena.parentAt c.id = some n.id)
    (he : e.arena = n.arena) (hne : n.id < e.id) (hec : e.id < c.id) : n.depth < e.depth :=
  hpre c.id n.id n.depth hc n.depthAt_id e.id e.depth hne hec (by rw [← he, e.depthAt_id])

/-- **The nodes below a node are the run of deeper ones right behind it.** -/
theorem isAncestorOf_iff :
    n.IsAncestorOf d ↔ d.arena = n.arena ∧ n.id < d.id ∧
      ∀ e : Node, e.arena = n.arena → n.id < e.id → e.id ≤ d.id → n.depth < e.depth := by
  constructor
  · intro h
    refine ⟨arena_of_isAncestorOf h, id_lt_of_isAncestorOf h, fun e he hne hed => ?_⟩
    induction h with
    | @single c hc =>
      rcases Nat.eq_or_lt_of_le hed with heq | hlt
      · obtain rfl := eq_of_id_eq (he.trans (arena_of_mem_children hc).symm) heq
        exact depth_lt_of_isAncestorOf hlinked (.single hc)
      · exact depth_lt_between hpre ((mem_children_iff hlinked).mp hc).2 he hne hlt
    | @tail m c hm hc ih =>
      have hmarena := arena_of_isAncestorOf hm
      have hbelow := depth_lt_of_isAncestorOf hlinked hm
      -- up to `m` by induction, behind it deeper than `m`
      by_cases hem : e.id ≤ m.id
      · exact ih hem
      · have hmlinked : m.arena.Linked := by rwa [hmarena]
        rcases Nat.eq_or_lt_of_le hed with heq | hlt
        · obtain rfl := eq_of_id_eq
            (he.trans (hmarena.symm.trans (arena_of_mem_children hc).symm)) heq
          exact depth_lt_of_isAncestorOf hlinked (.tail hm hc)
        · exact Nat.lt_trans hbelow (depth_lt_between (by rwa [hmarena])
            ((mem_children_iff hmlinked).mp hc).2 (he.trans hmarena.symm)
            (Nat.not_le.mp hem) hlt)
  · rintro ⟨harena, hlt, hrun⟩
    -- the parent of `d` is in the run as well, or it is the node
    induction hk : d.id using Nat.strongRecOn generalizing d with
    | ind k ih =>
      subst hk
      obtain ⟨p, hdp, hparena⟩ := exists_parent d (by rwa [harena]) (by omega)
      have hpn : p.arena = n.arena := hparena.trans harena
      have hplinked : p.arena.Linked := by rwa [hpn]
      have hdeep := hrun d harena hlt (Nat.le_refl _)
      rw [depth_of_mem_children hplinked hdp] at hdeep
      have hpd := id_lt_of_mem_children hdp
      rcases Nat.lt_trichotomy p.id n.id with hbefore | heq | hbehind
      · have := depth_lt_between (by rwa [hpn]) ((mem_children_iff hplinked).mp hdp).2 hpn.symm
          hbefore hlt
        omega
      · obtain rfl := eq_of_id_eq hpn heq
        exact .single hdp
      · refine .tail (ih p.id hpd hpn hbehind (fun e he hne hep => ?_) rfl) hdp
        exact hrun e he hne (by omega)

/-- With a node everything before it in the run is below as well. -/
theorem isAncestorOf_of_le {e : Node} (h : n.IsAncestorOf d) (he : e.arena = n.arena)
    (hne : n.id < e.id) (hed : e.id ≤ d.id) : n.IsAncestorOf e := by
  obtain ⟨-, -, hrun⟩ := (isAncestorOf_iff hlinked hpre).mp h
  exact (isAncestorOf_iff hlinked hpre).mpr
    ⟨he, hne, fun e' he' hne' hle => hrun e' he' hne' (Nat.le_trans hle hed)⟩

/-- The run ends somewhere, and nothing behind its end is below the node. -/
theorem exists_end_of_run :
    ∃ stop, n.id < stop ∧ ∀ d : Node, d.arena = n.arena →
      (n.IsAncestorOf d ↔ n.id < d.id ∧ d.id < stop) := by
  classical
  have hexists : ∃ i, n.id < i ∧ ∀ d : Node, d.arena = n.arena → d.id = i →
      ¬ n.IsAncestorOf d := by
    refine ⟨n.arena.entries.size, n.valid, fun d hd hlast => ?_⟩
    have hvalid := d.valid
    rw [hlast, hd] at hvalid
    exact absurd hvalid (Nat.lt_irrefl _)
  refine ⟨Nat.find hexists, (Nat.find_spec hexists).1, fun d hd => ⟨fun h => ?_, ?_⟩⟩
  · refine ⟨id_lt_of_isAncestorOf h, Nat.lt_of_not_le fun hle => ?_⟩
    -- the end would be below the node as well
    have hvalid := d.valid
    rw [hd] at hvalid
    obtain ⟨hend, hnone⟩ := Nat.find_spec hexists
    exact hnone ⟨n.arena, _, Nat.lt_of_le_of_lt hle hvalid⟩ rfl rfl
      (isAncestorOf_of_le hlinked hpre h rfl hend hle)
  · rintro ⟨hlt, hend⟩
    have hbefore := Nat.find_min hexists hend
    by_contra hnot
    refine hbefore ⟨hlt, fun e he hid => ?_⟩
    rwa [eq_of_id_eq (he.trans hd.symm) hid]

end Run

/-! ## Comments below a node -/

/-- Some entry of the first run of a list has a property. -/
theorem any_takeWhile_iff {α : Type} {p q : α → Bool} {l : List α} :
    (l.takeWhile p).any q = true ↔
      ∃ (j : Nat) (x : α), l[j]? = some x ∧ q x = true ∧
        ∀ i ≤ j, ∀ y, l[i]? = some y → p y = true := by
  induction l with
  | nil => simp
  | cons x l ih =>
    by_cases hx : p x = true
    · rw [List.takeWhile_cons_of_pos hx, List.any_cons, Bool.or_eq_true, ih]
      constructor
      · rintro (hq | ⟨j, y, hy, hq, hrun⟩)
        · refine ⟨0, x, rfl, hq, fun i hi y hy => ?_⟩
          obtain rfl := Nat.le_zero.mp hi
          cases hy
          exact hx
        · refine ⟨j + 1, y, hy, hq, fun i hi z hz => ?_⟩
          cases i with
          | zero =>
            cases hz
            exact hx
          | succ i => exact hrun i (by omega) z hz
      · rintro ⟨j, y, hy, hq, hrun⟩
        cases j with
        | zero =>
          cases hy
          exact .inl hq
        | succ j => exact .inr ⟨j, y, hy, hq, fun i hi => hrun (i + 1) (by omega)⟩
    · rw [List.takeWhile_cons_of_neg hx]
      simp only [List.any_nil, Bool.false_eq_true, false_iff]
      rintro ⟨j, y, -, -, hrun⟩
      exact hx (hrun 0 (Nat.zero_le j) x rfl)

/-- The scan finds a comment in the run of deeper nodes right behind the node. -/
theorem containsComment_iff_run :
    n.containsComment = true ↔ ∃ d : Node, d.arena = n.arena ∧ n.id < d.id ∧
      (∀ e : Node, e.arena = n.arena → n.id < e.id → e.id ≤ d.id → n.depth < e.depth) ∧
      d.kind = .comment := by
  rw [containsComment, any_takeWhile_iff]
  simp only [List.getElem?_drop, Array.getElem?_toList, beq_iff_eq, decide_eq_true_eq]
  constructor
  · rintro ⟨j, x, hx, hcomment, hrun⟩
    obtain ⟨hvalid, rfl⟩ := Array.getElem?_eq_some_iff.mp hx
    refine ⟨⟨n.arena, n.id + 1 + j, hvalid⟩, rfl, by dsimp only; omega, ?_, hcomment⟩
    intro e he hne hej
    dsimp only at hej
    refine hrun (e.id - (n.id + 1)) (by omega) e.entry ?_
    rw [show n.id + 1 + (e.id - (n.id + 1)) = e.id by omega, ← he, e.getElem?_entries]
  · rintro ⟨d, hd, hnd, hrun, hcomment⟩
    refine ⟨d.id - (n.id + 1), d.entry, ?_, hcomment, fun i hi y hy => ?_⟩
    · rw [show n.id + 1 + (d.id - (n.id + 1)) = d.id by omega, ← hd, d.getElem?_entries]
    · obtain ⟨hvalid, rfl⟩ := Array.getElem?_eq_some_iff.mp hy
      refine hrun ⟨n.arena, n.id + 1 + i, hvalid⟩ rfl ?_ ?_ <;> dsimp only <;> omega

/-- The nodes of the run are the ones below the node. -/
theorem containsComment_iff (hlinked : n.arena.Linked) (hpre : n.arena.InPreorder) :
    n.containsComment = true ↔ ∃ d, n.IsAncestorOf d ∧ d.kind = .comment := by
  rw [containsComment_iff_run]
  constructor
  · rintro ⟨d, hd, hlt, hrun, hcomment⟩
    exact ⟨d, (isAncestorOf_iff hlinked hpre).mpr ⟨hd, hlt, hrun⟩, hcomment⟩
  · rintro ⟨d, hbelow, hcomment⟩
    obtain ⟨hd, hlt, hrun⟩ := (isAncestorOf_iff hlinked hpre).mp hbelow
    exact ⟨d, hd, hlt, hrun, hcomment⟩

/-- **A node contains a comment exactly if some node below it is one**, however
many steps from parent to child it takes to get there. The nodes below it come
right behind it in one run. So neither the node itself counts, nor its siblings,
nor anything behind the run. -/
theorem containsComment_below {limit : Nat} {source : String} {t : Tree} {a : Arena}
    (h : Arena.ofTree limit source t = .ok a) (hn : n.arena = a) :
    (n.containsComment = true ↔ ∃ d, n.IsAncestorOf d ∧ d.kind = .comment) ∧
      ¬ n.IsAncestorOf n ∧
      (∀ p s : Node, n ∈ p.children → s ∈ p.children → ¬ n.IsAncestorOf s) ∧
      ∃ stop, n.id < stop ∧ ∀ d : Node, d.arena = a →
        (n.IsAncestorOf d ↔ n.id < d.id ∧ d.id < stop) := by
  subst hn
  have hlinked := Arena.linked_of_ofTree h
  have hpre := Arena.inPreorder_of_ofTree h
  refine ⟨containsComment_iff hlinked hpre, not_isAncestorOf_self n,
    fun p s hnp hsp hbelow => ?_, exists_end_of_run hlinked hpre⟩
  -- siblings have one depth
  have hplinked : p.arena.Linked := by rwa [← arena_of_mem_children hnp]
  have hdeeper := depth_lt_of_isAncestorOf hlinked hbelow
  rw [depth_of_mem_children hplinked hnp, depth_of_mem_children hplinked hsp] at hdeeper
  exact Nat.lt_irrefl _ hdeeper

/-- The tree of a call with a comment among its arguments and another one behind
it. -/
def commentedCall : Tree :=
  let leaf (kind : String) (isNamed : Bool) (start stop : Nat) : Tree :=
    .node ⟨kind, none, ⟨start, stop⟩, isNamed, false, false⟩ []
  .node ⟨"module", none, ⟨0, 8⟩, true, false, false⟩
    [.node ⟨"call", none, ⟨0, 6⟩, true, false, false⟩
      [leaf "identifier" true 0 1,
       .node ⟨"argument_list", some "arguments", ⟨1, 6⟩, true, false, false⟩
        [leaf "(" false 1 2, leaf "comment" true 2 4, leaf ")" false 5 6]],
     leaf "comment" true 6 8]

/-- The call contains the first comment. The parenthesis right before the second
one contains none, and neither do the comments themselves. -/
theorem containsComment_below_commentedCall :
    ∃ a, Arena.ofTree 3 "f(#c\n)#d" commentedCall = .ok a ∧
      (a.nodes.map containsComment) = [true, true, false, true, false, false, false, false] ∧
      ∃ n ∈ a.nodes, n.id = 1 ∧ ∃ d, n.IsAncestorOf d ∧ d.kind = .comment := by
  obtain ⟨a, hok, hmap, n, hn, hid, hcontains⟩ : ∃ a,
      Arena.ofTree 3 "f(#c\n)#d" commentedCall = .ok a ∧
      (a.nodes.map containsComment) = [true, true, false, true, false, false, false, false] ∧
      ∃ n ∈ a.nodes, n.id = 1 ∧ n.containsComment = true := by
    refine ⟨_, (Arena.ofTree_eq_addTree ..).trans rfl, ?_, ?_⟩
    · decide +kernel
    · decide +kernel
  obtain ⟨hiff, -⟩ := containsComment_below hok (Arena.mem_nodes_iff.mp hn)
  exact ⟨a, hok, hmap, n, hn, hid, hiff.mp hcontains⟩

end Node

end CorpusMark
