import CorpusMark.Proofs.Copying
import CorpusMark.Tree.Parse
import Mathlib.Data.List.Basic
import Mathlib.Tactic.SplitIfs

/-!
# Parsed trees

What a parser makes of a tree, in terms of the tree alone. `Tree.outline` lists
the labels of a tree in pre-order, each with its depth; an arena has an outline
as well, and copying a tree appends the one to the other (`addTree_eq_ok`). So
the two limits of a parser, on the depth and on faults, are conditions on the
outline of the tree, and a parse fails for the depth first (`parse_tooDeep`,
`parse_malformed`, `parse_eq_ok`).
-/

namespace CorpusMark

namespace Tree

mutual

/-- The labels of a tree in pre-order, with their depths. -/
def outlineFrom (depth : Nat) : Tree → List (Nat × Label)
  | .node label children => (depth, label) :: outlineAll (depth + 1) children

/-- The labels of the trees of a list, one tree after the other. -/
def outlineAll (depth : Nat) : List Tree → List (Nat × Label)
  | [] => []
  | t :: ts => outlineFrom depth t ++ outlineAll depth ts

end

/-- The labels of a tree in pre-order, the root at depth 0. -/
def outline (t : Tree) : List (Nat × Label) :=
  outlineFrom 0 t

/-- Whether no node lies deeper than a limit. -/
def FitsIn (t : Tree) (limit : Nat) : Prop :=
  ∀ x ∈ t.outline, x.1 ≤ limit

/-- Number of nodes that mark places where the text does not fit the grammar. -/
def faultCount (t : Tree) : Nat :=
  t.outline.countP fun x => x.2.isFault

end Tree

namespace Arena

/-- The labels of an arena, with their depths. -/
def outline (a : Arena) : List (Nat × Label) :=
  a.entries.toList.map fun e => (e.depth, e.label)

@[simp] theorem outline_empty (source : String) : (empty source).outline = [] := rfl

@[simp] theorem outline_add (a : Arena) (parent : Option Nat) (depth : Nat) (label : Label) :
    (a.add parent depth label).outline = a.outline ++ [(depth, label)] := by
  rw [outline, add, Array.toList_push, List.map_append, map_toList_link fun _ _ => rfl]
  rfl

mutual

/-- **Copying a tree appends its outline.** -/
theorem addTree_eq_ok (limit : Nat) (a : Arena) (parent : Option Nat) (depth : Nat) :
    ∀ t : Tree, (∀ x ∈ t.outlineFrom depth, x.1 ≤ limit) →
      ∃ a', addTree limit a parent depth t = .ok a' ∧ a'.source = a.source ∧
        a'.outline = a.outline ++ t.outlineFrom depth
  | .node label children, h => by
    rw [Tree.outlineFrom, List.forall_mem_cons] at h
    obtain ⟨a', hok, hsource, houtline⟩ := addForest_eq_ok limit (a.add parent depth label)
      (some a.size) (depth + 1) children h.2
    refine ⟨a', ?_, hsource, ?_⟩
    · rw [addTree, if_neg (Nat.not_lt.mpr h.1), hok]
    · rw [houtline, outline_add, Tree.outlineFrom, List.append_assoc]
      rfl

theorem addForest_eq_ok (limit : Nat) (a : Arena) (parent : Option Nat) (depth : Nat) :
    ∀ ts : List Tree, (∀ x ∈ Tree.outlineAll depth ts, x.1 ≤ limit) →
      ∃ a', addForest limit a parent depth ts = .ok a' ∧ a'.source = a.source ∧
        a'.outline = a.outline ++ Tree.outlineAll depth ts
  | [], _ => ⟨a, by rw [addForest], rfl, by rw [Tree.outlineAll, List.append_nil]⟩
  | t :: ts, h => by
    rw [Tree.outlineAll, List.forall_mem_append] at h
    obtain ⟨a₁, hok₁, hsource₁, houtline₁⟩ := addTree_eq_ok limit a parent depth t h.1
    obtain ⟨a₂, hok₂, hsource₂, houtline₂⟩ := addForest_eq_ok limit a₁ parent depth ts h.2
    refine ⟨a₂, ?_, hsource₂.trans hsource₁, ?_⟩
    · rw [addForest, hok₁]
      exact hok₂
    · rw [houtline₂, houtline₁, Tree.outlineAll, List.append_assoc]

end

mutual

/-- A tree with a node that lies too deep is not copied. -/
theorem addTree_eq_error (limit : Nat) (a : Arena) (parent : Option Nat) (depth : Nat) :
    ∀ t : Tree, ¬ (∀ x ∈ t.outlineFrom depth, x.1 ≤ limit) →
      addTree limit a parent depth t = .error (.tooDeep limit)
  | .node label children, h => by
    rw [Tree.outlineFrom, List.forall_mem_cons] at h
    rw [addTree]
    by_cases hdepth : limit < depth
    · rw [if_pos hdepth]
    · rw [if_neg hdepth]
      exact addForest_eq_error limit _ _ (depth + 1) children
        fun hall => h ⟨Nat.not_lt.mp hdepth, hall⟩

theorem addForest_eq_error (limit : Nat) (a : Arena) (parent : Option Nat) (depth : Nat) :
    ∀ ts : List Tree, ¬ (∀ x ∈ Tree.outlineAll depth ts, x.1 ≤ limit) →
      addForest limit a parent depth ts = .error (.tooDeep limit)
  | [], h => absurd (by simp [Tree.outlineAll]) h
  | t :: ts, h => by
    rw [Tree.outlineAll, List.forall_mem_append] at h
    rw [addForest]
    -- the first tree that holds a node too deep ends the copy
    by_cases hfirst : ∀ x ∈ t.outlineFrom depth, x.1 ≤ limit
    · obtain ⟨a₁, hok₁, -, -⟩ := addTree_eq_ok limit a parent depth t hfirst
      rw [hok₁]
      exact addForest_eq_error limit a₁ parent depth ts fun hrest => h ⟨hfirst, hrest⟩
    · rw [addTree_eq_error limit a parent depth t hfirst]

end

theorem faultCount_eq (a : Arena) :
    a.faultCount = a.outline.countP fun x => x.2.isFault := by
  rw [a.faults_counted, outline, List.countP_map, List.countP_map]
  rfl

theorem ofTree_eq_ok {limit : Nat} {source : String} {t : Tree} (h : t.FitsIn limit) :
    ∃ a, ofTree limit source t = .ok a ∧ a.source = source ∧ a.outline = t.outline := by
  obtain ⟨a, hok, hsource, houtline⟩ := addTree_eq_ok limit (empty source) none 0 t h
  rw [ofTree_eq_addTree]
  exact ⟨a, hok, hsource, by rw [houtline, outline_empty, List.nil_append]; rfl⟩

theorem ofTree_eq_error {limit : Nat} {source : String} {t : Tree} (h : ¬ t.FitsIn limit) :
    ofTree limit source t = .error (.tooDeep limit) := by
  rw [ofTree_eq_addTree]
  exact addTree_eq_error limit (empty source) none 0 t h

/-- What is copied keeps the limit, and all of it is copied. -/
theorem outline_of_ofTree {limit : Nat} {source : String} {t : Tree} {a : Arena}
    (h : ofTree limit source t = .ok a) :
    t.FitsIn limit ∧ a.source = source ∧ a.outline = t.outline := by
  by_cases hfits : t.FitsIn limit
  · obtain ⟨a', hok, hsource, houtline⟩ :
        ∃ a, ofTree limit source t = .ok a ∧ a.source = source ∧ a.outline = t.outline :=
      ofTree_eq_ok hfits
    rw [h] at hok
    cases hok
    exact ⟨hfits, hsource, houtline⟩
  · rw [ofTree_eq_error hfits] at h
    cases h

/-- The counter of an arena counts the faults of the tree. -/
theorem faultCount_of_outline {t : Tree} {a : Arena} (h : a.outline = t.outline) :
    a.faultCount = t.faultCount := by
  rw [faultCount_eq, h, Tree.faultCount]

end Arena

/-! ## Limits -/

namespace Parser

variable {p : Parser} {source : String} {a : Arena}

/-- **A source has an arena** if its tree is copied within the depth and faults
are welcome or absent. -/
theorem parse_eq_ok_iff :
    p.parse source = .ok a ↔
      Arena.ofTree p.limits.maxDepth source (p.grammar source) = .ok a ∧
        (p.limits.rejectFaults = true → a.faultCount = 0) := by
  unfold parse
  cases Arena.ofTree p.limits.maxDepth source (p.grammar source) with
  | error e => simp
  | ok copied =>
    dsimp only
    by_cases hfaults : (p.limits.rejectFaults && decide (0 < copied.faultCount)) = true
    · rw [if_pos hfaults]
      simp only [Bool.and_eq_true, decide_eq_true_eq] at hfaults
      refine iff_of_false (by simp) ?_
      rintro ⟨hok, hnone⟩
      cases hok
      exact Nat.ne_of_gt hfaults.2 (hnone hfaults.1)
    · rw [if_neg hfaults]
      simp only [Bool.and_eq_true, decide_eq_true_eq, not_and, Nat.not_lt, Nat.le_zero] at hfaults
      constructor
      · intro hok
        cases hok
        exact ⟨rfl, hfaults⟩
      · exact fun h => h.1

theorem parse_tooDeep (h : ¬ (p.grammar source).FitsIn p.limits.maxDepth) :
    p.parse source = .error (.tooDeep p.limits.maxDepth) := by
  rw [parse, Arena.ofTree_eq_error h]

theorem parse_malformed (h : (p.grammar source).FitsIn p.limits.maxDepth)
    (hreject : p.limits.rejectFaults = true) (hfaults : 0 < (p.grammar source).faultCount) :
    p.parse source = .error (.malformed (p.grammar source).faultCount) := by
  obtain ⟨a, hok, -, houtline⟩ := Arena.ofTree_eq_ok h
  rw [parse, hok]
  simp [hreject, Arena.faultCount_of_outline houtline, hfaults]

/-- A source is parsed if its tree keeps the limits. -/
theorem parse_eq_ok (h : (p.grammar source).FitsIn p.limits.maxDepth)
    (hfaults : p.limits.rejectFaults = true → (p.grammar source).faultCount = 0) :
    ∃ a, p.parse source = .ok a ∧ a.source = source ∧
      a.outline = (p.grammar source).outline := by
  obtain ⟨a, hok, hsource, houtline⟩ := Arena.ofTree_eq_ok h
  refine ⟨a, parse_eq_ok_iff.mpr ⟨hok, fun hreject => ?_⟩, hsource, houtline⟩
  rw [Arena.faultCount_of_outline houtline, hfaults hreject]

end Parser

end CorpusMark
