import CorpusMark.Proofs.Arenas
import Mathlib.Order.Bounds.Basic

/-!
# What limits decide

A parser refuses a tree for its depth before it looks at faults, and it refuses
it for nothing else. All of this can be said of the tree alone: of the depths in
its outline and of the number of its faults. Main statements:

- `Arena.ofTree_mono`: a higher limit on the depth gives the same copy;
- `Arena.isGreatest_maxDepth`: the depth that the walk keeps is the greatest
  one of the tree;
- `Parser.parse_limited`: when a parse fails, how, and what else it returns. So
  limits that are less strict lose no arena and change none.
-/

namespace CorpusMark

namespace Arena

/-! ## Higher limits -/

mutual

/-- A tree that is copied within a limit is copied in the same way within a
higher one. -/
theorem addTree_mono {limit limit' : Nat} (hle : limit ≤ limit') {a a' : Arena}
    {parent : Option Nat} {depth : Nat} :
    ∀ t : Tree, addTree limit a parent depth t = .ok a' →
      addTree limit' a parent depth t = .ok a'
  | .node label children, h => by
    rw [addTree] at h ⊢
    by_cases hdepth : limit < depth
    · rw [if_pos hdepth] at h
      cases h
    · rw [if_neg hdepth] at h
      rw [if_neg (by omega)]
      exact addForest_mono hle children h

theorem addForest_mono {limit limit' : Nat} (hle : limit ≤ limit') {a a' : Arena}
    {parent : Option Nat} {depth : Nat} :
    ∀ ts : List Tree, addForest limit a parent depth ts = .ok a' →
      addForest limit' a parent depth ts = .ok a'
  | [], h => by
    rw [addForest] at h ⊢
    exact h
  | t :: ts, h => by
    rw [addForest] at h ⊢
    cases hfirst : addTree limit a parent depth t with
    | error e =>
      rw [hfirst] at h
      cases h
    | ok a₁ =>
      rw [hfirst] at h
      rw [addTree_mono hle t hfirst]
      exact addForest_mono hle ts h

end

/-- **A higher limit gives the same arena.** -/
theorem ofTree_mono {limit limit' : Nat} (hle : limit ≤ limit') {source : String} {t : Tree}
    {a : Arena} (h : ofTree limit source t = .ok a) : ofTree limit' source t = .ok a := by
  rw [ofTree_eq_addTree] at h ⊢
  exact addTree_mono hle t h

/-! ## Counters -/

/-- The greatest depth that the walk has come to is the greatest one there is. -/
theorem isGreatest_maxDepth {a : Arena} (h : 0 < a.size) :
    IsGreatest {d | ∃ label, (d, label) ∈ a.outline} a.maxDepth := by
  have hdepths : {d | ∃ label, (d, label) ∈ a.outline}
      = {d | d ∈ a.entries.toList.map Entry.depth} := by
    ext d
    simp [outline]
  rw [hdepths, a.depths_compared, List.foldl_max]
  have hne : a.entries.toList.map Entry.depth ≠ [] := by
    intro hnil
    have := congrArg List.length hnil
    simp only [List.length_map, Array.length_toList, List.length_nil] at this
    exact Nat.ne_of_gt h this
  obtain ⟨d, hd⟩ := Option.isSome_iff_exists.mp (List.isSome_max?_of_ne_nil hne)
  obtain ⟨hmem, hbound⟩ := List.max?_eq_some_iff.mp hd
  rw [hd, Option.getD_some, Nat.zero_max]
  exact ⟨hmem, fun e he => hbound e he⟩

end Arena

namespace Parser

variable {p : Parser} {source : String} {a : Arena}

/-! ## Parses -/

/-- What is parsed is the source with a copy of its tree and with its counters. -/
theorem describes_of_parse (h : p.parse source = .ok a) :
    a.source = source ∧ a.IsCopyOf (p.grammar source) ∧
      a.faultCount = (p.grammar source).faultCount ∧
      IsGreatest {d | ∃ label, (d, label) ∈ (p.grammar source).outline} a.maxDepth := by
  obtain ⟨hcopy, -⟩ := parse_eq_ok_iff.mp h
  obtain ⟨-, hsource, houtline⟩ := Arena.outline_of_ofTree hcopy
  have hiscopy := Arena.isCopyOf_of_ofTree hcopy
  refine ⟨hsource, hiscopy, Arena.faultCount_of_outline houtline, ?_⟩
  rw [← houtline]
  exact Arena.isGreatest_maxDepth (by rw [hiscopy.size_eq]; exact Tree.size_pos _)

/-- Depth decides first, then faults. -/
theorem parse_cases (p : Parser) (source : String) :
    ¬ (p.grammar source).FitsIn p.limits.maxDepth ∧
        p.parse source = .error (.tooDeep p.limits.maxDepth) ∨
      ((p.grammar source).FitsIn p.limits.maxDepth ∧ p.limits.rejectFaults = true ∧
        0 < (p.grammar source).faultCount ∧
        p.parse source = .error (.malformed (p.grammar source).faultCount)) ∨
      ((p.grammar source).FitsIn p.limits.maxDepth ∧
        (p.limits.rejectFaults = true → (p.grammar source).faultCount = 0) ∧
        ∃ a, p.parse source = .ok a) := by
  by_cases hfits : (p.grammar source).FitsIn p.limits.maxDepth
  · by_cases hfaults : p.limits.rejectFaults = true ∧ 0 < (p.grammar source).faultCount
    · exact .inr (.inl ⟨hfits, hfaults.1, hfaults.2, parse_malformed hfits hfaults.1 hfaults.2⟩)
    · have hnone : p.limits.rejectFaults = true → (p.grammar source).faultCount = 0 := by
        intro hreject
        have := mt (And.intro hreject) hfaults
        omega
      obtain ⟨a, hok, -, -⟩ : ∃ a, p.parse source = .ok a ∧ a.source = source ∧
          a.outline = (p.grammar source).outline := parse_eq_ok hfits hnone
      exact .inr (.inr ⟨hfits, hnone, a, hok⟩)
  · exact .inl ⟨hfits, parse_tooDeep hfits⟩

/-- Limits that are less strict give the same arena. -/
theorem parse_mono {limits : ParseLimits} (hdepth : p.limits.maxDepth ≤ limits.maxDepth)
    (hreject : limits.rejectFaults = true → p.limits.rejectFaults = true)
    (h : p.parse source = .ok a) : (Parser.mk p.grammar limits).parse source = .ok a := by
  obtain ⟨hcopy, hnone⟩ := parse_eq_ok_iff.mp h
  exact parse_eq_ok_iff.mpr ⟨Arena.ofTree_mono hdepth hcopy, fun hr => hnone (hreject hr)⟩

/-- **What limits decide about a source.** It is too deep exactly if some node of
its tree lies deeper than allowed, whatever its faults. It is malformed exactly
if it is not too deep, faults are unwelcome and it has some, and their number is
given. Otherwise it has an arena, which is a copy of the whole tree and knows the
number of its faults and its greatest depth. Limits that are less strict lose no
arena and change none. -/
theorem parse_limited (p : Parser) (source : String) :
    (∀ limit, p.parse source = .error (.tooDeep limit) ↔
      limit = p.limits.maxDepth ∧
        ∃ x ∈ (p.grammar source).outline, p.limits.maxDepth < x.1) ∧
    (∀ count, p.parse source = .error (.malformed count) ↔
      (p.grammar source).FitsIn p.limits.maxDepth ∧ p.limits.rejectFaults = true ∧
        0 < count ∧ count = (p.grammar source).faultCount) ∧
    ((∃ a, p.parse source = .ok a) ↔
      (p.grammar source).FitsIn p.limits.maxDepth ∧
        (p.limits.rejectFaults = true → (p.grammar source).faultCount = 0)) ∧
    (∀ a, p.parse source = .ok a →
      a.source = source ∧ a.IsCopyOf (p.grammar source) ∧
        a.faultCount = (p.grammar source).faultCount ∧
        IsGreatest {d | ∃ label, (d, label) ∈ (p.grammar source).outline} a.maxDepth) ∧
    ∀ limits a, p.limits.maxDepth ≤ limits.maxDepth →
      (limits.rejectFaults = true → p.limits.rejectFaults = true) →
      p.parse source = .ok a → (Parser.mk p.grammar limits).parse source = .ok a := by
  have hdeep : (∃ x ∈ (p.grammar source).outline, p.limits.maxDepth < x.1) ↔
      ¬ (p.grammar source).FitsIn p.limits.maxDepth := by
    simp [Tree.FitsIn]
  refine ⟨fun limit => ?tooDeep, fun count => ?malformed, ?ok, fun a h => describes_of_parse h,
    fun limits a hdepth hreject h => parse_mono hdepth hreject h⟩
  case tooDeep =>
    rw [hdeep]
    rcases parse_cases p source with ⟨hfits, h⟩ | ⟨hfits, -, -, h⟩ | ⟨hfits, -, a, h⟩
    · simp [h, hfits, eq_comm]
    · simp [h, hfits]
    · simp [h, hfits]
  case malformed =>
    rcases parse_cases p source with ⟨hfits, h⟩ | ⟨hfits, hreject, hfaults, h⟩ | ⟨hfits, hnone, a, h⟩
    · simp [h, hfits]
    · rw [h]
      constructor
      · intro heq
        cases heq
        exact ⟨hfits, hreject, hfaults, rfl⟩
      · rintro ⟨-, -, -, rfl⟩
        rfl
    · rw [h]
      refine iff_of_false (by simp) ?_
      rintro ⟨-, hreject, hpos, rfl⟩
      exact Nat.ne_of_gt hpos (hnone hreject)
  case ok =>
    rcases parse_cases p source with ⟨hfits, h⟩ | ⟨hfits, hreject, hfaults, h⟩ | ⟨hfits, hnone, a, h⟩
    · simp [h, hfits]
    · simp [h, hreject, Nat.ne_of_gt hfaults]
    · exact iff_of_true ⟨a, h⟩ ⟨hfits, hnone⟩

/-- The tree of `f(?`, with a node for the stray character and one put in for the
parenthesis that is missing. -/
def brokenCall : Tree :=
  let leaf (kind : String) (isNamed isError isMissing : Bool) (start stop : Nat) : Tree :=
    .node ⟨kind, none, ⟨start, stop⟩, isNamed, isError, isMissing⟩ []
  .node ⟨"call", none, ⟨0, 3⟩, true, false, false⟩
    [leaf "identifier" true false false 0 1,
     .node ⟨"argument_list", some "arguments", ⟨1, 3⟩, true, false, false⟩
      [leaf "(" false false false 1 2, leaf "ERROR" true true false 2 3,
       leaf ")" false false true 3 3]]

theorem parse_limited_brokenCall :
    (Parser.mk (fun _ => brokenCall) ⟨1, true⟩).parse "f(?" = .error (.tooDeep 1) ∧
      (Parser.mk (fun _ => brokenCall) ⟨2, true⟩).parse "f(?" = .error (.malformed 2) ∧
      ∃ a, (Parser.mk (fun _ => brokenCall) ⟨2, false⟩).parse "f(?" = .ok a ∧
        a.IsCopyOf brokenCall ∧ a.faultCount = 2 ∧ a.maxDepth = 2 ∧
        (Parser.mk (fun _ => brokenCall) ⟨500, false⟩).parse "f(?" = .ok a := by
  have hfits : brokenCall.FitsIn 2 := by
    unfold Tree.FitsIn
    decide
  have hfaults : brokenCall.faultCount = 2 := by decide
  obtain ⟨hdeep, -⟩ := parse_limited ⟨fun _ => brokenCall, ⟨1, true⟩⟩ "f(?"
  obtain ⟨-, hmalformed, -⟩ := parse_limited ⟨fun _ => brokenCall, ⟨2, true⟩⟩ "f(?"
  obtain ⟨-, -, hok, hdescribes, hmono⟩ :=
    parse_limited ⟨fun _ => brokenCall, ⟨2, false⟩⟩ "f(?"
  obtain ⟨a, ha⟩ := hok.mpr ⟨hfits, by simp⟩
  obtain ⟨-, hcopy, hcount, hgreatest⟩ := hdescribes a ha
  refine ⟨(hdeep 1).mpr ⟨rfl, by decide⟩, (hmalformed 2).mpr ⟨hfits, rfl, by decide, hfaults.symm⟩,
    a, ha, hcopy, hcount.trans hfaults, ?_, hmono ⟨500, false⟩ a (by decide) (by simp) ha⟩
  refine hgreatest.unique ⟨⟨⟨")", none, ⟨3, 3⟩, false, false, true⟩, by decide⟩, ?_⟩
  rintro d ⟨label, hmem⟩
  exact hfits _ hmem

end Parser

end CorpusMark
