import CorpusMark.Proofs.Assignment
import Mathlib

/-!
# How much a search costs

A search for a disjoint choice looks at a number of candidates that depends on
the candidates alone. With a budget for so many it ends, with a choice or without,
and has the rest of the budget left; with a smaller one it is cut short (`Takes`).
No list is gone through more often than there are ways to choose from the lists
before it, which bounds the number of candidates looked at
(`exists_takes_search`). So more budget changes an answer only from none to the
first disjoint choice (`chooseDisjoint_outcome`).
-/

namespace CorpusMark

namespace Assignment

/-! ## What a search takes -/

/-- How a search ends that is not cut short. -/
def ending : Option (List Occurrence) → Nat → Outcome
  | some os, left => .found os left
  | none, left => .exhausted left

/-- The search looks at `n` candidates and then has the given result, unless the
budget does not suffice. -/
def Takes (search : Nat → Outcome) (n : Nat) (result : Option (List Occurrence)) : Prop :=
  ∀ budget, search budget = if n ≤ budget then ending result (budget - n) else .spent

section Takes

variable {next : List Occurrence → Nat → Outcome} {chosen options os : List Occurrence}
  {candidate : Occurrence} {n m : Nat} {result : Option (List Occurrence)}

theorem takes_tryOptions_nil : Takes (tryOptions next chosen []) 0 none :=
  fun budget => by rw [tryOptions, if_pos (Nat.zero_le budget), ending, Nat.sub_zero]

/-- A candidate that does not fit costs one look. -/
theorem Takes.skip (hfits : fits chosen candidate = false)
    (hrest : Takes (tryOptions next chosen options) m result) :
    Takes (tryOptions next chosen (candidate :: options)) (m + 1) result := by
  intro budget
  cases budget with
  | zero => rw [tryOptions, if_neg (by omega)]
  | succ budget =>
    rw [tryOptions, hfits, if_neg Bool.false_ne_true, hrest budget, Nat.add_sub_add_right]
    simp only [Nat.add_le_add_iff_right]

/-- A candidate that fits costs one look and the search for the other terms,
which may be all that is needed. -/
theorem Takes.found (hfits : fits chosen candidate = true)
    (hnext : Takes (next (chosen ++ [candidate])) n (some os)) :
    Takes (tryOptions next chosen (candidate :: options)) (n + 1) (some os) := by
  intro budget
  cases budget with
  | zero => rw [tryOptions, if_neg (by omega)]
  | succ budget =>
    rw [tryOptions, if_pos hfits, hnext budget]
    by_cases hn : n ≤ budget
    · rw [if_pos hn, if_pos (by omega), Nat.add_sub_add_right]
      rfl
    · rw [if_neg hn, if_neg (by omega)]

/-- If the other terms cannot be served next to a candidate, the next one is
tried with what is left of the budget. -/
theorem Takes.exhausted (hfits : fits chosen candidate = true)
    (hnext : Takes (next (chosen ++ [candidate])) n none)
    (hrest : Takes (tryOptions next chosen options) m result) :
    Takes (tryOptions next chosen (candidate :: options)) (n + m + 1) result := by
  intro budget
  cases budget with
  | zero => rw [tryOptions, if_neg (by omega)]
  | succ budget =>
    rw [tryOptions, if_pos hfits, hnext budget]
    by_cases hn : n ≤ budget
    · rw [if_pos hn]
      show tryOptions next chosen options (budget - n) = _
      rw [hrest (budget - n)]
      by_cases hm : m ≤ budget - n
      · rw [if_pos hm, if_pos (by omega)]
        congr 1
        omega
      · rw [if_neg hm, if_neg (by omega)]
    · rw [if_neg hn, if_neg (by omega)]

/-- Each candidate costs at most one look and one search for the other terms. -/
theorem exists_takes_tryOptions {most : Nat}
    (hnext : ∀ chosen, ∃ n ≤ most, ∃ result, Takes (next chosen) n result)
    (chosen options : List Occurrence) :
    ∃ n ≤ options.length * (most + 1), ∃ result,
      Takes (tryOptions next chosen options) n result := by
  induction options with
  | nil => exact ⟨0, Nat.zero_le _, none, takes_tryOptions_nil⟩
  | cons candidate options ih =>
    obtain ⟨m, hm, result, hrest⟩ := ih
    rw [List.length_cons, Nat.succ_mul]
    cases hfits : fits chosen candidate with
    | false => exact ⟨m + 1, by omega, result, hrest.skip hfits⟩
    | true =>
      obtain ⟨n, hn, found, hfound⟩ := hnext (chosen ++ [candidate])
      cases found with
      | none => exact ⟨n + m + 1, by omega, result, .exhausted hfits hfound hrest⟩
      | some os => exact ⟨n + 1, by omega, some os, .found hfits hfound⟩

end Takes

/-! ## The bound -/

/-- Number of ways to choose one candidate from each list. -/
def ways (candidates : List (List Occurrence)) : Nat :=
  (candidates.map List.length).prod

/-- Sum over all terms of the number of ways to choose from the lists up to that
of the term. -/
def mostChecks (candidates : List (List Occurrence)) : Nat :=
  ∑ k ∈ Finset.range candidates.length, ways (candidates.take (k + 1))

theorem mostChecks_cons (options : List Occurrence) (rest : List (List Occurrence)) :
    mostChecks (options :: rest) = options.length * (mostChecks rest + 1) := by
  have hways : ∀ k, ways ((options :: rest).take (k + 1))
      = options.length * ways (rest.take k) := by
    intro k
    rw [List.take_succ_cons, ways, List.map_cons, List.prod_cons, ← ways]
  -- the length of the first list is a summand, and a factor of all others
  have hfirst : ways (rest.take 0) = 1 := rfl
  rw [mostChecks, List.length_cons, Finset.sum_range_succ']
  simp only [hways]
  rw [hfirst, ← Finset.mul_sum, ← mostChecks, Nat.mul_add]

/-- **A search looks at a certain number of candidates**, if it is not cut short. -/
theorem exists_takes_search (candidates : List (List Occurrence)) (chosen : List Occurrence) :
    ∃ n ≤ mostChecks candidates, ∃ result, Takes (search candidates chosen) n result := by
  induction candidates generalizing chosen with
  | nil =>
    refine ⟨0, Nat.zero_le _, some chosen, fun budget => ?_⟩
    rw [search, if_pos (Nat.zero_le budget), ending, Nat.sub_zero]
  | cons options rest ih =>
    rw [mostChecks_cons]
    exact exists_takes_tryOptions ih chosen options

/-! ## What a budget can change -/

theorem NoLater.antisymm {js js' : List Nat} (h : NoLater js js') (h' : NoLater js' js) :
    js = js' := by
  rcases h with rfl | h
  · rfl
  · rcases h' with rfl | h'
    · rfl
    · exact absurd h' (lt_asymm (a := js) (b := js') h)

/-- Positions determine what is chosen. -/
theorem Picks.unique {candidates : List (List Occurrence)} {js : List Nat}
    {os os' : List Occurrence} (h : Picks candidates js os) (h' : Picks candidates js os') :
    os = os' := by
  induction h generalizing os' with
  | nil =>
    cases h'
    rfl
  | cons hhead htail ih =>
    cases h' with
    | cons hhead' htail' => rw [Option.some.inj (hhead.symm.trans hhead'), ih htail']

theorem IsFirst.unique {candidates : List (List Occurrence)} {js js' : List Nat}
    {os os' : List Occurrence} (h : IsFirst candidates js os) (h' : IsFirst candidates js' os') :
    os = os' := by
  have hjs : js = js' := (h.least js' os' h'.picks h'.disjoint).antisymm
    (h'.least js os h.picks h.disjoint)
  subst hjs
  exact h.picks.unique h'.picks

section Answers

variable {candidates : List (List Occurrence)} {n : Nat} {result : Option (List Occurrence)}

/-- The result of a search that is not cut short is the first disjoint choice,
or there is none. -/
theorem Takes.result_spec (h : Takes (search candidates []) n result) :
    (∃ js os, result = some os ∧ IsFirst candidates js os) ∨
      result = none ∧ ∀ js os, Picks candidates js os → ¬ Disjoint os := by
  -- with a budget of just `n` it ends
  have hend := h n
  rw [if_pos (Nat.le_refl n)] at hend
  cases result with
  | some os =>
    obtain ⟨js, hfirst⟩ := isFirst_of_search hend
    exact .inl ⟨js, os, rfl, hfirst⟩
  | none =>
    have hspec := search_spec candidates [] n
    rw [hend] at hspec
    exact .inr ⟨rfl, fun js os hpicks hdisjoint =>
      hspec js os hpicks (extends_nil_iff.mpr hdisjoint)⟩

theorem Takes.chooseDisjoint_eq (h : Takes (search candidates []) n result) (budget : Nat) :
    chooseDisjoint budget candidates = if n ≤ budget then result else none := by
  rw [chooseDisjoint, searchAll_eq_search, h budget]
  split_ifs
  · cases result <;> rfl
  · rfl

theorem Takes.searchAll_eq (h : Takes (search candidates []) n result) (budget : Nat) :
    searchAll budget candidates
      = if n ≤ budget then ending (chooseDisjoint budget candidates) (budget - n)
        else .spent := by
  rw [searchAll_eq_search, h budget, h.chooseDisjoint_eq]
  split_ifs <;> rfl

/-- A search is cut short exactly by a budget that is too small. -/
theorem Takes.searchAll_eq_spent_iff (h : Takes (search candidates []) n result) (budget : Nat) :
    searchAll budget candidates = .spent ↔ budget < n := by
  rw [h.searchAll_eq]
  by_cases hle : n ≤ budget
  · rw [if_pos hle]
    refine iff_of_false ?_ (Nat.not_lt.mpr hle)
    cases chooseDisjoint budget candidates <;> simp [ending]
  · rw [if_neg hle]
    exact iff_of_true rfl (Nat.not_le.mp hle)

theorem Takes.choice_iff (h : Takes (search candidates []) n result) (budget : Nat)
    (os : List Occurrence) :
    chooseDisjoint budget candidates = some os ↔
      n ≤ budget ∧ ∃ js, IsFirst candidates js os := by
  rw [h.chooseDisjoint_eq]
  by_cases hle : n ≤ budget
  · rw [if_pos hle, and_iff_right hle]
    constructor
    · rintro rfl
      rcases h.result_spec with ⟨js, first, hfirst, hos⟩ | ⟨hresult, -⟩
      · cases hfirst
        exact ⟨js, hos⟩
      · cases hresult
    · rintro ⟨js, hos⟩
      rcases h.result_spec with ⟨js', first, rfl, hfirst⟩ | ⟨-, hnone⟩
      · rw [hfirst.unique hos]
      · exact absurd hos.disjoint (hnone js os hos.picks)
  · simp [hle]

theorem Takes.no_choice_iff (h : Takes (search candidates []) n result) (budget : Nat) :
    chooseDisjoint budget candidates = none ↔
      budget < n ∨ ∀ js os, Picks candidates js os → ¬ Disjoint os := by
  rw [h.chooseDisjoint_eq]
  by_cases hle : n ≤ budget
  · rw [if_pos hle, or_iff_right (Nat.not_lt.mpr hle)]
    rcases h.result_spec with ⟨js, first, rfl, hfirst⟩ | ⟨rfl, hnone⟩
    · simp only [reduceCtorEq, false_iff]
      exact fun hno => hno js first hfirst.picks hfirst.disjoint
    · exact iff_of_true rfl hnone
  · rw [if_neg hle]
    exact iff_of_true rfl (.inl (Nat.not_le.mp hle))

end Answers

/-- **What a search answers for every budget.** It looks at a certain number of
candidates, and a budget that is smaller cuts it short. It chooses the first
disjoint assignment exactly if there is one and the budget suffices. So a choice
does not depend on the budget, a larger budget loses none, and no choice with a
budget of at least the bound means that there is none. -/
theorem chooseDisjoint_outcome (candidates : List (List Occurrence)) :
    ∃ checks ≤ mostChecks candidates,
      (∀ budget, searchAll budget candidates
        = if checks ≤ budget then ending (chooseDisjoint budget candidates) (budget - checks)
          else .spent) ∧
      (∀ budget os, chooseDisjoint budget candidates = some os ↔
        checks ≤ budget ∧ ∃ js, IsFirst candidates js os) ∧
      (∀ budget, chooseDisjoint budget candidates = none ↔
        budget < checks ∨ ∀ js os, Picks candidates js os → ¬ Disjoint os) ∧
      (∀ budget budget' os os', chooseDisjoint budget candidates = some os →
        chooseDisjoint budget' candidates = some os' → os = os') ∧
      (∀ budget budget' os, budget ≤ budget' → chooseDisjoint budget candidates = some os →
        chooseDisjoint budget' candidates = some os) ∧
      ∀ budget, mostChecks candidates ≤ budget → chooseDisjoint budget candidates = none →
        ∀ js os, Picks candidates js os → ¬ Disjoint os := by
  obtain ⟨checks, hmost, result, htakes⟩ := exists_takes_search candidates []
  refine ⟨checks, hmost, htakes.searchAll_eq, htakes.choice_iff, htakes.no_choice_iff,
    ?independent, ?more, ?conclusive⟩
  case independent =>
    intro budget budget' os os' h h'
    obtain ⟨-, js, hfirst⟩ := (htakes.choice_iff budget os).mp h
    obtain ⟨-, js', hfirst'⟩ := (htakes.choice_iff budget' os').mp h'
    exact hfirst.unique hfirst'
  case more =>
    intro budget budget' os hle h
    obtain ⟨hchecks, hfirst⟩ := (htakes.choice_iff budget os).mp h
    exact (htakes.choice_iff budget' os).mpr ⟨hchecks.trans hle, hfirst⟩
  case conclusive =>
    intro budget hle h
    exact ((htakes.no_choice_iff budget).mp h).resolve_left (Nat.not_lt.mpr (hmost.trans hle))

end Assignment

end CorpusMark
