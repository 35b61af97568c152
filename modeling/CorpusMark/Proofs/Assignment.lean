import CorpusMark.Proofs.Choices
import Mathlib.Data.List.Forall2

/-!
# The first disjoint assignment

What the search for disjoint occurrences returns, stated on positions. An
assignment is a list of positions, one in the candidate list of each term
(`Picks`); it is admissible next to occurrences that are already chosen if it
overlaps neither them nor itself (`Extends`). The search keeps one invariant:
an assignment that it finds is the least admissible one, and when it is
exhausted there is none (`search_spec`). Lists of positions are compared in
lexicographic order, the first term before all others (`NoLater`).
-/

namespace CorpusMark

namespace Assignment

/-- The occurrences at the given positions, one in each candidate list. -/
inductive Picks : List (List Occurrence) → List Nat → List Occurrence → Prop where
  | nil : Picks [] [] []
  | cons {options : List Occurrence} {rest : List (List Occurrence)} {j : Nat} {js : List Nat}
      {o : Occurrence} {os : List Occurrence} (head : options[j]? = some o)
      (tail : Picks rest js os) : Picks (options :: rest) (j :: js) (o :: os)

/-- No two of the occurrences overlap. -/
def Disjoint (os : List Occurrence) : Prop :=
  os.Pairwise fun a b => a.span.overlaps b.span = false

/-- The occurrences overlap neither each other nor those already chosen. -/
def Extends (chosen os : List Occurrence) : Prop :=
  Disjoint os ∧ ∀ c ∈ chosen, ∀ o ∈ os, c.span.overlaps o.span = false

/-- Positions that are equal or come first in lexicographic order. -/
def NoLater (js js' : List Nat) : Prop :=
  js = js' ∨ List.Lex (· < ·) js js'

/-- The occurrences are the first disjoint choice of one from each list. -/
structure IsFirst (candidates : List (List Occurrence)) (js : List Nat)
    (os : List Occurrence) : Prop where
  picks : Picks candidates js os
  disjoint : Disjoint os
  least : ∀ js' os', Picks candidates js' os' → Disjoint os' → NoLater js js'

theorem noLater_cons {j j' : Nat} {js js' : List Nat} :
    NoLater (j :: js) (j' :: js') ↔ j < j' ∨ (j = j' ∧ NoLater js js') := by
  constructor
  · rintro (heq | hlex)
    · obtain ⟨rfl, rfl⟩ := List.cons.inj heq
      exact Or.inr ⟨rfl, Or.inl rfl⟩
    · cases hlex with
      | rel hlt => exact Or.inl hlt
      | cons hlex => exact Or.inr ⟨rfl, Or.inr hlex⟩
  · rintro (hlt | ⟨rfl, rfl | hlex⟩)
    · exact Or.inr (.rel hlt)
    · exact Or.inl rfl
    · exact Or.inr (.cons hlex)

/-! ## Choices next to a prefix -/

theorem fits_iff {chosen : List Occurrence} {o : Occurrence} :
    fits chosen o = true ↔ ∀ c ∈ chosen, c.span.overlaps o.span = false := by
  simp [fits]

/-- A choice is admissible if its head fits and its tail is admissible next to
the head as well. -/
theorem extends_cons {chosen os : List Occurrence} {o : Occurrence} :
    Extends chosen (o :: os) ↔ fits chosen o = true ∧ Extends (chosen ++ [o]) os := by
  rw [fits_iff, Extends, Extends, Disjoint, List.pairwise_cons]
  constructor
  · rintro ⟨⟨hhead, htail⟩, hchosen⟩
    refine ⟨fun c hc => hchosen c hc o List.mem_cons_self, htail, fun c hc p hp => ?_⟩
    rcases List.mem_append.mp hc with hc | hc
    · exact hchosen c hc p (List.mem_cons_of_mem o hp)
    · rw [List.mem_singleton.mp hc]
      exact hhead p hp
  · rintro ⟨hfits, htail, hchosen⟩
    refine ⟨⟨fun p hp => hchosen o (by simp) p hp, htail⟩, fun c hc p hp => ?_⟩
    rcases List.mem_cons.mp hp with rfl | hp
    · exact hfits c hc
    · exact hchosen c (List.mem_append_left _ hc) p hp

theorem extends_nil_iff {os : List Occurrence} : Extends [] os ↔ Disjoint os := by
  simp [Extends]

/-! ## The search -/

/-- What the end of a search says about the choices that were left. -/
def Outcome.Correct (candidates : List (List Occurrence)) (chosen : List Occurrence) :
    Outcome → Prop
  | .found result _ => ∃ js os, result = chosen ++ os ∧ Picks candidates js os ∧
      Extends chosen os ∧ ∀ js' os', Picks candidates js' os' → Extends chosen os' → NoLater js js'
  | .exhausted _ => ∀ js os, Picks candidates js os → ¬ Extends chosen os
  | .spent => True

/-- Dropping a candidate that no admissible choice takes moves all positions by
one and changes nothing else. -/
theorem Outcome.Correct.skip {options : List Occurrence} {rest : List (List Occurrence)}
    {chosen : List Occurrence} {candidate : Occurrence} {outcome : Outcome}
    (hskip : ∀ js os, Picks rest js os → ¬ Extends chosen (candidate :: os))
    (h : outcome.Correct (options :: rest) chosen) :
    outcome.Correct ((candidate :: options) :: rest) chosen := by
  cases outcome with
  | spent => trivial
  | exhausted left =>
    intro js os hpicks hext
    cases hpicks with
    | @cons _ _ j js o os hhead htail =>
      cases j with
      | zero =>
        cases hhead
        exact hskip js os htail hext
      | succ j => exact h (j :: js) (o :: os) (.cons hhead htail) hext
  | found result left =>
    obtain ⟨js, os, hresult, hpicks, hext, hleast⟩ := h
    cases hpicks with
    | @cons _ _ j js o os hhead htail =>
      refine ⟨(j + 1) :: js, o :: os, hresult, .cons hhead htail, hext, ?_⟩
      intro js' os' hpicks' hext'
      cases hpicks' with
      | @cons _ _ j' js' o' os' hhead' htail' =>
        cases j' with
        | zero =>
          cases hhead'
          exact absurd hext' (hskip js' os' htail')
        | succ j' =>
          have hle := hleast (j' :: js') (o' :: os') (.cons hhead' htail') hext'
          rw [noLater_cons] at hle ⊢
          exact hle.imp Nat.succ_lt_succ (And.imp_left (congrArg Nat.succ))

/-- The candidates of one term, tried in order, if the search of the other
terms is correct. -/
theorem correct_tryOptions {rest : List (List Occurrence)}
    (ih : ∀ chosen left, (search rest chosen left).Correct rest chosen)
    (chosen : List Occurrence) (options : List Occurrence) (left : Nat) :
    (tryOptions (search rest) chosen options left).Correct (options :: rest) chosen := by
  induction options generalizing left with
  | nil =>
    intro js os hpicks
    cases hpicks with
    | cons hhead htail => cases hhead
  | cons candidate options ihOptions =>
    cases left with
    | zero => trivial
    | succ left =>
      rw [tryOptions]
      by_cases hfits : fits chosen candidate = true
      · rw [if_pos hfits]
        have hnext := ih (chosen ++ [candidate]) left
        cases hsearch : search rest (chosen ++ [candidate]) left with
        | spent => trivial
        | exhausted left' =>
          -- with this candidate the other terms cannot be served
          rw [hsearch] at hnext
          refine Outcome.Correct.skip (fun js os hpicks hext => ?_) (ihOptions left')
          exact hnext js os hpicks (extends_cons.mp hext).2
        | found result left' =>
          rw [hsearch] at hnext
          obtain ⟨js, os, rfl, hpicks, hext, hleast⟩ := hnext
          refine ⟨0 :: js, candidate :: os, by simp, .cons rfl hpicks,
            extends_cons.mpr ⟨hfits, hext⟩, ?_⟩
          intro js' os' hpicks' hext'
          cases hpicks' with
          | @cons _ _ j' js' o' os' hhead' htail' =>
            rw [noLater_cons]
            cases j' with
            | zero =>
              cases hhead'
              exact Or.inr ⟨rfl, hleast js' os' htail' (extends_cons.mp hext').2⟩
            | succ j' => exact Or.inl (Nat.succ_pos j')
      · rw [if_neg hfits]
        refine Outcome.Correct.skip (fun js os _ hext => ?_) (ihOptions left)
        exact hfits (extends_cons.mp hext).1

/-- A search that ends says what it found or that there is nothing to find. -/
theorem search_spec (candidates : List (List Occurrence)) (chosen : List Occurrence)
    (left : Nat) : (search candidates chosen left).Correct candidates chosen := by
  induction candidates generalizing chosen left with
  | nil =>
    refine ⟨[], [], by simp, .nil, ⟨List.Pairwise.nil, by simp⟩, ?_⟩
    intro js' os' hpicks _
    cases hpicks
    exact Or.inl rfl
  | cons options rest ih => exact correct_tryOptions ih chosen options left

/-! ## The choice -/

/-- What has been chosen is what the search has found. -/
theorem chooseDisjoint_eq_some_iff {budget : Nat} {candidates : List (List Occurrence)}
    {os : List Occurrence} :
    chooseDisjoint budget candidates = some os ↔
      ∃ left, search candidates [] budget = .found os left := by
  rw [chooseDisjoint, searchAll_eq_search]
  cases search candidates [] budget <;> simp

/-- What a search finds is the first disjoint assignment. -/
theorem isFirst_of_search {candidates : List (List Occurrence)} {os : List Occurrence}
    {budget left : Nat} (h : search candidates [] budget = .found os left) :
    ∃ js, IsFirst candidates js os := by
  have hspec := search_spec candidates [] budget
  rw [h] at hspec
  obtain ⟨js, os', hos, hpicks, hext, hleast⟩ := hspec
  rw [List.nil_append] at hos
  subst hos
  refine ⟨js, hpicks, extends_nil_iff.mp hext, fun js' os' hpicks' hdisj => ?_⟩
  exact hleast js' os' hpicks' (extends_nil_iff.mpr hdisj)

/-- **What is chosen is the first disjoint assignment.** -/
theorem isFirst_of_chooseDisjoint {budget : Nat} {candidates : List (List Occurrence)}
    {os : List Occurrence} (h : chooseDisjoint budget candidates = some os) :
    ∃ js, IsFirst candidates js os := by
  obtain ⟨left, hsearch⟩ := chooseDisjoint_eq_some_iff.mp h
  exact isFirst_of_search hsearch

/-! ## Positions and terms -/

/-- A choice takes one occurrence from each list. -/
theorem Picks.length_eq {candidates : List (List Occurrence)} {js : List Nat}
    {os : List Occurrence} (h : Picks candidates js os) : os.length = candidates.length := by
  induction h with
  | nil => rfl
  | cons _ _ ih => rw [List.length_cons, List.length_cons, ih]

/-- The occurrence chosen for an entry is one of its candidates. -/
theorem Picks.mem_of_mem_zip {α : Type} {f : α → List Occurrence} {xs : List α}
    {js : List Nat} {os : List Occurrence} (h : Picks (xs.map f) js os) {x : α × Occurrence}
    (hx : x ∈ xs.zip os) : x.2 ∈ f x.1 := by
  induction xs generalizing js os with
  | nil => cases hx
  | cons a xs ih =>
    rw [List.map_cons] at h
    cases h with
    | cons hhead htail =>
      rw [List.zip_cons_cons] at hx
      rcases List.mem_cons.mp hx with rfl | hx
      · exact List.mem_of_getElem? hhead
      · exact ih htail hx

/-- Every chosen occurrence is a candidate for some entry. -/
theorem Picks.exists_mem {α : Type} {f : α → List Occurrence} {xs : List α} {js : List Nat}
    {os : List Occurrence} (h : Picks (xs.map f) js os) {o : Occurrence} (ho : o ∈ os) :
    ∃ x ∈ xs, o ∈ f x := by
  have hlen : os.length = xs.length := by rw [h.length_eq, List.length_map]
  rw [← List.map_snd_zip (Nat.le_of_eq hlen)] at ho
  obtain ⟨x, hx, rfl⟩ := List.mem_map.mp ho
  exact ⟨x.1, (List.of_mem_zip hx).1, h.mem_of_mem_zip hx⟩

end Assignment

end CorpusMark
