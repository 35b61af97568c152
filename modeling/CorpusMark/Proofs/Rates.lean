import CorpusMark.Proofs.Double.Order
import CorpusMark.Rate
import Mathlib.Tactic.ByContra

/-!
# Accepted rates

What `Rate.validate` returns when it accepts a list of rates: the same rates in
strictly ascending order, all of them positive numbers up to 1. With the
baseline in front they are still strictly ascending, so no two releases of a
run share a rate, and the last rate is the highest (`exists_highest`).

Rates are sorted in the total order of doubles and compared as numbers. On usable
rates the two agree, and equal rates are the same double. So equal rates end up
next to each other, and the first such pair is the smallest one
(`least_of_firstRepeated?`). What is accepted, and what is reported else, is
`validate_decided`.
-/

namespace CorpusMark.Rate

open Double

/-- A usable rate is a positive number. -/
theorem key_pos_of_isValid {x : Double} (h : isValid x = true) : 0 < x.key := by
  simp only [isValid, Bool.and_eq_true, Bool.not_eq_true'] at h
  obtain ⟨⟨hfinite, hle⟩, -⟩ := h
  have hnan := isNaN_of_isFinite hfinite
  by_contra hkey
  have : x.le zero = true := le_iff.mpr ⟨hnan, isNaN_zero, by rw [key_zero]; omega⟩
  rw [this] at hle
  cases hle

theorem isFinite_of_isValid {x : Double} (h : isValid x = true) : x.isFinite = true := by
  simp only [isValid, Bool.and_eq_true] at h
  exact h.1.1

theorem isNaN_of_isValid {x : Double} (h : isValid x = true) : x.isNaN = false :=
  isNaN_of_isFinite (isFinite_of_isValid h)

theorem isNegative_of_isValid {x : Double} (h : isValid x = true) : x.isNegative = false :=
  isNegative_of_key_pos (key_pos_of_isValid h)

/-- Usable rates in total order are in the order of numbers. -/
theorem le_of_totalLe {a b : Double} (ha : isValid a = true) (hb : isValid b = true)
    (hle : a.totalLe b = true) : a.le b = true := by
  have h := totalLe_iff.mp hle
  rw [totalKey_of_not_isNegative (isNegative_of_isValid ha),
    totalKey_of_not_isNegative (isNegative_of_isValid hb),
    ← key_of_not_isNegative (isNegative_of_isValid ha),
    ← key_of_not_isNegative (isNegative_of_isValid hb)] at h
  exact le_iff.mpr ⟨isNaN_of_isValid ha, isNaN_of_isValid hb, h⟩

/-- A usable rate that precedes another one in total order and is not equal to
it is smaller. -/
theorem lt_of_totalLe {a b : Double} (ha : isValid a = true) (hb : isValid b = true)
    (hle : a.totalLe b = true) (hne : a.sameNumber b = false) : a.lt b = true := by
  have hkey := (le_iff.mp (le_of_totalLe ha hb hle)).2.2
  refine lt_iff.mpr ⟨isNaN_of_isValid ha, isNaN_of_isValid hb, ?_⟩
  rcases Int.lt_or_eq_of_le hkey with hlt | heq
  · exact hlt
  · have hsame : a.sameNumber b = true :=
      sameNumber_iff.mpr ⟨isNaN_of_isValid ha, isNaN_of_isValid hb, heq⟩
    rw [hsame] at hne
    cases hne

/-- Usable rates in total order are strictly ascending if no two neighbours
are equal. -/
theorem pairwise_lt_of_firstRepeated?_eq_none :
    ∀ {rates : List Double}, (∀ x ∈ rates, isValid x = true) →
      (rates.Pairwise fun a b => a.totalLe b = true) → firstRepeated? rates = none →
      rates.Pairwise fun a b => a.lt b = true
  | [], _, _, _ => List.Pairwise.nil
  | [a], _, _, _ => List.pairwise_singleton _ a
  | a :: b :: rest, hvalid, hle, hnone => by
    rw [firstRepeated?] at hnone
    cases hsame : a.sameNumber b with
    | true =>
      rw [if_pos hsame] at hnone
      cases hnone
    | false =>
      rw [if_neg (by rw [hsame]; exact Bool.false_ne_true)] at hnone
      have ih := pairwise_lt_of_firstRepeated?_eq_none
        (fun x hx => hvalid x (List.mem_cons_of_mem a hx)) hle.tail hnone
      have hab : a.lt b = true :=
        lt_of_totalLe (hvalid a (by simp)) (hvalid b (by simp))
          ((List.pairwise_cons.mp hle).1 b (by simp)) hsame
      refine List.pairwise_cons.mpr ⟨fun c hc => ?_, ih⟩
      rcases List.mem_cons.mp hc with rfl | hc
      · exact hab
      · exact lt_trans hab ((List.pairwise_cons.mp ih).1 c hc)

theorem ascending_perm (rates : List Double) : (ascending rates).Perm rates :=
  List.mergeSort_perm rates _

theorem pairwise_ascending (rates : List Double) :
    (ascending rates).Pairwise fun a b => a.totalLe b = true :=
  List.pairwise_mergeSort totalLe_trans totalLe_total rates

theorem isValid_of_mem_ascending {rates : List Double} (hvalid : ∀ x ∈ rates, isValid x = true) :
    ∀ x ∈ ascending rates, isValid x = true :=
  fun x hx => hvalid x ((ascending_perm rates).mem_iff.mp hx)

/-- **Accepted rates** are the configured ones in strictly ascending order, and
each of them is usable. -/
theorem validate_eq_ok {rates sorted : List Double} (h : validate rates = .ok sorted) :
    sorted.Perm rates ∧ (∀ x ∈ sorted, isValid x = true) ∧
      sorted.Pairwise fun a b => a.lt b = true := by
  unfold validate at h
  split at h
  · cases h
  · cases hfind : rates.find? fun x => !isValid x with
    | some rate =>
      rw [hfind] at h
      cases h
    | none =>
      rw [hfind] at h
      have hvalid : ∀ x ∈ ascending rates, isValid x = true :=
        isValid_of_mem_ascending (by simpa using hfind)
      cases hrep : firstRepeated? (ascending rates) with
      | some rate =>
        simp only [hrep] at h
        cases h
      | none =>
        simp only [hrep] at h
        cases h
        exact ⟨ascending_perm rates, hvalid,
          pairwise_lt_of_firstRepeated?_eq_none hvalid (pairwise_ascending rates) hrep⟩

/-- One usable rate is accepted. -/
theorem validate_singleton {rate : Double} (h : isValid rate = true) :
    validate [rate] = .ok [rate] := by
  simp [validate, h, ascending, firstRepeated?]

/-- With the baseline in front, accepted rates are still strictly ascending. -/
theorem pairwise_lt_withBaseline {rates : List Double}
    (hvalid : ∀ x ∈ rates, isValid x = true)
    (hlt : rates.Pairwise fun a b => a.lt b = true) :
    (withBaseline rates).Pairwise fun a b => a.lt b = true := by
  refine List.pairwise_cons.mpr ⟨fun x hx => ?_, hlt⟩
  refine lt_iff.mpr ⟨isNaN_zero, isNaN_of_isValid (hvalid x hx), ?_⟩
  rw [key_zero]
  exact key_pos_of_isValid (hvalid x hx)

/-- Neither the baseline nor an accepted rate is a NaN. -/
theorem isNaN_of_mem_withBaseline {rates : List Double} (hvalid : ∀ x ∈ rates, isValid x = true)
    {x : Double} (hx : x ∈ withBaseline rates) : x.isNaN = false := by
  rcases List.mem_cons.mp hx with rfl | hx
  · exact isNaN_zero
  · exact isNaN_of_isValid (hvalid x hx)

/-- The baseline is the only rate of a run with key 0. -/
theorem eq_zero_of_mem_withBaseline {rates : List Double} (hvalid : ∀ x ∈ rates, isValid x = true)
    {x : Double} (hx : x ∈ withBaseline rates) (hkey : x.key = 0) : x = zero := by
  rcases List.mem_cons.mp hx with rfl | hx
  · rfl
  · exact absurd hkey (Int.ne_of_gt (key_pos_of_isValid (hvalid x hx)))

/-- A rate of a run and an equal rate of another run are the same double. -/
theorem eq_of_mem_withBaseline {rates rates' : List Double}
    (hvalid : ∀ x ∈ rates, isValid x = true) (hvalid' : ∀ x ∈ rates', isValid x = true)
    {x y : Double} (hx : x ∈ withBaseline rates) (hy : y ∈ withBaseline rates')
    (hkey : x.key = y.key) : x = y := by
  rcases List.mem_cons.mp hx with rfl | hmem
  · rw [key_zero] at hkey
    exact (eq_zero_of_mem_withBaseline hvalid' hy hkey.symm).symm
  · exact eq_of_key_eq (key_pos_of_isValid (hvalid x hmem)) hkey

theorem ne_nil_of_validate {rates sorted : List Double} (h : validate rates = .ok sorted) :
    sorted ≠ [] := by
  rintro rfl
  obtain rfl : rates = [] := List.nil_perm.mp (validate_eq_ok h).1
  cases h

/-- **The last rate of a run is the highest configured one.** -/
theorem exists_highest {rates sorted : List Double} (h : validate rates = .ok sorted) :
    ∃ top, (withBaseline sorted).getLast? = some top ∧ top ∈ rates ∧
      ∀ x ∈ rates, x.le top = true := by
  obtain ⟨hperm, hvalid, hlt⟩ := validate_eq_ok h
  have hne := ne_nil_of_validate h
  obtain ⟨front, hfront⟩ : ∃ front, sorted = front ++ [sorted.getLast hne] :=
    ⟨_, (List.dropLast_concat_getLast hne).symm⟩
  generalize sorted.getLast hne = top at hfront
  subst hfront
  have hmem : ∀ x, x ∈ rates ↔ x ∈ front ∨ x = top := by
    intro x
    rw [← hperm.mem_iff, List.mem_append, List.mem_singleton]
  have hnan : ∀ x ∈ rates, x.isNaN = false := fun x hx =>
    isNaN_of_isValid (hvalid x (hperm.mem_iff.mpr hx))
  have htop : top ∈ rates := (hmem top).mpr (Or.inr rfl)
  refine ⟨top, ?_, htop, fun x hx => ?_⟩
  · rw [withBaseline, ← List.cons_append, List.getLast?_concat]
  · rcases (hmem x).mp hx with hx' | rfl
    · have hkey := (lt_iff.mp ((List.pairwise_append.mp hlt).2.2 x hx' top (by simp))).2.2
      exact le_iff.mpr ⟨hnan x hx, hnan top htop, Int.le_of_lt hkey⟩
    · exact le_iff.mpr ⟨hnan x hx, hnan x hx, Int.le_refl _⟩

/-! ## Refused rates -/

/-- A finite number above 0, but not above 1. -/
def IsShare (x : Double) : Prop :=
  x.isFinite = true ∧ zero.lt x = true ∧ x.le one = true

theorem isValid_iff {x : Double} : isValid x = true ↔ IsShare x := by
  rw [IsShare]
  by_cases hfinite : x.isFinite = true
  · have hnan := isNaN_of_isFinite hfinite
    have hone : one.isNaN = false := by decide
    simp [isValid, lt, le, hfinite, hnan, hone]
  · simp [isValid, hfinite]

/-- The number stands in the list, and an equal one behind it. -/
def IsRepeated (rates : List Double) (x : Double) : Prop :=
  ∃ y, [x, y].Sublist rates ∧ x.sameNumber y = true

/-- No two entries are equal exactly if none is repeated. -/
theorem pairwise_sameNumber_iff {rates : List Double} :
    (rates.Pairwise fun x y => x.sameNumber y = false) ↔ ∀ x, ¬ IsRepeated rates x := by
  rw [List.pairwise_iff_forall_sublist]
  constructor
  · rintro h x ⟨y, hsublist, hsame⟩
    rw [h hsublist] at hsame
    cases hsame
  · intro h x y hsublist
    exact Bool.eq_false_iff.mpr fun hsame => h x ⟨y, hsublist, hsame⟩

/-- Equal rates are the same double, so a repeated one occurs twice. -/
theorem isRepeated_iff {rates : List Double} (hvalid : ∀ x ∈ rates, isValid x = true)
    {x : Double} : IsRepeated rates x ↔ 2 ≤ rates.count x := by
  rw [← List.replicate_sublist_iff]
  constructor
  · rintro ⟨y, hsublist, hsame⟩
    have hpos := key_pos_of_isValid (hvalid x (hsublist.subset List.mem_cons_self))
    rwa [← eq_of_key_eq hpos (sameNumber_iff.mp hsame).2.2] at hsublist
  · intro hsublist
    have hnan := isNaN_of_isValid (hvalid x (hsublist.subset List.mem_cons_self))
    exact ⟨x, hsublist, sameNumber_iff.mpr ⟨hnan, hnan, rfl⟩⟩

theorem IsRepeated.perm {rates rates' : List Double} (hvalid : ∀ x ∈ rates, isValid x = true)
    (hperm : rates.Perm rates') {x : Double} (h : IsRepeated rates x) : IsRepeated rates' x := by
  have hvalid' : ∀ x ∈ rates', isValid x = true := fun x hx =>
    hvalid x (hperm.mem_iff.mpr hx)
  rw [isRepeated_iff hvalid', ← hperm.count_eq]
  exact (isRepeated_iff hvalid).mp h

/-- A strictly ascending list repeats nothing. -/
theorem not_isRepeated_of_pairwise_lt {rates : List Double}
    (hlt : rates.Pairwise fun a b => a.lt b = true) (x : Double) : ¬ IsRepeated rates x := by
  rintro ⟨y, hsublist, hsame⟩
  have hxy := List.pairwise_iff_forall_sublist.mp hlt hsublist
  exact Int.ne_of_lt (lt_iff.mp hxy).2.2 (sameNumber_iff.mp hsame).2.2

/-- **What is found among neighbours is the smallest repeated rate**, if the rates
are usable and in total order. -/
theorem least_of_firstRepeated? :
    ∀ {rates : List Double}, (∀ x ∈ rates, isValid x = true) →
      (rates.Pairwise fun a b => a.totalLe b = true) →
      ∀ {x : Double}, firstRepeated? rates = some x →
        IsRepeated rates x ∧ ∀ y, IsRepeated rates y → x.le y = true
  | [], _, _, _, h => by cases h
  | [_], _, _, _, h => by cases h
  | a :: b :: rest, hvalid, hle, x, h => by
    have ha := hvalid a List.mem_cons_self
    have hrest : ∀ c ∈ b :: rest, isValid c = true := fun c hc =>
      hvalid c (List.mem_cons_of_mem a hc)
    rw [firstRepeated?] at h
    cases hsame : a.sameNumber b with
    | true =>
      -- nothing is smaller than the first rate
      rw [if_pos hsame] at h
      cases h
      refine ⟨⟨b, (List.nil_sublist rest).cons_cons b |>.cons_cons a, hsame⟩, ?_⟩
      rintro y ⟨z, hsublist, -⟩
      rcases List.mem_cons.mp (hsublist.subset List.mem_cons_self) with rfl | hy
      · exact le_iff.mpr ⟨isNaN_of_isValid ha, isNaN_of_isValid ha, Int.le_refl _⟩
      · exact le_of_totalLe ha (hrest y hy) ((List.pairwise_cons.mp hle).1 y hy)
    | false =>
      rw [if_neg (by rw [hsame]; exact Bool.false_ne_true)] at h
      obtain ⟨⟨y, hsublist, hxy⟩, hleast⟩ := least_of_firstRepeated? hrest hle.tail h
      refine ⟨⟨y, hsublist.cons a, hxy⟩, ?_⟩
      rintro y ⟨z, hsublist, hyz⟩
      cases hsublist with
      | cons _ hsublist => exact hleast y ⟨z, hsublist, hyz⟩
      | cons_cons _ hsublist =>
        -- the first rate is smaller than its neighbour, so than all others
        have hab := lt_of_totalLe ha (hrest b List.mem_cons_self)
          ((List.pairwise_cons.mp hle).1 b List.mem_cons_self) hsame
        have hbz : b.key ≤ z.key := by
          rcases List.mem_cons.mp (hsublist.subset List.mem_cons_self) with rfl | hz
          · exact Int.le_refl _
          · exact (le_iff.mp (le_of_totalLe (hrest b List.mem_cons_self)
              (hrest z (List.mem_cons_of_mem b hz))
              ((List.pairwise_cons.mp hle.tail).1 z hz))).2.2
        have haz := (sameNumber_iff.mp hyz).2.2
        have := (lt_iff.mp hab).2.2
        omega

section Verdict

variable {rates : List Double}

/-- The first rate that is not usable is reported. -/
theorem validate_of_not_isValid {before after : List Double} {x : Double}
    (hbefore : ∀ y ∈ before, isValid y = true) (hx : ¬ isValid x = true) :
    validate (before ++ x :: after) = .error (.invalidRate x "must lie in (0, 1]") := by
  have hfind : (before ++ x :: after).find? (fun y => !isValid y) = some x := by
    rw [List.find?_eq_some_iff_append]
    exact ⟨by simpa using hx, before, after, rfl, by simpa using hbefore⟩
  have hne : (before ++ x :: after).isEmpty = false := by simp
  rw [validate, hne, if_neg Bool.false_ne_true]
  simp only [hfind]

/-- Once all rates are usable, the repeated ones decide. -/
theorem validate_of_isValid (hne : rates ≠ []) (hvalid : ∀ x ∈ rates, isValid x = true) :
    validate rates = (firstRepeated? (ascending rates)).elim (.ok (ascending rates))
      fun x => .error (.invalidRate x "listed more than once") := by
  have hfind : rates.find? (fun y => !isValid y) = none := by
    rw [List.find?_eq_none]
    simpa using hvalid
  rw [validate, if_neg (by simpa using hne)]
  simp only [hfind]
  cases firstRepeated? (ascending rates) <;> rfl

/-- Usable rates of which none is repeated are accepted. -/
theorem validate_of_not_isRepeated (hne : rates ≠ []) (hvalid : ∀ x ∈ rates, isValid x = true)
    (hnone : ∀ x, ¬ IsRepeated rates x) : validate rates = .ok (ascending rates) := by
  have hvalid' := isValid_of_mem_ascending hvalid
  rw [validate_of_isValid hne hvalid]
  cases hfirst : firstRepeated? (ascending rates) with
  | none => rfl
  | some x =>
    have hrep := (least_of_firstRepeated? hvalid' (pairwise_ascending rates) hfirst).1
    exact absurd (hrep.perm hvalid' (ascending_perm rates)) (hnone x)

/-- Of usable rates the smallest repeated one is reported. -/
theorem validate_of_isRepeated (hvalid : ∀ x ∈ rates, isValid x = true) {y : Double}
    (hy : IsRepeated rates y) :
    ∃ x, IsRepeated rates x ∧ (∀ z, IsRepeated rates z → x.le z = true) ∧
      validate rates = .error (.invalidRate x "listed more than once") := by
  have hvalid' := isValid_of_mem_ascending hvalid
  have hne : rates ≠ [] := by
    rintro rfl
    obtain ⟨z, hsublist, -⟩ := hy
    cases hsublist
  have hup : ∀ z, IsRepeated rates z → IsRepeated (ascending rates) z := fun _ hz =>
    hz.perm hvalid (ascending_perm rates).symm
  rw [validate_of_isValid hne hvalid]
  cases hfirst : firstRepeated? (ascending rates) with
  | none =>
    have hlt := pairwise_lt_of_firstRepeated?_eq_none hvalid' (pairwise_ascending rates) hfirst
    exact absurd (hup y hy) (not_isRepeated_of_pairwise_lt hlt y)
  | some x =>
    obtain ⟨hrep, hleast⟩ := least_of_firstRepeated? hvalid' (pairwise_ascending rates) hfirst
    exact ⟨x, hrep.perm hvalid' (ascending_perm rates), fun z hz => hleast z (hup z hz), rfl⟩

/-- **Rates are accepted** if there are some, all usable and none repeated. -/
theorem exists_validate_eq_ok_iff :
    (∃ sorted, validate rates = .ok sorted) ↔
      rates ≠ [] ∧ (∀ x ∈ rates, isValid x = true) ∧ ∀ x, ¬ IsRepeated rates x := by
  constructor
  · rintro ⟨sorted, h⟩
    obtain ⟨hperm, hvalid, hlt⟩ := validate_eq_ok h
    have hvalid' : ∀ x ∈ rates, isValid x = true := fun x hx =>
      hvalid x (hperm.mem_iff.mpr hx)
    refine ⟨?_, hvalid', fun x hx => ?_⟩
    · rintro rfl
      cases h
    · exact not_isRepeated_of_pairwise_lt hlt x (hx.perm hvalid' hperm.symm)
  · rintro ⟨hne, hvalid, hnone⟩
    exact ⟨_, validate_of_not_isRepeated hne hvalid hnone⟩

/-- Rates can be brought into strictly ascending order in one way only. -/
theorem eq_of_perm_of_pairwise_lt {sorted sorted' : List Double} (hperm : sorted.Perm sorted')
    (hlt : sorted.Pairwise fun a b => a.lt b = true)
    (hlt' : sorted'.Pairwise fun a b => a.lt b = true) : sorted = sorted' := by
  refine hperm.eq_of_pairwise (fun a b _ _ hab hba => ?_) hlt hlt'
  exact absurd (lt_iff.mp hab).2.2 (Int.not_lt.mpr (Int.le_of_lt (lt_iff.mp hba).2.2))

/-- The order in which rates are listed does not matter. -/
theorem validate_eq_of_perm {rates' sorted : List Double} (h : validate rates = .ok sorted)
    (hperm : rates'.Perm rates) : validate rates' = .ok sorted := by
  obtain ⟨hsorted, -, hlt⟩ := validate_eq_ok h
  obtain ⟨hne, hvalid, hnone⟩ := exists_validate_eq_ok_iff.mp ⟨sorted, h⟩
  have hvalid' : ∀ x ∈ rates', isValid x = true := fun x hx => hvalid x (hperm.mem_iff.mp hx)
  obtain ⟨sorted', h'⟩ : ∃ sorted', validate rates' = .ok sorted' := by
    refine exists_validate_eq_ok_iff.mpr ⟨?_, hvalid', fun x hx => ?_⟩
    · rintro rfl
      exact hne (List.nil_perm.mp hperm)
    · exact hnone x (hx.perm hvalid' hperm)
  obtain ⟨hsorted', -, hlt'⟩ := validate_eq_ok h'
  rw [h', eq_of_perm_of_pairwise_lt ((hsorted'.trans hperm).trans hsorted.symm) hlt' hlt]

/-- **How lists of rates are judged.** A list is accepted exactly if it has
entries, each is a finite number above 0 and not above 1, and no two are equal.
Its entries then come in strictly ascending order, which is the same for every
order of the list, and that order is accepted as it is. Of a list with entries
the first one that is no such number is reported, and if there is none, the
smallest one that is repeated. -/
theorem validate_decided (rates : List Double) :
    ((∃ sorted, validate rates = .ok sorted) ↔
      rates ≠ [] ∧ (∀ x ∈ rates, IsShare x) ∧
        rates.Pairwise fun x y => x.sameNumber y = false) ∧
    (∀ sorted, validate rates = .ok sorted →
      sorted.Perm rates ∧ (sorted.Pairwise fun x y => x.lt y = true) ∧
        (∀ other, other.Perm rates → (other.Pairwise fun x y => x.lt y = true) →
          other = sorted) ∧
        (∀ rates' : List Double, rates'.Perm rates → validate rates' = .ok sorted) ∧
        validate sorted = .ok sorted) ∧
    (rates = [] →
      validate rates = .error (.invalidRate Double.nan "at least one mark rate is required")) ∧
    (∀ before x after, rates = before ++ x :: after → (∀ y ∈ before, IsShare y) → ¬ IsShare x →
      validate rates = .error (.invalidRate x "must lie in (0, 1]")) ∧
    ((∀ x ∈ rates, IsShare x) → ∀ y, IsRepeated rates y →
      ∃ x, IsRepeated rates x ∧ (∀ z, IsRepeated rates z → x.le z = true) ∧
        validate rates = .error (.invalidRate x "listed more than once")) := by
  simp only [← isValid_iff]
  refine ⟨?accepted, fun sorted h => ?sorted, ?empty, ?unusable, ?repeated⟩
  case accepted =>
    rw [exists_validate_eq_ok_iff, pairwise_sameNumber_iff]
  case sorted =>
    obtain ⟨hperm, -, hlt⟩ := validate_eq_ok h
    refine ⟨hperm, hlt, fun other hother hlt' => ?_, fun rates' => validate_eq_of_perm h,
      validate_eq_of_perm h hperm⟩
    exact eq_of_perm_of_pairwise_lt (hother.trans hperm.symm) hlt' hlt
  case empty =>
    rintro rfl
    rfl
  case unusable =>
    rintro before x after rfl hbefore hx
    exact validate_of_not_isValid hbefore hx
  case repeated =>
    intro hvalid y hy
    exact validate_of_isRepeated hvalid hy

/-- With 1/4 and 1/2 next to 1: an accepted list, one with a NaN before a
repeated rate, and one in which two rates are repeated. -/
theorem validate_decided_quarter :
    let quarter : Double := ⟨0x3fd0000000000000⟩
    let half : Double := ⟨0x3fe0000000000000⟩
    validate [one, quarter, half] = .ok [quarter, half, one] ∧
      validate [half, nan, half] = .error (.invalidRate nan "must lie in (0, 1]") ∧
      validate [one, half, quarter, half, quarter]
        = .error (.invalidRate quarter "listed more than once") := by
  intro quarter half
  have hshare : ∀ x ∈ [one, half, quarter, half, quarter], IsShare x := by
    unfold IsShare
    decide
  refine ⟨?accepted, ?unusable, ?repeated⟩
  case accepted =>
    obtain ⟨haccepted, hsorted, -⟩ := validate_decided [one, quarter, half]
    have hentries : ∀ x ∈ [one, quarter, half], IsShare x := by
      unfold IsShare
      decide
    obtain ⟨sorted, h⟩ := haccepted.mpr ⟨by decide, hentries, by decide⟩
    obtain ⟨-, -, hunique, -⟩ := hsorted sorted h
    rw [h, ← hunique [quarter, half, one] (by decide) (by decide)]
  case unusable =>
    obtain ⟨-, -, -, hunusable, -⟩ := validate_decided [half, nan, half]
    exact hunusable [half] nan [half] rfl (by unfold IsShare; decide) (by unfold IsShare; decide)
  case repeated =>
    obtain ⟨-, -, -, -, hrepeated⟩ := validate_decided [one, half, quarter, half, quarter]
    have hquarter : IsRepeated [one, half, quarter, half, quarter] quarter :=
      ⟨quarter, by decide, by decide⟩
    obtain ⟨x, ⟨y, hsublist, -⟩, hleast, herror⟩ := hrepeated hshare quarter hquarter
    -- no other entry is as small
    have hsmallest : ∀ x ∈ [one, half, quarter, half, quarter], x.le quarter = true →
        x = quarter := by decide
    rw [herror, hsmallest x (hsublist.subset List.mem_cons_self) (hleast quarter hquarter)]

end Verdict

end CorpusMark.Rate
