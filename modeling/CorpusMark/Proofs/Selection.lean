import CorpusMark.Selection
import CorpusMark.Proofs.Double.Rounding

/-!
# Selected samples

Which samples `select` marks, without a word about sorting: a sample is
selected exactly if fewer than `selectionSize` of the eligible samples precede
it (`isSelected_select_iff`). `SelectionOrder.precedes` is the strict order
behind an arrangement and `SelectionOrder.rank` counts along it, so the rank of
a sample does not depend on the rate. That a greater rate selects more is then
a fact about `selectionSize` alone (`selectionSize_mono`).
-/

namespace CorpusMark

/-- In a strictly ordered list the first `n` entries are those that fewer than
`n` others precede. -/
theorem mem_take_iff_countP_lt {α : Type} {r : α → α → Bool}
    (hasymm : ∀ a b, r a b = true → r b a = false) {x : α} :
    ∀ {l : List α} {n : Nat}, l.Pairwise (fun a b => r a b = true) →
      (x ∈ l.take n ↔ x ∈ l ∧ l.countP (r · x) < n)
  | [], n, _ => by simp
  | a :: l, 0, _ => by simp
  | a :: l, n + 1, h => by
    obtain ⟨hal, hl⟩ := List.pairwise_cons.mp h
    rw [List.take_succ_cons, List.mem_cons, List.mem_cons, List.countP_cons,
      mem_take_iff_countP_lt hasymm hl]
    by_cases hxl : x ∈ l
    · have hax : r a x = true := hal x hxl
      have hne : x ≠ a := by
        rintro rfl
        have := hasymm x x hax
        rw [hax] at this
        cases this
      simp [hax, hne, hxl]
    · simp only [hxl, false_and, or_false, iff_self_and]
      rintro rfl
      -- nothing that comes later precedes the first entry
      have hzero : l.countP (r · x) = 0 := by
        rw [List.countP_eq_zero]
        intro b hb
        rw [hasymm x b (hal b hb)]
        exact Bool.false_ne_true
      have hself : r x x = false := by
        cases hxx : r x x with
        | false => rfl
        | true => rw [← hasymm x x hxx, hxx]
      rw [hzero, hself]
      simp

namespace SelectionOrder

/-- Whether `i` comes before `j` in the order. -/
def precedes : SelectionOrder → Nat → Nat → Bool
  | index, i, j => i < j
  | hashed seed, i, j =>
    indexHash seed i < indexHash seed j || (indexHash seed i == indexHash seed j && i < j)

/-- Number of the given indices that come before `i`. -/
def rank (order : SelectionOrder) (indices : List Nat) (i : Nat) : Nat :=
  indices.countP fun j => order.precedes j i

theorem precedes_asymm (order : SelectionOrder) (i j : Nat) (h : order.precedes i j = true) :
    order.precedes j i = false := by
  cases order with
  | index =>
    simp only [precedes, decide_eq_true_eq, decide_eq_false_iff_not] at *
    omega
  | hashed seed =>
    simp only [precedes, UInt64.lt_iff_toNat_lt, ← UInt64.toNat_inj, Bool.or_eq_true,
      Bool.and_eq_true, beq_iff_eq, decide_eq_true_eq, Bool.or_eq_false_iff,
      Bool.and_eq_false_imp, decide_eq_false_iff_not] at *
    omega

theorem rankedLe_iff {hash : Nat → UInt64} {i j : Nat} :
    rankedLe hash i j = true ↔ (hash i).toNat < (hash j).toNat ∨
      ((hash i).toNat = (hash j).toNat ∧ i ≤ j) := by
  simp [rankedLe, UInt64.lt_iff_toNat_lt, ← UInt64.toNat_inj]

theorem rankedLe_trans (hash : Nat → UInt64) (i j k : Nat) (hij : rankedLe hash i j = true)
    (hjk : rankedLe hash j k = true) : rankedLe hash i k = true := by
  rw [rankedLe_iff] at *
  omega

theorem rankedLe_total (hash : Nat → UInt64) (i j : Nat) :
    (rankedLe hash i j || rankedLe hash j i) = true := by
  rw [Bool.or_eq_true, rankedLe_iff, rankedLe_iff]
  omega

theorem arrangeBy_perm (hash : UInt64 → Nat → UInt64) (order : SelectionOrder)
    (indices : List Nat) : (order.arrangeBy hash indices).Perm indices := by
  cases order with
  | index => exact List.mergeSort_perm _ _
  | hashed seed => exact List.mergeSort_perm _ _

theorem arrange_perm (order : SelectionOrder) (indices : List Nat) :
    (order.arrange indices).Perm indices :=
  order.arrangeBy_perm indexHash indices

/-- An arrangement of different indices is strictly ordered. -/
theorem pairwise_arrange (order : SelectionOrder) {indices : List Nat} (h : indices.Nodup) :
    (order.arrange indices).Pairwise fun i j => order.precedes i j = true := by
  have hne : (order.arrange indices).Pairwise (· ≠ ·) :=
    (order.arrange_perm indices).nodup_iff.mpr h
  cases order with
  | index =>
    refine ((List.pairwise_mergeSort' (· ≤ ·) indices).and hne).imp ?_
    rintro i j ⟨hij, hij'⟩
    exact decide_eq_true (Nat.lt_of_le_of_ne hij hij')
  | hashed seed =>
    have hle := List.pairwise_mergeSort (rankedLe_trans (indexHash seed))
      (rankedLe_total (indexHash seed)) indices
    refine (hle.and hne).imp ?_
    rintro i j ⟨hij, hij'⟩
    rw [rankedLe_iff] at hij
    simp only [precedes, UInt64.lt_iff_toNat_lt, ← UInt64.toNat_inj, Bool.or_eq_true,
      Bool.and_eq_true, beq_iff_eq, decide_eq_true_eq]
    omega

/-- The first `n` arranged indices are those of a rank below `n`. -/
theorem mem_take_arrange_iff (order : SelectionOrder) {indices : List Nat}
    (h : indices.Nodup) {i n : Nat} :
    i ∈ (order.arrange indices).take n ↔ i ∈ indices ∧ order.rank indices i < n := by
  rw [mem_take_iff_countP_lt order.precedes_asymm (order.pairwise_arrange h),
    (order.arrange_perm indices).mem_iff, (order.arrange_perm indices).countP_eq]
  rfl

/-- The rank of a listed index is less than the number of indices. -/
theorem rank_lt_length (order : SelectionOrder) {indices : List Nat} {i : Nat}
    (h : i ∈ indices) : order.rank indices i < indices.length := by
  refine Nat.lt_of_le_of_ne List.countP_le_length fun heq => ?_
  have hii := List.countP_eq_length.mp heq i h
  have := order.precedes_asymm i i hii
  rw [hii] at this
  cases this

end SelectionOrder

/-! ## Binary search -/

theorem getElem_le_of_pairwise {xs : Array Nat} (hxs : xs.toList.Pairwise (· ≤ ·)) {i j : Nat}
    (hij : i ≤ j) (hj : j < xs.size) : xs[i] ≤ xs[j] := by
  rcases Nat.lt_or_eq_of_le hij with hlt | rfl
  · exact List.pairwise_iff_getElem.mp hxs i j (by simp; omega) (by simpa) hlt
  · exact Nat.le_refl _

/-- In an ascending array the search finds what stands between its bounds. -/
theorem searchSorted_iff {xs : Array Nat} (hxs : xs.toList.Pairwise (· ≤ ·)) {x : Nat}
    {low high : Nat} (hhigh : high ≤ xs.size) :
    searchSorted xs x low high = true ↔ ∃ k, low ≤ k ∧ k < high ∧ xs[k]? = some x := by
  induction low, high using searchSorted.induct xs x with
  | case1 low high hlt middle hnone =>
    -- the middle lies in the array
    rw [Array.getElem?_eq_none_iff] at hnone
    omega
  | case2 low high hlt middle y hy hyx ih =>
    simp only [middle] at hy ih
    obtain ⟨hmid, rfl⟩ := Array.getElem?_eq_some_iff.mp hy
    rw [searchSorted, dif_pos hlt]
    simp only [hy, hyx, if_true]
    rw [ih hhigh]
    refine exists_congr fun k => ⟨fun ⟨hk, h⟩ => ⟨by omega, h⟩, fun ⟨hk, hkh, hkx⟩ => ?_⟩
    obtain ⟨hks, rfl⟩ := Array.getElem?_eq_some_iff.mp hkx
    refine ⟨Nat.lt_of_not_le fun hle => ?_, hkh, hkx⟩
    exact absurd (getElem_le_of_pairwise hxs hle hmid) (Nat.not_le_of_lt hyx)
  | case3 low high hlt middle y hy hyx hxy ih =>
    simp only [middle] at hy ih
    obtain ⟨hmid, rfl⟩ := Array.getElem?_eq_some_iff.mp hy
    rw [searchSorted, dif_pos hlt]
    simp only [hy, hyx, hxy, if_true, if_false]
    rw [ih (by omega)]
    refine exists_congr fun k => ⟨fun ⟨hk, h, hkx⟩ => ⟨hk, by omega, hkx⟩,
      fun ⟨hk, hkh, hkx⟩ => ?_⟩
    obtain ⟨hks, rfl⟩ := Array.getElem?_eq_some_iff.mp hkx
    refine ⟨hk, Nat.lt_of_not_le fun hle => ?_, hkx⟩
    exact absurd (getElem_le_of_pairwise hxs hle hks) (Nat.not_le_of_lt hxy)
  | case4 low high hlt middle y hy hyx hxy =>
    simp only [middle] at hy
    obtain rfl : y = x := by omega
    rw [searchSorted, dif_pos hlt]
    simp only [hy, hyx, if_false, true_iff]
    exact ⟨(low + high) / 2, by omega, by omega, hy⟩
  | case5 low high hlt =>
    rw [searchSorted, dif_neg hlt]
    simp only [Bool.false_eq_true, false_iff]
    rintro ⟨k, hk, hkh, -⟩
    omega

/-- A search of a whole ascending array decides membership. -/
theorem searchSorted_size_iff {xs : Array Nat} (hxs : xs.toList.Pairwise (· ≤ ·)) {x : Nat} :
    searchSorted xs x 0 xs.size = true ↔ x ∈ xs := by
  rw [searchSorted_iff hxs (Nat.le_refl _), Array.mem_iff_getElem?]
  refine exists_congr fun k => ⟨fun h => h.2.2, fun h => ⟨Nat.zero_le k, ?_, h⟩⟩
  exact (Array.getElem?_eq_some_iff.mp h).1

/-! ## The selected samples -/

section Selected

variable {hash : UInt64 → Nat → UInt64} {order : SelectionOrder} {rate : Double}
  {eligible : List Nat} {i : Nat}

/-- Marked are the first ones of the arranged samples. -/
theorem marked_selectBy :
    (selectBy hash order rate eligible).marked
      = (((order.arrangeBy hash eligible).take (selectionSize rate eligible.length)).mergeSort
          (· ≤ ·)).toArray := by
  simp only [selectBy, (order.arrangeBy_perm hash eligible).length_eq]

/-- The others stay clean. -/
theorem clean_selectBy :
    (selectBy hash order rate eligible).clean
      = (((order.arrangeBy hash eligible).drop (selectionSize rate eligible.length)).mergeSort
          (· ≤ ·)).toArray := by
  simp only [selectBy, (order.arrangeBy_perm hash eligible).length_eq]

theorem pairwise_marked_selectBy :
    (selectBy hash order rate eligible).marked.toList.Pairwise (· ≤ ·) :=
  List.pairwise_mergeSort' (· ≤ ·) _

theorem isSelected_selectBy_iff_mem :
    (selectBy hash order rate eligible).isSelected i = true ↔
      i ∈ (selectBy hash order rate eligible).marked := by
  rw [Selection.isSelected, searchSorted_size_iff pairwise_marked_selectBy]

theorem isSelected_select_iff_mem :
    (select order rate eligible).isSelected i = true ↔
      i ∈ (select order rate eligible).marked :=
  isSelected_selectBy_iff_mem

/-- **A sample is selected exactly if its rank is below the number of samples
to select.** -/
theorem isSelected_select_iff (h : eligible.Nodup) :
    (select order rate eligible).isSelected i = true ↔
      i ∈ eligible ∧ order.rank eligible i < selectionSize rate eligible.length := by
  rw [isSelected_select_iff_mem, select, marked_selectBy, List.mem_toArray, List.mem_mergeSort]
  exact order.mem_take_arrange_iff h

theorem size_marked_select :
    (select order rate eligible).marked.size
      = min (selectionSize rate eligible.length) eligible.length := by
  rw [select, marked_selectBy, List.size_toArray, List.length_mergeSort, List.length_take,
    (order.arrangeBy_perm _ eligible).length_eq]

end Selected

/-! ## The number of samples to select -/

section SelectionSize

open Double

theorem selectionSize_zero (n : Nat) : selectionSize zero n = 0 := by
  have hnan : isNaN (ofNat n) = false := isNaN_ofNat n
  cases hfin : (ofNat n).isFinite with
  | false =>
    have hinf := isInfinite_of_not_isFinite hnan hfin
    have hmul : zero.mul (ofNat n) = nan := by
      have hz : zero.magnitude = 0 := by decide
      simp [mul, hnan, hinf, hz]
    rw [selectionSize, hmul]
    rfl
  | true =>
    have hunits : zero.units = 0 := by decide
    rw [selectionSize, mul_of_isFinite (by decide) hfin (by decide) (isNegative_ofNat n),
      hunits, Nat.zero_mul, roundRatio_zero (Nat.mul_pos unitsPerOne_pos unitsPerOne_pos),
      nearestNat_ofMagnitude (Nat.zero_le _), if_neg (by decide)]
    have hround : roundHalfUp (unitsOf 0) unitsPerOne = 0 := by
      have := roundHalfUp_mul 0 unitsPerOne_pos
      rwa [Nat.zero_mul] at this
    rw [hround, Nat.zero_min]

/-- At rate 1 every eligible sample is selected, as long as their number is an
exact double. -/
theorem selectionSize_one {n : Nat} (h : n ≤ 2 ^ 53) : selectionSize one n = n := by
  have hexact : roundRatio (one.units * (ofNat n).units) (unitsPerOne * unitsPerOne)
      = roundRatio n 1 := by
    have hunits : one.units * (ofNat n).units = n * (unitsPerOne * unitsPerOne) := by
      rw [units_one, units_ofNat h, Nat.mul_left_comm]
    rw [hunits, ← Nat.one_mul (unitsPerOne * unitsPerOne), ← Nat.mul_assoc n, Nat.mul_one,
      roundRatio_mul_right n 1 (Nat.mul_pos unitsPerOne_pos unitsPerOne_pos)]
  have hfin : roundRatio n 1 ≠ infiniteMagnitude := by
    have := isFinite_ofNat h
    rw [isFinite, magnitude_ofNat, decide_eq_true_eq] at this
    exact Nat.ne_of_lt this
  have hunits : unitsOf (roundRatio n 1) = n * unitsPerOne := by
    rw [← units_ofNat h, units, magnitude_ofNat]
  rw [selectionSize, mul_of_isFinite (by decide) (isFinite_ofNat h) (by decide)
    (isNegative_ofNat n), hexact, nearestNat_ofMagnitude (roundRatio_le n 1), if_neg hfin,
    hunits, roundHalfUp_mul n unitsPerOne_pos, Nat.min_self]

/-- **A greater rate selects at least as many samples.** -/
theorem selectionSize_mono {a b : Double} (ha : a.isFinite = true) (hb : b.isFinite = true)
    (haneg : a.isNegative = false) (hbneg : b.isNegative = false)
    (h : a.magnitude ≤ b.magnitude) (n : Nat) : selectionSize a n ≤ selectionSize b n := by
  have hnan : isNaN (ofNat n) = false := isNaN_ofNat n
  unfold selectionSize
  cases hfin : (ofNat n).isFinite with
  | true =>
    rw [mul_of_isFinite ha hfin haneg (isNegative_ofNat n),
      mul_of_isFinite hb hfin hbneg (isNegative_ofNat n)]
    refine nearestNat_mono (roundRatio_mono ?_ _) (roundRatio_le _ _) n
    exact Nat.mul_le_mul_right _ (units_mono h)
  | false =>
    -- the number of samples is past the greatest double: 0 selects none, all others select all
    have hinf := isInfinite_of_not_isFinite hnan hfin
    have hmul : ∀ x : Double, x.isFinite = true → x.isNegative = false →
        x.mul (ofNat n) = if x.magnitude = 0 then nan else infinity false := by
      intro x hx hneg
      have hmag : (ofNat n).magnitude ≠ 0 := by
        rw [isInfinite, beq_iff_eq] at hinf
        rw [hinf]
        decide
      rw [magnitude_ofNat] at hmag
      simp [mul, isNaN_of_isFinite hx, hneg, hinf, hmag]
    rw [hmul a ha haneg, hmul b hb hbneg]
    have hnone : nan.nearestNat n = 0 := rfl
    by_cases hzero : a.magnitude = 0
    · rw [if_pos hzero, hnone]
      exact Nat.zero_le _
    · rw [if_neg hzero, if_neg (by omega)]

end SelectionSize

end CorpusMark
