import CorpusMark.Proofs.Double.Order
import Mathlib

/-!
# Rounding of doubles

Two facts about exact arithmetic with one rounding at the end. Rounding is
monotone: of two ratios with one denominator the smaller never rounds to the
greater magnitude (`roundRatio_mono`), and a greater magnitude has no smaller
value (`unitsOf_mono`). Whole numbers up to `2⁵³` are exact (`units_ofNat`).

`places` is the number of binary places that a ratio has in front of its 53
significant ones. Its two bounds are all that is used of the logarithm in it.
-/

namespace CorpusMark

namespace Double

/-! ## The nearest whole number -/

theorem roundHalfEven_bounds (a b : Nat) :
    a / b ≤ roundHalfEven a b ∧ roundHalfEven a b ≤ a / b + 1 := by
  unfold roundHalfEven
  dsimp only
  split_ifs <;> omega

theorem roundHalfEven_mono {a b : Nat} (h : a ≤ b) (d : Nat) :
    roundHalfEven a d ≤ roundHalfEven b d := by
  rcases Nat.lt_or_eq_of_le (Nat.div_le_div_right (c := d) h) with hlt | heq
  · -- rounding adds at most one to the smaller quotient and takes nothing from the other
    have ha := (roundHalfEven_bounds a d).2
    have hb := (roundHalfEven_bounds b d).1
    omega
  · -- of equal quotients the remainders decide
    have hmod : a % d ≤ b % d := by
      have ha := Nat.div_add_mod a d
      have hb := Nat.div_add_mod b d
      rw [heq] at ha
      omega
    unfold roundHalfEven
    dsimp only
    rw [heq]
    split_ifs <;> omega

/-- A whole quotient is its own nearest number. -/
theorem roundHalfEven_mul (k : Nat) {d : Nat} (hd : 0 < d) : roundHalfEven (k * d) d = k := by
  simp [roundHalfEven, Nat.mul_div_cancel k hd, hd]

theorem roundHalfEven_mul_right (a d : Nat) {c : Nat} (hc : 0 < c) :
    roundHalfEven (a * c) (d * c) = roundHalfEven a d := by
  unfold roundHalfEven
  dsimp only
  rw [Nat.mul_div_mul_right _ _ hc, Nat.mul_mod_mul_right, ← Nat.mul_assoc]
  simp only [Nat.mul_lt_mul_right hc]

theorem roundHalfUp_mono {a b : Nat} (h : a ≤ b) (d : Nat) :
    roundHalfUp a d ≤ roundHalfUp b d :=
  Nat.div_le_div_right (by omega)

theorem roundHalfUp_mul (k : Nat) {d : Nat} (hd : 0 < d) : roundHalfUp (k * d) d = k := by
  unfold roundHalfUp
  refine Nat.div_eq_of_lt_le ?_ ?_
  · linarith
  · rw [Nat.succ_mul]
    linarith

/-! ## Rounding to a magnitude -/

/-- Number of binary places of a ratio in front of its 53 significant ones. -/
def places (a d : Nat) : Nat :=
  (a / d).log2 - fractionPlaces

/-- The magnitude nearest to a ratio, without the limit at infinity. -/
def roundUnits (a d : Nat) : Nat :=
  roundHalfEven a (d <<< places a d) + (places a d <<< fractionPlaces)

theorem roundRatio_eq_min (num den : Nat) :
    roundRatio num den = min (roundUnits (num * unitsPerOne) den) infiniteMagnitude := rfl

theorem div_lt_two_pow_places (a d : Nat) : a / d < 2 ^ (53 + places a d) := by
  have hlt : a / d < 2 ^ ((a / d).log2 + 1) := Nat.lt_log2_self
  refine Nat.lt_of_lt_of_le hlt (Nat.pow_le_pow_right (by decide) ?_)
  unfold places fractionPlaces
  omega

theorem two_pow_places_le_div {a d : Nat} (h : 0 < places a d) :
    2 ^ (52 + places a d) ≤ a / d := by
  have hlog : 52 + places a d = (a / d).log2 := by
    unfold places fractionPlaces at *
    omega
  rw [hlog]
  refine Nat.log2_self_le fun hzero => ?_
  rw [places, hzero] at h
  exact absurd h (by decide)

theorem places_mono {a b d : Nat} (h : a ≤ b) : places a d ≤ places b d := by
  by_contra hlt
  rw [Nat.not_le] at hlt
  -- more places for the smaller ratio would put its quotient above the other one
  have ha := two_pow_places_le_div (Nat.lt_of_le_of_lt (Nat.zero_le _) hlt)
  have hb := div_lt_two_pow_places b d
  have hdiv : a / d ≤ b / d := Nat.div_le_div_right h
  have hpow : 2 ^ (52 + places a d) < 2 ^ (53 + places b d) := by omega
  have := (Nat.pow_lt_pow_iff_right (by decide)).mp hpow
  omega

/-- The quotient by the shifted denominator has at most 53 significant places. -/
theorem div_shiftLeft_places (a d : Nat) : a / (d <<< places a d) < 2 ^ 53 := by
  rw [Nat.shiftLeft_eq, ← Nat.div_div_eq_div_mul, Nat.div_lt_iff_lt_mul (Nat.two_pow_pos _),
    ← Nat.pow_add]
  exact div_lt_two_pow_places a d

theorem le_div_shiftLeft_places {a d : Nat} (h : 0 < places a d) :
    2 ^ 52 ≤ a / (d <<< places a d) := by
  rw [Nat.shiftLeft_eq, ← Nat.div_div_eq_div_mul, Nat.le_div_iff_mul_le (Nat.two_pow_pos _),
    ← Nat.pow_add]
  exact two_pow_places_le_div h

theorem roundUnits_mono {a b : Nat} (h : a ≤ b) (d : Nat) : roundUnits a d ≤ roundUnits b d := by
  unfold roundUnits
  rcases Nat.lt_or_eq_of_le (places_mono (d := d) h) with hlt | heq
  · -- the smaller ratio rounds at most to the bottom of the next binade
    have ha : roundHalfEven a (d <<< places a d) ≤ 2 ^ 53 :=
      Nat.le_trans (roundHalfEven_bounds _ _).2 (div_shiftLeft_places a d)
    have hb : 2 ^ 52 ≤ roundHalfEven b (d <<< places b d) :=
      Nat.le_trans (le_div_shiftLeft_places (by omega)) (roundHalfEven_bounds _ _).1
    simp only [Nat.shiftLeft_eq (places _ _), fractionPlaces]
    omega
  · rw [heq]
    exact Nat.add_le_add_right (roundHalfEven_mono h _) _

/-- **Rounding is monotone** in the numerator. -/
theorem roundRatio_mono {a b : Nat} (h : a ≤ b) (d : Nat) : roundRatio a d ≤ roundRatio b d := by
  rw [roundRatio_eq_min, roundRatio_eq_min]
  exact min_le_min_right _ (roundUnits_mono (Nat.mul_le_mul_right _ h) d)

theorem roundRatio_le (a d : Nat) : roundRatio a d ≤ infiniteMagnitude := by
  rw [roundRatio_eq_min]
  exact Nat.min_le_right _ _

/-- A common factor makes no difference. -/
theorem roundRatio_mul_right (a d : Nat) {c : Nat} (hc : 0 < c) :
    roundRatio (a * c) (d * c) = roundRatio a d := by
  have hscale : a * c * unitsPerOne = a * unitsPerOne * c := Nat.mul_right_comm a c _
  have hplaces : places (a * unitsPerOne * c) (d * c) = places (a * unitsPerOne) d := by
    rw [places, places, Nat.mul_div_mul_right _ _ hc]
  have hshift (k : Nat) : (d * c) <<< k = (d <<< k) * c := by
    rw [Nat.shiftLeft_eq, Nat.shiftLeft_eq, Nat.mul_right_comm]
  rw [roundRatio_eq_min, roundRatio_eq_min, hscale, roundUnits, roundUnits, hplaces, hshift,
    roundHalfEven_mul_right _ _ hc]

@[simp] theorem roundRatio_zero {d : Nat} (hd : 0 < d) : roundRatio 0 d = 0 := by
  have hplaces : places 0 d = 0 := by
    rw [places, Nat.zero_div]
    decide
  have hround : roundHalfEven 0 d = 0 := by
    have := roundHalfEven_mul 0 hd
    rwa [Nat.zero_mul] at this
  rw [roundRatio_eq_min, Nat.zero_mul, roundUnits, hplaces, Nat.shiftLeft_zero, hround]
  decide

/-! ## The value of a magnitude -/

theorem unitsOf_eq (m : Nat) :
    unitsOf m = (m - (m / 2 ^ 52 - 1) * 2 ^ 52) * 2 ^ (m / 2 ^ 52 - 1) := by
  simp only [unitsOf, significand, shift, fractionPlaces, Nat.shiftLeft_eq,
    Nat.shiftRight_eq_div_pow]

/-- A magnitude is below the bottom of the next binade. -/
theorem unitsOf_le (m : Nat) : unitsOf m ≤ 2 ^ 52 * 2 ^ (m / 2 ^ 52) := by
  rw [unitsOf_eq]
  cases hq : m / 2 ^ 52 with
  | zero =>
    simp only [Nat.zero_sub, Nat.zero_mul, Nat.pow_zero, Nat.mul_one, Nat.sub_zero]
    exact Nat.le_of_lt (Nat.lt_of_div_eq_zero (Nat.two_pow_pos 52) hq)
  | succ e =>
    have hsig : m - e * 2 ^ 52 ≤ 2 ^ 52 * 2 := by omega
    simp only [Nat.add_sub_cancel]
    rw [pow_succ' 2 e, ← Nat.mul_assoc]
    exact Nat.mul_le_mul_right _ hsig

/-- Beyond the first binade a magnitude is at least the bottom of its own. -/
theorem le_unitsOf {m : Nat} (h : 0 < m / 2 ^ 52) :
    2 ^ 52 * 2 ^ (m / 2 ^ 52 - 1) ≤ unitsOf m := by
  rw [unitsOf_eq]
  refine Nat.mul_le_mul_right _ ?_
  omega

/-- **The value grows with the magnitude.** -/
theorem unitsOf_mono {m n : Nat} (h : m ≤ n) : unitsOf m ≤ unitsOf n := by
  rcases Nat.lt_or_eq_of_le (Nat.div_le_div_right (c := 2 ^ 52) h) with hlt | heq
  · -- the bottom of a later binade lies between the two
    calc unitsOf m ≤ 2 ^ 52 * 2 ^ (m / 2 ^ 52) := unitsOf_le m
      _ ≤ 2 ^ 52 * 2 ^ (n / 2 ^ 52 - 1) :=
        Nat.mul_le_mul_left _ (Nat.pow_le_pow_right (by decide) (by omega))
      _ ≤ unitsOf n := le_unitsOf (by omega)
  · rw [unitsOf_eq, unitsOf_eq, heq]
    exact Nat.mul_le_mul_right _ (by omega)

/-- A significand with its leading one, at any number of places. -/
theorem unitsOf_add {s p : Nat} (hlow : 2 ^ 52 ≤ s) (hhigh : s < 2 ^ 53) :
    unitsOf (s + p * 2 ^ 52) = s * 2 ^ p := by
  have hdiv : (s + p * 2 ^ 52) / 2 ^ 52 = p + 1 := by omega
  rw [unitsOf_eq, hdiv, Nat.add_sub_cancel, Nat.add_sub_cancel]

/-! ## Doubles from magnitudes -/

theorem magnitude_ofMagnitude {m : Nat} (h : m ≤ infiniteMagnitude) :
    (ofMagnitude false m).magnitude = m := by
  simp only [infiniteMagnitude] at h
  simp only [ofMagnitude, magnitude, signBit, Bool.false_eq_true, if_false, UInt64.toNat_ofNat']
  omega

theorem isNegative_ofMagnitude {m : Nat} (h : m ≤ infiniteMagnitude) :
    (ofMagnitude false m).isNegative = false := by
  simp only [infiniteMagnitude] at h
  simp only [ofMagnitude, isNegative, signBit, Bool.false_eq_true, if_false,
    UInt64.toNat_ofNat', decide_eq_false_iff_not]
  omega

theorem isNaN_ofMagnitude {m : Nat} (h : m ≤ infiniteMagnitude) :
    (ofMagnitude false m).isNaN = false := by
  rw [isNaN, magnitude_ofMagnitude h, decide_eq_false_iff_not]
  omega

@[simp] theorem isNegative_ofNat (n : Nat) : (ofNat n).isNegative = false :=
  isNegative_ofMagnitude (roundRatio_le n 1)

@[simp] theorem isNaN_ofNat (n : Nat) : (ofNat n).isNaN = false :=
  isNaN_ofMagnitude (roundRatio_le n 1)

@[simp] theorem magnitude_ofNat (n : Nat) : (ofNat n).magnitude = roundRatio n 1 :=
  magnitude_ofMagnitude (roundRatio_le n 1)

theorem isInfinite_of_not_isFinite {x : Double} (hnan : x.isNaN = false)
    (hfin : x.isFinite = false) : x.isInfinite = true := by
  simp only [isNaN, isFinite, isInfinite, decide_eq_false_iff_not, beq_iff_eq] at *
  omega

theorem isInfinite_of_isFinite {x : Double} (h : x.isFinite = true) : x.isInfinite = false := by
  simp only [isFinite, isInfinite, decide_eq_true_eq, beq_eq_false_iff_ne] at *
  omega

/-! ## Whole numbers -/

/-- Number of binary places of a unit behind the point. -/
def unitPlaces : Nat := 1074

theorem unitsPerOne_eq : unitsPerOne = 2 ^ unitPlaces :=
  Nat.one_shiftLeft unitPlaces

theorem unitsPerOne_pos : 0 < unitsPerOne := by
  rw [unitsPerOne_eq]
  exact Nat.two_pow_pos unitPlaces

/-- A number of units with 53 significant places is its own rounding. -/
theorem roundUnits_mul_two_pow {s : Nat} (hlow : 2 ^ 52 ≤ s) (hhigh : s < 2 ^ 53) (p : Nat) :
    roundUnits (s * 2 ^ p) 1 = s + p * 2 ^ 52 := by
  have hplaces : places (s * 2 ^ p) 1 = p := by
    have hge : 2 ^ (52 + p) ≤ s * 2 ^ p := by
      rw [Nat.pow_add]
      exact Nat.mul_le_mul_right _ hlow
    have hlt : s * 2 ^ p < 2 ^ (53 + p) := by
      rw [Nat.pow_add]
      exact Nat.mul_lt_mul_of_pos_right hhigh (Nat.two_pow_pos p)
    refine Nat.le_antisymm (Nat.le_of_not_lt fun hp => ?_) ?_
    · have hle := two_pow_places_le_div (Nat.lt_of_le_of_lt (Nat.zero_le p) hp)
      rw [Nat.div_one] at hle
      have := (Nat.pow_lt_pow_iff_right (by decide)).mp (Nat.lt_of_le_of_lt hle hlt)
      omega
    · have hdiv := div_lt_two_pow_places (s * 2 ^ p) 1
      rw [Nat.div_one] at hdiv
      have := (Nat.pow_lt_pow_iff_right (by decide)).mp (Nat.lt_of_le_of_lt hge hdiv)
      omega
  rw [roundUnits, hplaces, Nat.one_shiftLeft, roundHalfEven_mul s (Nat.two_pow_pos p),
    Nat.shiftLeft_eq, fractionPlaces]

/-- A positive whole number up to `2⁵³` has 53 significant places. -/
theorem exists_significand {n : Nat} (hpos : 0 < n) (hn : n ≤ 2 ^ 53) :
    ∃ s p, 2 ^ 52 ≤ s ∧ s < 2 ^ 53 ∧ p ≤ 1075 ∧ n * unitsPerOne = s * 2 ^ p := by
  rw [unitsPerOne_eq]
  rcases Nat.lt_or_eq_of_le hn with hlt | rfl
  · -- shift the leading one of the number to the 53rd place
    have hlog : n.log2 ≤ 52 := by
      have := (Nat.log2_lt (Nat.pos_iff_ne_zero.mp hpos)).mpr hlt
      omega
    have hle : 2 ^ n.log2 ≤ n := Nat.log2_self_le (Nat.pos_iff_ne_zero.mp hpos)
    have hlt' : n < 2 ^ (n.log2 + 1) := Nat.lt_log2_self
    have hplaces : unitPlaces = 52 + 1022 := rfl
    refine ⟨n * 2 ^ (52 - n.log2), n.log2 + 1022, ?_, ?_, by omega, ?_⟩
    · calc 2 ^ 52 = 2 ^ n.log2 * 2 ^ (52 - n.log2) := by
            rw [← Nat.pow_add, Nat.add_sub_cancel' hlog]
        _ ≤ n * 2 ^ (52 - n.log2) := Nat.mul_le_mul_right _ hle
    · calc n * 2 ^ (52 - n.log2) < 2 ^ (n.log2 + 1) * 2 ^ (52 - n.log2) :=
            Nat.mul_lt_mul_of_pos_right hlt' (Nat.two_pow_pos _)
        _ = 2 ^ 53 := by
            rw [← Nat.pow_add]
            congr 1
            omega
    · have hexp : 52 - n.log2 + (n.log2 + 1022) = unitPlaces := by omega
      rw [Nat.mul_assoc, ← Nat.pow_add, hexp]
  · refine ⟨2 ^ 52, unitPlaces + 1, Nat.le_refl _, by decide, Nat.le_refl _, ?_⟩
    have hexp : 53 + unitPlaces = 52 + (unitPlaces + 1) := by omega
    rw [← Nat.pow_add, ← Nat.pow_add, hexp]

theorem roundRatio_one_eq {n s p : Nat} (hlow : 2 ^ 52 ≤ s) (hhigh : s < 2 ^ 53)
    (hp : p ≤ 1075) (h : n * unitsPerOne = s * 2 ^ p) : roundRatio n 1 = s + p * 2 ^ 52 := by
  rw [roundRatio_eq_min, h, roundUnits_mul_two_pow hlow hhigh]
  refine Nat.min_eq_left ?_
  rw [infiniteMagnitude]
  omega

/-- **Whole numbers up to `2⁵³` are exact.** -/
theorem units_ofNat {n : Nat} (hn : n ≤ 2 ^ 53) : (ofNat n).units = n * unitsPerOne := by
  rw [units, magnitude_ofNat]
  rcases Nat.eq_zero_or_pos n with rfl | hpos
  · rw [roundRatio_zero Nat.one_pos, Nat.zero_mul]
    decide
  · obtain ⟨s, p, hlow, hhigh, hp, h⟩ := exists_significand hpos hn
    rw [roundRatio_one_eq hlow hhigh hp h, unitsOf_add hlow hhigh, h]

theorem isFinite_ofNat {n : Nat} (hn : n ≤ 2 ^ 53) : (ofNat n).isFinite = true := by
  rw [isFinite, magnitude_ofNat, decide_eq_true_eq]
  rcases Nat.eq_zero_or_pos n with rfl | hpos
  · rw [roundRatio_zero Nat.one_pos]
    decide
  · obtain ⟨s, p, hlow, hhigh, hp, h⟩ := exists_significand hpos hn
    rw [roundRatio_one_eq hlow hhigh hp h, infiniteMagnitude]
    omega

theorem units_one : one.units = unitsPerOne := by
  have hmag : one.magnitude = 2 ^ 52 + (unitPlaces - 52) * 2 ^ 52 := by decide
  rw [units, hmag, unitsOf_add (Nat.le_refl _) (by decide), unitsPerOne_eq, ← Nat.pow_add,
    Nat.add_sub_cancel' (by decide)]

theorem units_mono {x y : Double} (h : x.magnitude ≤ y.magnitude) : x.units ≤ y.units :=
  unitsOf_mono h

/-! ## Products and whole parts -/

/-- The product of finite numbers without a sign is the rounded exact one. -/
theorem mul_of_isFinite {x y : Double} (hx : x.isFinite = true) (hy : y.isFinite = true)
    (hxneg : x.isNegative = false) (hyneg : y.isNegative = false) :
    x.mul y = ofMagnitude false
      (roundRatio (x.units * y.units) (unitsPerOne * unitsPerOne)) := by
  simp [mul, isNaN_of_isFinite hx, isNaN_of_isFinite hy, isInfinite_of_isFinite hx,
    isInfinite_of_isFinite hy, hxneg, hyneg]

/-- The number nearest to a magnitude, held below a limit. -/
theorem nearestNat_ofMagnitude {m : Nat} (h : m ≤ infiniteMagnitude) (cap : Nat) :
    (ofMagnitude false m).nearestNat cap
      = if m = infiniteMagnitude then cap
        else min (roundHalfUp (unitsOf m) unitsPerOne) cap := by
  simp [nearestNat, isNaN_ofMagnitude h, isNegative_ofMagnitude h, isInfinite, units,
    magnitude_ofMagnitude h]

theorem nearestNat_mono {m n : Nat} (hmn : m ≤ n) (hn : n ≤ infiniteMagnitude) (cap : Nat) :
    (ofMagnitude false m).nearestNat cap ≤ (ofMagnitude false n).nearestNat cap := by
  rw [nearestNat_ofMagnitude (Nat.le_trans hmn hn), nearestNat_ofMagnitude hn]
  split_ifs with hm hn' hn'
  · exact Nat.le_refl _
  · omega
  · exact Nat.min_le_right _ _
  · exact min_le_min_right _ (roundHalfUp_mono (unitsOf_mono hmn) _)

end Double

end CorpusMark
