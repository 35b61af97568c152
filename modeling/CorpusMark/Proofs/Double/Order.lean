import CorpusMark.Double.Basic

/-!
# Order of doubles

Comparisons of doubles are comparisons of their keys. For a number that is not
negative the key is its magnitude, and the total order of all doubles is the
order of the magnitudes.
-/

namespace CorpusMark

namespace Double

theorem lt_iff {x y : Double} :
    x.lt y = true ↔ x.isNaN = false ∧ y.isNaN = false ∧ x.key < y.key := by
  simp [lt, and_assoc]

theorem le_iff {x y : Double} :
    x.le y = true ↔ x.isNaN = false ∧ y.isNaN = false ∧ x.key ≤ y.key := by
  simp [le, and_assoc]

theorem lt_trans {x y z : Double} (hxy : x.lt y = true) (hyz : y.lt z = true) :
    x.lt z = true := by
  rw [lt_iff] at *
  exact ⟨hxy.1, hyz.2.1, Int.lt_trans hxy.2.2 hyz.2.2⟩

theorem sameNumber_iff {x y : Double} :
    x.sameNumber y = true ↔ x.isNaN = false ∧ y.isNaN = false ∧ x.key = y.key := by
  simp [sameNumber, and_assoc]

theorem isNaN_of_isFinite {x : Double} (h : x.isFinite = true) : x.isNaN = false := by
  simp only [isFinite, isNaN, decide_eq_true_eq, decide_eq_false_iff_not] at *
  omega

@[simp] theorem isNaN_zero : zero.isNaN = false := by decide

@[simp] theorem key_zero : zero.key = 0 := by decide

/-- A number with a positive key carries no sign. -/
theorem isNegative_of_key_pos {x : Double} (h : 0 < x.key) : x.isNegative = false := by
  cases hneg : x.isNegative with
  | false => rfl
  | true =>
    rw [key, if_pos hneg] at h
    omega

theorem key_of_not_isNegative {x : Double} (h : x.isNegative = false) :
    x.key = x.magnitude := by
  rw [key, if_neg (by rw [h]; exact Bool.false_ne_true)]

/-- Two positive numbers that are equal are the same double. -/
theorem eq_of_key_eq {x y : Double} (hpos : 0 < x.key) (h : x.key = y.key) : x = y := by
  have hx := isNegative_of_key_pos hpos
  have hy := isNegative_of_key_pos (h ▸ hpos)
  rw [key_of_not_isNegative hx, key_of_not_isNegative hy] at h
  obtain ⟨⟨xbits⟩⟩ := x
  obtain ⟨⟨ybits⟩⟩ := y
  simp only [magnitude, isNegative, decide_eq_false_iff_not, Nat.not_le] at h hx hy
  rw [Nat.mod_eq_of_lt hx, Nat.mod_eq_of_lt hy] at h
  have hbits : xbits = ybits := BitVec.eq_of_toNat_eq (Int.ofNat.inj h)
  rw [hbits]

theorem totalKey_of_not_isNegative {x : Double} (h : x.isNegative = false) :
    x.totalKey = x.magnitude := by
  rw [totalKey, if_neg (by rw [h]; exact Bool.false_ne_true)]

/-! ## The total order -/

theorem totalLe_iff {x y : Double} : x.totalLe y = true ↔ x.totalKey ≤ y.totalKey := by
  simp [totalLe]

theorem totalLe_trans (x y z : Double) (hxy : x.totalLe y = true) (hyz : y.totalLe z = true) :
    x.totalLe z = true := by
  rw [totalLe_iff] at *
  omega

theorem totalLe_total (x y : Double) : (x.totalLe y || y.totalLe x) = true := by
  rw [Bool.or_eq_true, totalLe_iff, totalLe_iff]
  omega

end Double

end CorpusMark
