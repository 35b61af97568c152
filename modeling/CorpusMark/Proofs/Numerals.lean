import CorpusMark.Json.Fields
import CorpusMark.Json.Reader
import CorpusMark.Proofs.Double.Rounding
import CorpusMark.Proofs.NumberForms
import Mathlib

/-!
# Digits of numbers

Main statements:

- `parse?_toDigits` and `natOfDigits_toDigits`: the digits of a natural number are
  read as this number;
- `isNumberInRange_toDigits`: every number of 64 bits is in the range of doubles.
-/

namespace CorpusMark

/-! ## Digits -/

theorem digit?_digitChar {d : Nat} (h : d < 10) : digit? (Nat.digitChar d) = some d := by
  have hall : ∀ d, d < 10 → digit? (Nat.digitChar d) = some d := by decide
  exact hall d h

theorem isDigit_of_mem_toDigits {c : Char} {n : Nat} (h : c ∈ Nat.toDigits 10 n) :
    isDigit c = true :=
  isDigit_iff.mpr (Nat.isDigit_of_mem_toDigits (by decide) (Nat.le_refl _) h)

theorem natOfDigits_append (front : List Char) (c : Char) :
    natOfDigits (front ++ [c]) = 10 * natOfDigits front + (digit? c).getD 0 := by
  simp [natOfDigits]

/-- The digits of a number are read as this number. -/
theorem natOfDigits_toDigits (n : Nat) : natOfDigits (Nat.toDigits 10 n) = n := by
  induction n using Nat.strongRecOn with
  | ind n ih =>
    rcases Nat.lt_or_ge n 10 with hlt | hge
    · rw [Nat.toDigits_of_lt_base hlt, natOfDigits, List.foldl_cons, List.foldl_nil,
        digit?_digitChar hlt]
      simp
    · have hlast : n % 10 < 10 := Nat.mod_lt n (by decide)
      rw [Nat.toDigits_of_base_le (by decide) hge, natOfDigits_append, digit?_digitChar hlast,
        ih (n / 10) (by omega), Option.getD_some, Nat.div_add_mod]

/-- Only zero has a leading zero. -/
theorem head?_toDigits {n : Nat} (h : 0 < n) : (Nat.toDigits 10 n).head? ≠ some '0' := by
  induction n using Nat.strongRecOn with
  | ind n ih =>
    rcases Nat.lt_or_ge n 10 with hlt | hge
    · have hall : ∀ d, d < 10 → 0 < d → Nat.digitChar d ≠ '0' := by decide
      rw [Nat.toDigits_of_lt_base hlt, List.head?_cons]
      exact fun heq => hall n hlt h (Option.some.inj heq)
    · rw [Nat.toDigits_of_base_le (by decide) hge,
        List.head?_append_of_ne_nil _ Nat.toDigits_ne_nil]
      exact ih (n / 10) (by omega) (by omega)

namespace Numeral

/-! ## Natural numbers -/

/-- The digits of a number can stand before a point. -/
theorem wholeForm_toDigits (n : Nat) : WholeForm (Nat.toDigits 10 n) := by
  rcases Nat.eq_zero_or_pos n with rfl | hpos
  · exact .zero
  · have hhead := head?_toDigits hpos
    have hdigits : ∀ c ∈ Nat.toDigits 10 n, c.isDigit = true :=
      fun c hc => isDigit_iff.mp (isDigit_of_mem_toDigits hc)
    cases hcons : Nat.toDigits 10 n with
    | nil => exact absurd hcons Nat.toDigits_ne_nil
    | cons c ds =>
      rw [hcons] at hhead hdigits
      exact .digits (fun hzero => hhead (congrArg some hzero)) hdigits

/-- The digits of a natural number are read as a number of nothing but digits. -/
theorem parse?_toDigits (n : Nat) :
    parse? (Nat.toDigits 10 n) = some ⟨false, Nat.toDigits 10 n, [], none⟩ :=
  parse?_eq_some_iff.mpr (.positive rfl
    ⟨wholeForm_toDigits n, [], [], .absent, .absent, by simp⟩)

theorem toNat?_toDigits {n : Nat} (h : n ≤ maxWord) :
    toNat? ⟨false, Nat.toDigits 10 n, [], none⟩ = some n := by
  simp [toNat?, isInteger, natOfDigits_toDigits, h]

/-! ## The range of doubles -/

theorem le_foldl_digits (word : Nat) (cs : List Char) :
    word ≤ cs.foldl (fun n c => 10 * n + (digit? c).getD 0) word := by
  induction cs generalizing word with
  | nil => exact Nat.le_refl word
  | cons c cs ih =>
    have hnext := ih (10 * word + (digit? c).getD 0)
    rw [List.foldl_cons]
    omega

/-- No digit is left out of a number of 64 bits. -/
theorem takeDigits_eq {word : Nat} {cs : List Char}
    (h : cs.foldl (fun n c => 10 * n + (digit? c).getD 0) word ≤ maxWord) :
    takeDigits word cs = (cs.foldl (fun n c => 10 * n + (digit? c).getD 0) word, 0) := by
  induction cs generalizing word with
  | nil => rfl
  | cons c cs ih =>
    rw [List.foldl_cons] at h ⊢
    have hnext := Nat.le_trans (le_foldl_digits _ cs) h
    rw [takeDigits, if_pos hnext, ih h]

/-- The double of a number of 64 bits, multiplied by one, is finite. -/
theorem scale?_zero {n : Nat} (h : n ≤ maxWord) : (scale? n 0).isSome = true := by
  have hone : powerOfTen 0 = Double.one := by decide +kernel
  have hfinite : ∀ k ≤ maxWord, (Double.ofNat k).isFinite = true := by
    intro k hk
    have hmax : (Double.ofNat maxWord).isFinite = true := by decide +kernel
    have hle := Double.roundRatio_mono hk 1
    rw [Double.isFinite, Double.magnitude_ofNat, decide_eq_true_eq] at hmax ⊢
    exact Nat.lt_of_le_of_lt hle hmax
  have hproduct : ∀ k ≤ maxWord, ((Double.ofNat k).mul Double.one).magnitude
      = Double.roundRatio ((Double.ofNat k).units * Double.one.units)
          (Double.unitsPerOne * Double.unitsPerOne) := by
    intro k hk
    rw [Double.mul_of_isFinite (hfinite k hk) (by decide) (Double.isNegative_ofNat k) (by decide),
      Double.magnitude_ofMagnitude (Double.roundRatio_le _ _)]
  -- products are rounded monotonically, so the greatest number bounds all
  have hlt : ((Double.ofNat n).mul Double.one).magnitude < Double.infiniteMagnitude := by
    have hmax : ((Double.ofNat maxWord).mul Double.one).magnitude < Double.infiniteMagnitude := by
      decide +kernel
    refine Nat.lt_of_le_of_lt ?_ hmax
    rw [hproduct n h, hproduct maxWord (Nat.le_refl _)]
    refine Double.roundRatio_mono (Nat.mul_le_mul_right _ (Double.units_mono ?_)) _
    rw [Double.magnitude_ofNat, Double.magnitude_ofNat]
    exact Double.roundRatio_mono h 1
  simp [scale?, hone, Double.isInfinite, Nat.ne_of_lt hlt]

theorem toDouble?_toDigits {n : Nat} (h : n ≤ maxWord) :
    (toDouble? ⟨false, Nat.toDigits 10 n, [], none⟩).isSome = true := by
  have hword : takeDigits 0 (Nat.toDigits 10 n) = (n, 0) := by
    have hvalue := natOfDigits_toDigits n
    rw [natOfDigits] at hvalue
    rw [takeDigits_eq (by rw [hvalue]; exact h), hvalue]
  simp only [toDouble?, hword]
  rw [Option.isSome_map]
  exact scale?_zero h

end Numeral

/-! ## Numbers in JSON texts -/

namespace Json

theorem isNumberInRange_toDigits {n : Nat} (h : n ≤ maxWord) :
    isNumberInRange (Nat.toDigits 10 n) = true := by
  rw [isNumberInRange, Numeral.parse?_toDigits]
  exact Numeral.toDouble?_toDigits h

/-- A natural number of 64 bits is read back. -/
theorem Value.nat?_ofNat {n : Nat} (h : n ≤ maxWord) : (Value.ofNat n).nat? = some n := by
  rw [ofNat, nat?, Numeral.parse?_toDigits]
  exact Numeral.toNat?_toDigits h

end Json

end CorpusMark
