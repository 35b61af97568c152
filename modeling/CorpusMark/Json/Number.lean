import CorpusMark.Numeral

/-!
# Numbers in JSON texts

The values that written numbers are read as: a natural number of at most 64 bits, or a double. A
double is read from the leading digits that fit a 64-bit word, scaled by one power of ten and
rounded after each of the two steps, so its last place can differ from that of the nearest double.
A number past the range of doubles is an error, one too small is zero.
-/

namespace CorpusMark.Numeral

/-- The natural number of at most 64 bits that is written. -/
def toNat? (n : Numeral) : Option Nat :=
  if n.isInteger && !n.negative && natOfDigits n.whole ≤ maxWord then some (natOfDigits n.whole)
  else none

/-! ## Reading doubles -/

/-- Appends digits to a number as long as it fits a word; gives the number of digits left out. -/
def takeDigits : Nat → List Char → Nat × Nat
  | word, [] => (word, 0)
  | word, c :: cs =>
    let next := 10 * word + (digit? c).getD 0
    if next ≤ maxWord then takeDigits next cs else (word, cs.length + 1)

/-- A power of ten, or infinity. -/
def powerOfTen (n : Nat) : Double :=
  Double.ofDecimal false 1 n

/-- Greatest power of ten that a double holds. -/
def maxPower : Nat := 308

/-- Divides by a power of ten, in steps that doubles can hold. -/
def scaleDown (x : Double) (n : Nat) : Double :=
  if n ≤ maxPower then x.div (powerOfTen n)
  else if x.magnitude = 0 then x
  else scaleDown (x.div (powerOfTen maxPower)) (n - maxPower)
termination_by n
decreasing_by simp [maxPower] at *; omega

/-- The number `word · 10 ^ exponent`; none past the range of doubles. -/
def scale? (word : Nat) (exponent : Int) : Option Double :=
  let x := Double.ofNat word
  if exponent < 0 then some (scaleDown x (-exponent).toNat)
  else if exponent.toNat ≤ maxPower then
    let y := x.mul (powerOfTen exponent.toNat)
    if y.isInfinite then none else some y
  else if x.magnitude = 0 then some x
  else none

/-- The double that is read; none past the range of doubles. -/
def toDouble? (n : Numeral) : Option Double :=
  let (word, skipped) := takeDigits 0 n.whole
  let (word, left) := takeDigits word n.fraction
  let exponent := n.writtenExponent + skipped - (n.fraction.length - left : Nat)
  (scale? word exponent).map fun x => if n.negative then x.negate else x

end CorpusMark.Numeral
