/-!
# Doubles

IEEE 754 binary64 numbers, as their 64 bits, with exact integer arithmetic behind every
operation. Below the sign bit, the bits of a finite number are its *magnitude*; the magnitudes
`0, 1, 2, …` are the non-negative doubles in ascending order. Every finite double is a whole
multiple of `2⁻¹⁰⁷⁴`, and `units` says which, so an operation is: compute the exact ratio of two
natural numbers, then let `roundRatio` find the nearest magnitude.
-/

namespace CorpusMark

/-- A binary64 floating-point number, given by its bits. -/
structure Double where
  bits : UInt64
deriving DecidableEq, Inhabited

namespace Double

/-- The bits of `-0`: the sign and nothing else. -/
def signBit : Nat := 0x8000000000000000

/-- Bits of a number with the given sign and magnitude. -/
def ofMagnitude (negative : Bool) (magnitude : Nat) : Double :=
  ⟨UInt64.ofNat (if negative then signBit + magnitude else magnitude)⟩

/-- Magnitude of the infinities; a greater one is not a number. -/
def infiniteMagnitude : Nat := 0x7ff0000000000000

/-- The sign bit. -/
def isNegative (x : Double) : Bool :=
  signBit ≤ x.bits.toNat

/-- The bits below the sign. -/
def magnitude (x : Double) : Nat :=
  x.bits.toNat % signBit

def isNaN (x : Double) : Bool :=
  infiniteMagnitude < x.magnitude

def isFinite (x : Double) : Bool :=
  x.magnitude < infiniteMagnitude

def isInfinite (x : Double) : Bool :=
  x.magnitude == infiniteMagnitude

def zero : Double := ofMagnitude false 0

def one : Double := ofMagnitude false 0x3ff0000000000000

def nan : Double := ofMagnitude false 0x7ff8000000000000

def infinity (negative : Bool) : Double := ofMagnitude negative infiniteMagnitude

/-- The same number with the other sign. -/
def negate (x : Double) : Double :=
  ofMagnitude (!x.isNegative) x.magnitude

/-! ## Order

Numbers are compared by an integer key: equal numbers have equal keys, both zeros have key 0, and
nothing compares with a NaN. The total order tells the zeros and the NaNs apart as well. -/

/-- Position on the number line, both zeros at 0. -/
def key (x : Double) : Int :=
  if x.isNegative then -(x.magnitude : Int) else x.magnitude

/-- Equality of numbers: a NaN equals nothing and the two zeros are equal. -/
def sameNumber (x y : Double) : Bool :=
  !x.isNaN && !y.isNaN && x.key == y.key

def lt (x y : Double) : Bool :=
  !x.isNaN && !y.isNaN && decide (x.key < y.key)

def le (x y : Double) : Bool :=
  !x.isNaN && !y.isNaN && decide (x.key ≤ y.key)

/-- Position in the total order of all doubles: `-NaN`, `-∞`, …, `-0`, `0`, …, `∞`, `NaN`. -/
def totalKey (x : Double) : Int :=
  if x.isNegative then -(x.magnitude : Int) - 1 else x.magnitude

def totalLe (x y : Double) : Bool :=
  decide (x.totalKey ≤ y.totalKey)

/-! ## Values -/

/-- Number of binary places behind the leading one of a significand. -/
def fractionPlaces : Nat := 52

/-- Number of binary places by which the significand of a magnitude is shifted. -/
def shift (magnitude : Nat) : Nat :=
  (magnitude >>> fractionPlaces) - 1

/-- The significand, with its leading one. -/
def significand (magnitude : Nat) : Nat :=
  magnitude - (shift magnitude <<< fractionPlaces)

/-- Value of a magnitude in multiples of `2⁻¹⁰⁷⁴`. -/
def unitsOf (magnitude : Nat) : Nat :=
  significand magnitude <<< shift magnitude

/-- Number of units in one. -/
def unitsPerOne : Nat := 1 <<< 1074

/-- Absolute value in multiples of `2⁻¹⁰⁷⁴`. -/
def units (x : Double) : Nat :=
  unitsOf x.magnitude

/-- The quotient `a / b` rounded to the nearest whole number, a half to the even one. -/
def roundHalfEven (a b : Nat) : Nat :=
  let q := a / b
  let r := a % b
  if 2 * r < b then q else if b < 2 * r then q + 1 else q + q % 2

/-- The quotient `a / b` rounded to the nearest whole number, a half upwards. -/
def roundHalfUp (a b : Nat) : Nat :=
  (2 * a + b) / (2 * b)

/-- Magnitude of the double nearest to `num / den`, of two equally near ones the even one; a ratio
past the greatest finite double gives infinity. -/
def roundRatio (num den : Nat) : Nat :=
  let scaled := num * unitsPerOne
  let places := (scaled / den).log2 - fractionPlaces
  min (roundHalfEven scaled (den <<< places) + (places <<< fractionPlaces)) infiniteMagnitude

/-- A power of ten. -/
def tenTo (n : Nat) : Nat := Nat.pow 10 n

/-- The double nearest to a natural number. -/
def ofNat (n : Nat) : Double :=
  ofMagnitude false (roundRatio n 1)

/-- Product, rounded once. -/
def mul (x y : Double) : Double :=
  let negative := x.isNegative != y.isNegative
  if x.isNaN || y.isNaN then nan
  else if x.isInfinite || y.isInfinite then
    if x.magnitude == 0 || y.magnitude == 0 then nan else infinity negative
  else ofMagnitude negative (roundRatio (x.units * y.units) (unitsPerOne * unitsPerOne))

/-- Quotient, rounded once. -/
def div (x y : Double) : Double :=
  let negative := x.isNegative != y.isNegative
  if x.isNaN || y.isNaN then nan
  else if x.isInfinite then if y.isInfinite then nan else infinity negative
  else if y.isInfinite then ofMagnitude negative 0
  else if y.magnitude == 0 then if x.magnitude == 0 then nan else infinity negative
  else ofMagnitude negative (roundRatio x.units y.units)

/-! ## Conversion to natural numbers

A NaN and every number below zero give 0, and a number above `cap` gives `cap`. -/

/-- The whole number nearest to `x`, a half going up, held between 0 and `cap`. -/
def nearestNat (x : Double) (cap : Nat) : Nat :=
  if x.isNaN || x.isNegative then 0
  else if x.isInfinite then cap
  else min (roundHalfUp x.units unitsPerOne) cap

/-- `x` without its fraction, held between 0 and `cap`. -/
def floorNat (x : Double) (cap : Nat) : Nat :=
  if x.isNaN || x.isNegative then 0
  else if x.isInfinite then cap
  else min (x.units / unitsPerOne) cap

end Double

end CorpusMark
