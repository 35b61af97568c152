import CorpusMark.Double.Basic

/-!
# Reading decimal numbers

`Double.ofDecimal` is the double nearest to `digits · 10 ^ exponent`, for any exponent at all: far
outside the range of doubles the answer is decided by the number of digits, without computing the
power of ten. `Double.parse?` reads the usual written forms, `inf` and `nan` among them.
-/

namespace CorpusMark

/-- Value of an ASCII decimal digit. -/
def digit? (c : Char) : Option Nat :=
  if '0' ≤ c ∧ c ≤ '9' then some (c.toNat - '0'.toNat) else none

/-- Value of an ASCII hexadecimal digit. -/
def hexDigit? (c : Char) : Option Nat :=
  if 'a' ≤ c ∧ c ≤ 'f' then some (c.toNat - 'a'.toNat + 10)
  else if 'A' ≤ c ∧ c ≤ 'F' then some (c.toNat - 'A'.toNat + 10)
  else digit? c

/-- Whether a character is an ASCII decimal digit. -/
def isDigit (c : Char) : Bool :=
  (digit? c).isSome

/-- Number written by decimal digits, the most significant first. -/
def natOfDigits (cs : List Char) : Nat :=
  cs.foldl (fun n c => 10 * n + (digit? c).getD 0) 0

/-- Greatest natural number of 64 bits. -/
def maxWord : Nat := 0xffffffffffffffff

namespace Double

/-- Powers of ten outside these bounds, by the place of the leading digit, are past every finite
double or nearest to zero. -/
def decimalBounds : Int × Int := (-400, 400)

/-- Magnitude of the double nearest to `digits · 10 ^ exponent`. -/
def decimalMagnitude (digits : Nat) (exponent : Int) : Nat :=
  let leading := exponent + (Nat.toDigits 10 digits).length
  if digits = 0 || leading < decimalBounds.1 then 0
  else if decimalBounds.2 < leading then infiniteMagnitude
  else if 0 ≤ exponent then roundRatio (digits * tenTo exponent.toNat) 1
  else roundRatio digits (tenTo (-exponent).toNat)

/-- The double nearest to a decimal number. -/
def ofDecimal (negative : Bool) (digits : Nat) (exponent : Int) : Double :=
  ofMagnitude negative (decimalMagnitude digits exponent)

/-- Splits a sign off. -/
def splitSign : List Char → Bool × List Char
  | '-' :: cs => (true, cs)
  | '+' :: cs => (false, cs)
  | cs => (false, cs)

/-- Reads the exponent part of a number, which may be missing. -/
def exponent? : List Char → Option Int
  | [] => some 0
  | e :: cs =>
    let (negative, digits) := splitSign cs
    if (e == 'e' || e == 'E') && !digits.isEmpty && digits.all isDigit then
      some (if negative then -(natOfDigits digits : Int) else natOfDigits digits)
    else none

/-- Reads a number without its sign: digits with at most one point, at least one digit, and an
optional exponent. -/
def parseUnsigned? (negative : Bool) (cs : List Char) : Option Double :=
  let word := String.ofList (cs.map Char.toLower)
  if word = "inf" ∨ word = "infinity" then some (infinity negative)
  else if word = "nan" then some (ofMagnitude negative nan.magnitude)
  else
    let whole := cs.takeWhile isDigit
    let afterWhole := cs.dropWhile isDigit
    let (fraction, rest) := match afterWhole with
      | '.' :: r => (r.takeWhile isDigit, r.dropWhile isDigit)
      | r => ([], r)
    if whole.isEmpty && fraction.isEmpty then none
    else (exponent? rest).map fun e =>
      ofDecimal negative (natOfDigits (whole ++ fraction)) (e - fraction.length)

/-- Reads a number in decimal notation, `inf`, `infinity` or `nan`, with an optional sign. -/
def parse? (s : String) : Option Double :=
  let (negative, rest) := splitSign s.toList
  parseUnsigned? negative rest

end Double

end CorpusMark
