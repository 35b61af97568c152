import CorpusMark.Double.Decimal

/-!
# Written numbers

The parts of a number in decimal notation: digits without a leading zero, digits behind a point,
and an exponent. What values such a text stands for is up to the format that it is part of.
-/

namespace CorpusMark

/-- The parts of a written number. -/
structure Numeral where
  negative : Bool
  whole : List Char
  /-- Digits behind the point. -/
  fraction : List Char
  /-- Sign and digits of the exponent. -/
  exponent : Option (Bool × List Char)
deriving DecidableEq, Repr

namespace Numeral

/-- Whether digits can stand before the point: none too few and no leading zero. -/
def isWhole : List Char → Bool
  | [] => false
  | ['0'] => true
  | '0' :: _ => false
  | cs => cs.all isDigit

/-- Reads the exponent behind its mark. -/
def exponentOf? (cs : List Char) : Option (Bool × List Char) :=
  let (negative, digits) := Double.splitSign cs
  if digits.isEmpty || !digits.all isDigit then none else some (negative, digits)

/-- Whether a character starts an exponent. -/
def isMark (c : Char) : Bool := c == 'e' || c == 'E'

/-- Reads the whole of a text behind its sign as a number. -/
def parseUnsigned? (negative : Bool) (body : List Char) : Option Numeral := do
  let mantissa := body.takeWhile (!isMark ·)
  let exponent ← match body.dropWhile (!isMark ·) with
    | [] => some none
    | _ :: rest => (exponentOf? rest).map some
  let whole := mantissa.takeWhile (· ≠ '.')
  let fraction ← match mantissa.dropWhile (· ≠ '.') with
    | [] => some []
    | _ :: rest => if rest.isEmpty || !rest.all isDigit then none else some rest
  if isWhole whole then some ⟨negative, whole, fraction, exponent⟩ else none

/-- Reads the whole of a text as a number that may have a minus sign. -/
def parse? : List Char → Option Numeral
  | '-' :: rest => parseUnsigned? true rest
  | cs => parseUnsigned? false cs

/-- Reads the whole of a text as a number that may have either sign. -/
def parseSigned? (cs : List Char) : Option Numeral :=
  let (negative, rest) := Double.splitSign cs
  parseUnsigned? negative rest

/-- Whether a number has neither point nor exponent. -/
def isInteger (n : Numeral) : Bool :=
  n.fraction.isEmpty && n.exponent.isNone

/-- The number that the digits in front of the point make up. -/
def toInt (n : Numeral) : Int :=
  let value := natOfDigits n.whole
  if n.negative then -(value : Int) else value

/-- The exponent of ten that is written. -/
def writtenExponent (n : Numeral) : Int :=
  match n.exponent with
  | none => 0
  | some (negative, digits) =>
    if negative then -(natOfDigits digits : Int) else natOfDigits digits

/-- The double nearest to the number. -/
def nearest (n : Numeral) : Double :=
  Double.ofDecimal n.negative (natOfDigits (n.whole ++ n.fraction))
    (n.writtenExponent - n.fraction.length)

end Numeral

end CorpusMark
