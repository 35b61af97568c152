import CorpusMark.Double.Shortest

/-!
# Written form of doubles

A `Layout` holds the decisions of an output format: which way ties go, from where on an exponent
is written, whether whole numbers keep `.0`, and the texts for what is no finite number. `write`
lays out the shortest digits by it. `writeTenths` is the form with exactly one decimal place.
-/

namespace CorpusMark.Double

/-- How an output format writes doubles. -/
structure Layout where
  /-- Choice between two equally near decimals. -/
  tie : Tie
  /-- Positions of the decimal point, relative to the first digit, at which no exponent is
  written; without bounds there never is one. -/
  positional : Option (Int × Int)
  /-- Whether a whole number is written with `.0`. -/
  wholePoint : Bool
  /-- Texts for infinity, with its sign, and for NaN. -/
  infinityText : Bool → String
  nanText : String

/-- Decimal digits as characters. -/
def digitChars (ds : List Nat) : List Char :=
  ds.map Nat.digitChar

/-- Digits with a point and no exponent, padded with zeros where there is no digit. -/
def positionalForm (wholePoint : Bool) (d : DecimalDigits) : List Char :=
  let tail (fraction : List Char) :=
    if fraction.isEmpty then (if wholePoint then ['.', '0'] else []) else '.' :: fraction
  let ds := digitChars d.digits
  if d.point ≤ 0 then
    '0' :: tail (if ds.isEmpty then [] else List.replicate (-d.point).toNat '0' ++ ds)
  else
    let p := d.point.toNat
    ds.take p ++ List.replicate (p - ds.length) '0' ++ tail (ds.drop p)

/-- One digit, the others behind a point, and the exponent with its sign. -/
def exponentForm (d : DecimalDigits) : List Char :=
  let e := d.point - 1
  let exponent := (if e < 0 then '-' else '+') :: Nat.toDigits 10 e.natAbs
  match digitChars d.digits with
  | [] => ['0']
  | [c] => c :: 'e' :: exponent
  | c :: cs => c :: '.' :: cs ++ 'e' :: exponent

/-- Writes a double with the fewest digits that read back. -/
def write (layout : Layout) (x : Double) : String :=
  if x.isNaN then layout.nanText
  else if x.isInfinite then layout.infinityText x.isNegative
  else
    let digits : DecimalDigits :=
      if x.magnitude = 0 then ⟨[], 0⟩ else shortestDigits layout.tie x.magnitude
    let plain := match layout.positional with
      | none => true
      | some (low, high) => x.magnitude = 0 || (low ≤ digits.point && digits.point ≤ high)
    let body := if plain then positionalForm layout.wholePoint digits else exponentForm digits
    String.ofList (if x.isNegative then '-' :: body else body)

/-- Numbers in messages: never an exponent, no point behind a whole number. -/
def messageLayout : Layout where
  tie := .away
  positional := none
  wholePoint := false
  infinityText negative := if negative then "-inf" else "inf"
  nanText := "NaN"

/-- Numbers in JSON texts: an exponent below `10⁻⁵` and from `10¹⁶` on, else always a point, and
`null` for what JSON cannot hold. -/
def jsonLayout : Layout where
  tie := .toEven
  positional := some (-4, 16)
  wholePoint := true
  infinityText _ := "null"
  nanText := "null"

/-- Writes a finite number that is not negative with one decimal place, a half in the next place
going to the even neighbour. -/
def writeTenths (x : Double) : String :=
  let tenths := roundHalfEven (x.units * 10) unitsPerOne
  s!"{tenths / 10}.{tenths % 10}"

end CorpusMark.Double
