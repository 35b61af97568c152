import CorpusMark.Double.Basic

/-!
# Shortest decimal digits

The decimal digits of a double are the fewest that read back as the same double and, of those, the
nearest to it. The reals that round to a magnitude form an interval around it, whose ends belong
to it exactly when the magnitude is even. For 1, 2, …, 17 digits the value's two neighbours on
the grid of decimals with that many digits are tried, and the first grid with a neighbour in the
interval wins.
-/

namespace CorpusMark

/-- A number `0.d₁d₂… · 10 ^ point`, by its digits. -/
structure DecimalDigits where
  digits : List Nat
  point : Int
deriving DecidableEq

/-- Which of two equally near decimals is taken. -/
inductive Tie where
  /-- The one whose last digit is even. -/
  | toEven
  /-- The one that is farther from zero. -/
  | away
deriving DecidableEq

namespace Double

/-- Twice the bounds, in units, of the reals that round to a magnitude. -/
def roundingInterval (magnitude : Nat) : Nat × Nat :=
  (unitsOf (magnitude - 1) + unitsOf magnitude, unitsOf magnitude + unitsOf (magnitude + 1))

/-- Whether `num / den` units round to a magnitude, which is not zero. -/
def roundsTo (magnitude num den : Nat) : Bool :=
  let (low, high) := roundingInterval magnitude
  if magnitude % 2 = 0 then low * den ≤ 2 * num && 2 * num ≤ high * den
  else low * den < 2 * num && 2 * num < high * den

/-- The number `p` with `10 ^ (p - 1) ≤ units / unitsPerOne < 10 ^ p`, for a positive number. -/
def decimalPoint (units : Nat) : Int :=
  let whole := units / unitsPerOne
  if whole ≠ 0 then (Nat.toDigits 10 whole).length
  else
    let inverse := (unitsPerOne - 1) / units
    1 - ((Nat.toDigits 10 inverse).length : Int)

/-- The decimal nearest to a magnitude among those with `count` digits that round to it. -/
def nearestOnGrid? (tie : Tie) (magnitude count : Nat) : Option DecimalDigits :=
  let units := unitsOf magnitude
  let point := decimalPoint units
  let gap := point - count
  -- In units, the grid has the points `c * num / den`.
  let (num, den) :=
    if 0 ≤ gap then (tenTo gap.toNat * unitsPerOne, 1) else (unitsPerOne, tenTo (-gap).toNat)
  let below := units * den / num
  let remainder := units * den % num
  let fits c := roundsTo magnitude (c * num) den
  let above := below + 1
  let pick : Option Nat :=
    match fits below, fits above with
    | false, false => none
    | true, false => some below
    | false, true => some above
    | true, true =>
      if 2 * remainder < num then some below
      else if num < 2 * remainder then some above
      else match tie with
        | .toEven => some (below + below % 2)
        | .away => some above
  pick.map fun c =>
    let written := (Nat.toDigits 10 c).map fun d => d.toNat - '0'.toNat
    { digits := (written.reverse.dropWhile (· = 0)).reverse,
      point := point + written.length - count }

/-- The fewest digits that read back as a positive magnitude. -/
def shortestDigits (tie : Tie) (magnitude : Nat) : DecimalDigits :=
  ((List.range 17).findSome? fun i => nearestOnGrid? tie magnitude (i + 1)).getD ⟨[], 0⟩

end Double

end CorpusMark
