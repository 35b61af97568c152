import CorpusMark.Numeral
import CorpusMark.Toml.Moment
import CorpusMark.Toml.Value

/-!
# Values of one word

Truth values, numbers, dates and times. The digits of a number may be grouped by underscores, each
of them between two digits. An integer has to fit 64 bits; a float is the nearest double, and one
that rounds to positive infinity is an error.
-/

namespace CorpusMark.Toml

/-- Whether every underscore stands between two digits. -/
def isGrouped (isDigit : Char → Bool) : List Char → Bool
  | a :: '_' :: c :: rest => isDigit a && isDigit c && isGrouped isDigit (c :: rest)
  | [] => true
  | c :: rest => c != '_' && rest.head? != some '_' && isGrouped isDigit rest

/-- Takes the underscores out of a number. -/
def ungroup? (isDigit : Char → Bool) (cs : List Char) : Option (List Char) :=
  if isGrouped isDigit cs then some (cs.filter (· ≠ '_')) else none

/-- Whether an integer fits 64 bits. -/
def isWord (n : Int) : Bool :=
  -0x8000000000000000 ≤ n && n ≤ 0x7fffffffffffffff

/-- An integer as a value. -/
def integer? (n : Int) : Option Value :=
  if isWord n then some (.integer n) else none

/-- A number in decimal notation. -/
def decimal? (cs : List Char) : Option Value := do
  let n ← Numeral.parseSigned? (← ungroup? isDigit cs)
  if n.isInteger then integer? n.toInt
  else if n.nearest = Double.infinity false then none
  else some (.float n.nearest)

/-- Value of a digit of a number in base `base`, at most 16. -/
def digitOf? (base : Nat) (c : Char) : Option Nat :=
  (hexDigit? c).filter (· < base)

/-- An integer in base `base`, without sign. -/
def based? (base : Nat) (cs : List Char) : Option Value := do
  let digits ← (← ungroup? (fun c => (digitOf? base c).isSome) cs).mapM (digitOf? base)
  if digits.isEmpty then none else integer? (digits.foldl (base * · + ·) 0 : Nat)

/-- Infinity, or not a number. -/
def special? (cs : List Char) : Option Value :=
  let (negative, name) := Double.splitSign cs
  if name = "inf".toList then some (.float (Double.infinity negative))
  else if name = "nan".toList then some (.float (Double.ofMagnitude negative Double.nan.magnitude))
  else none

/-- The value of a word. -/
def scalar? (cs : List Char) : Option Value :=
  if cs = "true".toList then some (.bool true)
  else if cs = "false".toList then some (.bool false)
  else if isMoment cs then some (.moment cs)
  else match cs with
    | '0' :: 'x' :: digits => based? 16 digits
    | '0' :: 'o' :: digits => based? 8 digits
    | '0' :: 'b' :: digits => based? 2 digits
    | _ => (special? cs).or (decimal? cs)

end CorpusMark.Toml
