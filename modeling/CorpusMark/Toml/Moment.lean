import CorpusMark.Double.Decimal

/-!
# Dates and times in TOML documents

The written forms of dates and times. Only that they are well formed matters: `isMoment` accepts a
date, a time, or a date with a time and perhaps a distance from universal time.
-/

namespace CorpusMark.Toml

/-- The number of two digits, if it lies between two bounds. -/
def twoDigits? (least greatest : Nat) (a b : Char) : Option Nat :=
  let n := natOfDigits [a, b]
  if isDigit a && isDigit b && least ≤ n && n ≤ greatest then some n else none

/-- Number of days in a month. -/
def daysInMonth (year month : Nat) : Nat :=
  if month = 2 then
    if year % 4 = 0 ∧ (year % 100 ≠ 0 ∨ year % 400 = 0) then 29 else 28
  else if month ∈ [4, 6, 9, 11] then 30
  else 31

/-- Whether a text is a date, such as `1979-05-27`. -/
def isDate : List Char → Bool
  | [y₁, y₂, y₃, y₄, '-', m₁, m₂, '-', d₁, d₂] =>
    let year := [y₁, y₂, y₃, y₄]
    match twoDigits? 1 12 m₁ m₂ with
    | none => false
    | some month =>
      year.all isDigit && (twoDigits? 1 (daysInMonth (natOfDigits year) month) d₁ d₂).isSome
  | _ => false

/-- What follows a time of day, such as `07:32:00.5`, at the start of a text. A minute may have a
sixty-first second. -/
def afterTime? : List Char → Option (List Char)
  | h₁ :: h₂ :: ':' :: m₁ :: m₂ :: ':' :: s₁ :: s₂ :: rest =>
    if (twoDigits? 0 23 h₁ h₂).isSome && (twoDigits? 0 59 m₁ m₂).isSome &&
        (twoDigits? 0 60 s₁ s₂).isSome then
      match rest with
      | '.' :: c :: cs => if isDigit c then some (cs.dropWhile isDigit) else none
      | _ => some rest
    else none
  | _ => none

/-- Whether a text is a distance from universal time, or empty. -/
def isOffset : List Char → Bool
  | [] => true
  | ['Z'] => true
  | ['z'] => true
  | [sign, h₁, h₂, ':', m₁, m₂] =>
    (sign == '+' || sign == '-') && (twoDigits? 0 23 h₁ h₂).isSome &&
      (twoDigits? 0 59 m₁ m₂).isSome
  | _ => false

/-- Whether a character can stand between a date and a time. -/
def isDateSeparator (c : Char) : Bool :=
  c == 'T' || c == 't' || c == ' '

/-- Length of a written date. -/
def dateLength : Nat := 10

/-- Whether a text is a date, a time or both. -/
def isMoment (cs : List Char) : Bool :=
  match cs.drop dateLength with
  | separator :: time =>
    isDate (cs.take dateLength) && isDateSeparator separator && (afterTime? time).any isOffset ||
      (afterTime? cs).any List.isEmpty
  | [] => isDate cs || (afterTime? cs).any List.isEmpty

end CorpusMark.Toml
