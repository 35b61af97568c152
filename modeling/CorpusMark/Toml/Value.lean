import CorpusMark.Double.Basic

/-!
# TOML values

What stands behind a key of a TOML document.
-/

namespace CorpusMark.Toml

/-- A TOML value. -/
inductive Value where
  | string (text : String)
  /-- An integer of 64 bits. -/
  | integer (n : Int)
  | float (x : Double)
  | bool (b : Bool)
  /-- A date, a time or both, by its text. -/
  | moment (text : List Char)
  | array (items : List Value)
  | table (members : List (String × Value))
deriving Inhabited

namespace Value

def string? : Value → Option String
  | string text => some text
  | _ => none

/-- An integer that is not negative. -/
def nat? : Value → Option Nat
  | integer (.ofNat n) => some n
  | _ => none

/-- A float, or the float nearest to an integer. -/
def double? : Value → Option Double
  | float x => some x
  | integer n => some (let x := Double.ofNat n.natAbs; if n < 0 then x.negate else x)
  | _ => none

def bool? : Value → Option Bool
  | bool b => some b
  | _ => none

/-- Reads the items of an array. -/
def listOf? {α : Type} (item? : Value → Option α) : Value → Option (List α)
  | array items => items.mapM item?
  | _ => none

/-- Whether a value is an array or a table with nothing in it. -/
def isEmpty : Value → Bool
  | array [] => true
  | table [] => true
  | _ => false

/-- Reads one of several names. It is written as a string, or as the only key of a table with
nothing behind it. -/
def choice? {α : Type} (ofName? : String → Option α) : Value → Option α
  | string name => ofName? name
  | table [(name, v)] => if v.isEmpty then ofName? name else none
  | _ => none

/-- The values of the fields of a record, in order. A record is written as a table, or as an array
of its fields. Other members and further items are passed over, and a moment has no fields. -/
def fields? (names : List String) : Value → Option (List (Option Value))
  | table members => some (names.map fun name => members.lookup name)
  | array items => some (names.mapIdx fun i _ => items[i]?)
  | moment _ => some (names.map fun _ => none)
  | _ => none

end Value

end CorpusMark.Toml
