import CorpusMark.Json.Reader

/-!
# Fields of records

A record with known fields is read from an object or from an array that holds the fields in their
order. An object may have other members, which are passed over, but no field twice; an array may
have no more items than there are fields. What a missing field means is for the record to say.
-/

namespace CorpusMark.Json

namespace Value

/-- Members of an object; every name has to be a text. -/
def members? : Value → Option (List (String × Value))
  | object members => members.mapM fun (name, v) => name.map (·, v)
  | _ => none

/-- The value of a field; none of them may be there twice. -/
def fieldOf? (members : List (String × Value)) (name : String) : Option (Option Value) :=
  match (members.filter (·.1 == name)).map Prod.snd with
  | [] => some none
  | [v] => some (some v)
  | _ => none

/-- The values of fields, in order. -/
def fields? (names : List String) : Value → Option (List (Option Value))
  | array items =>
    if items.length ≤ names.length then
      some (items.map some ++ List.replicate (names.length - items.length) none)
    else none
  | v => do
    let members ← v.members?
    names.mapM (fieldOf? members)

/-- The items of an array. -/
def items? : Value → Option (List Value)
  | array items => some items
  | _ => none

/-- A natural number of at most 64 bits. -/
def nat? : Value → Option Nat
  | number text => (Numeral.parse? text).bind Numeral.toNat?
  | _ => none

def double? : Value → Option Double
  | number text => (Numeral.parse? text).bind Numeral.toDouble?
  | _ => none

def bool? : Value → Option Bool
  | bool b => some b
  | _ => none

/-- Reads the items of an array. -/
def listOf? {α : Type} (item? : Value → Option α) (v : Value) : Option (List α) := do
  (← v.items?).mapM item?

/-- Reads a value that may be `null`. -/
def nullable? {α : Type} (read? : Value → Option α) : Value → Option (Option α)
  | null => some none
  | v => (read? v).map some

/-- Reads one of several names. It is written as a string, or as an object whose only member has
that name and holds `null`. -/
def choice? {α : Type} (ofName? : String → Option α) : Value → Option α
  | string name => name.bind ofName?
  | object [(name, null)] => name.bind ofName?
  | _ => none

end Value

end CorpusMark.Json
