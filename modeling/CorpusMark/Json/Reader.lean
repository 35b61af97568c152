import CorpusMark.Json.Token
import CorpusMark.Json.Value

/-!
# Reading JSON

Tokens are put together by one pass that keeps the open arrays and objects on a stack, so a text
may be nested to any depth. `read?` accepts every text of the JSON grammar. `parse?` asks in
addition that every string is a text, every number a double and nothing nested deeper than 127
levels; `Value.isStrict` says the same of a value.
-/

namespace CorpusMark.Json

/-- An open array or object. Items and members are in reverse. -/
inductive Frame where
  | array (items : List Value)
  | object (members : List (Option String × Value)) (name : Option String)

/-- What can come next. -/
inductive Expected where
  | value
  /-- A value or the end of an array. -/
  | firstItem
  /-- A member name or the end of an object. -/
  | firstName
  | name
  | colon
  /-- A comma or the end of what is open. -/
  | more
  /-- Nothing: the text is complete. -/
  | done (v : Value)

/-- The open arrays and objects, the innermost first, and what can come next. -/
structure Reading where
  stack : List Frame
  expected : Expected

namespace Reading

/-- Puts a complete value where it belongs. -/
def complete (v : Value) : List Frame → Reading
  | [] => ⟨[], .done v⟩
  | .array items :: stack => ⟨.array (v :: items) :: stack, .more⟩
  | .object members name :: stack => ⟨.object ((name, v) :: members) name :: stack, .more⟩

/-- Goes on with the first token of a value. -/
def stepValue (stack : List Frame) : Token → Option Reading
  | .null => some (complete .null stack)
  | .bool b => some (complete (.bool b) stack)
  | .number text => some (complete (.number text) stack)
  | .string text => some (complete (.string text) stack)
  | .openArray => some ⟨.array [] :: stack, .firstItem⟩
  | .openObject => some ⟨.object [] none :: stack, .firstName⟩
  | _ => none

/-- Goes on with the name of a member. -/
def stepName : List Frame → Token → Option Reading
  | .object members _ :: stack, .string name => some ⟨.object members name :: stack, .colon⟩
  | _, _ => none

/-- Closes the innermost array or object. -/
def close : List Frame → Token → Option Reading
  | .array items :: stack, .closeArray => some (complete (.array items.reverse) stack)
  | .object members _ :: stack, .closeObject =>
    some (complete (.object members.reverse) stack)
  | _, _ => none

/-- Goes on behind a comma. -/
def stepComma : List Frame → Option Reading
  | .array items :: stack => some ⟨.array items :: stack, .value⟩
  | .object members name :: stack => some ⟨.object members name :: stack, .name⟩
  | [] => none

/-- Goes on by one token. -/
def step (s : Reading) (t : Token) : Option Reading :=
  match s.expected with
  | .value => stepValue s.stack t
  | .firstItem => if t = .closeArray then close s.stack t else stepValue s.stack t
  | .firstName => if t = .closeObject then close s.stack t else stepName s.stack t
  | .name => stepName s.stack t
  | .colon => if t = .colon then some ⟨s.stack, .value⟩ else none
  | .more => if t = .comma then stepComma s.stack else close s.stack t
  | .done _ => none

/-- The value at the end of a text. -/
def finish? (s : Reading) : Option Value :=
  match s.expected with
  | .done v => some v
  | _ => none

end Reading

/-- The value of a text that follows the JSON grammar. -/
def read? (cs : List Char) : Option Value := do
  let tokens ← tokens? cs
  let s ← tokens.foldlM Reading.step ⟨[], .value⟩
  s.finish?

/-! ## Strictness -/

/-- Greatest number of arrays and objects inside one another. -/
def maxNesting : Nat := 127

/-- Whether a number can be read as a double. -/
def isNumberInRange (text : List Char) : Bool :=
  ((Numeral.parse? text).bind Numeral.toDouble?).isSome

mutual

/-- Whether all strings of a value are texts, all numbers are doubles and nothing is nested
deeper than `levels`. -/
def Value.isStrict : Nat → Value → Bool
  | _, .null => true
  | _, .bool _ => true
  | _, .number text => isNumberInRange text
  | _, .string text => text.isSome
  | 0, .array _ => false
  | levels + 1, .array items => allItemsStrict levels items
  | 0, .object _ => false
  | levels + 1, .object members => allMembersStrict levels members

/-- Whether all items of a list are strict. -/
def allItemsStrict : Nat → List Value → Bool
  | _, [] => true
  | levels, v :: vs => v.isStrict levels && allItemsStrict levels vs

/-- Whether all members of an object are strict, names included. -/
def allMembersStrict : Nat → List (Option String × Value) → Bool
  | _, [] => true
  | levels, (name, v) :: rest => name.isSome && v.isStrict levels && allMembersStrict levels rest

end

/-- The value of a text, all of which has to be strict. -/
def parse? (s : String) : Option Value :=
  (read? s.toList).filter (Value.isStrict maxNesting)

end CorpusMark.Json
