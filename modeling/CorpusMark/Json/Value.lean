import CorpusMark.Double.Layout

/-!
# JSON values and their compact form

A JSON value keeps numbers as they are written and members in their order. `Value.write` is the
compact form: no blanks, and in strings only quotes, backslashes and control characters are
escaped, so that a written value never holds a line feed.
-/

namespace CorpusMark.Json

/-- A JSON value. -/
inductive Value where
  | null
  | bool (b : Bool)
  /-- A number, by its text. -/
  | number (text : List Char)
  /-- A string; `none` stands for one that escapes half a surrogate pair and so is no text. -/
  | string (text : Option String)
  | array (items : List Value)
  | object (members : List (Option String × Value))
deriving Inhabited

namespace Value

def ofString (s : String) : Value := string (some s)

def ofNat (n : Nat) : Value := number (Nat.toDigits 10 n)

/-- A double, or `null` if it is no finite number. -/
def ofDouble (x : Double) : Value :=
  if x.isFinite then number (x.write Double.jsonLayout).toList else null

def ofBool (b : Bool) : Value := bool b

/-- An object with the given members. -/
def record (members : List (String × Value)) : Value :=
  object (members.map fun (k, v) => (some k, v))

/-- The value, or `null` if there is none. -/
def ofOption (v : Option Value) : Value := v.getD null

/-- The last member with a name. -/
def member? (name : String) : Value → Option Value
  | object members => (members.reverse.find? (·.1 == some name)).map Prod.snd
  | _ => none

/-- The text of a string. -/
def text? : Value → Option String
  | string s => s
  | _ => none

end Value

/-! ## Writing -/

/-- Two hexadecimal digits of a code below 256. -/
def hexByte (n : Nat) : List Char :=
  [Nat.digitChar (n / 16), Nat.digitChar (n % 16)]

/-- A character inside a written string. -/
def escapeChar (c : Char) : List Char :=
  if c = '"' then ['\\', '"']
  else if c = '\\' then ['\\', '\\']
  else if c = '\x08' then ['\\', 'b']
  else if c = '\t' then ['\\', 't']
  else if c = '\n' then ['\\', 'n']
  else if c = '\x0c' then ['\\', 'f']
  else if c = '\r' then ['\\', 'r']
  else if c.toNat < 0x20 then ['\\', 'u', '0', '0'] ++ hexByte c.toNat
  else [c]

/-- A written string. -/
def writeString (s : String) : List Char :=
  '"' :: s.toList.flatMap escapeChar ++ ['"']

/-- Puts commas between texts. -/
def joinCommas : List (List Char) → List Char
  | [] => []
  | [x] => x
  | x :: xs => x ++ ',' :: joinCommas xs

mutual

/-- The characters of the compact form. -/
def Value.chars : Value → List Char
  | .null => "null".toList
  | .bool b => (if b then "true" else "false").toList
  | .number text => text
  | .string s => writeString (s.getD "")
  | .array items => '[' :: joinCommas (itemChars items) ++ [']']
  | .object members => '{' :: joinCommas (memberChars members) ++ ['}']

/-- The compact forms of the items of a list. -/
def itemChars : List Value → List (List Char)
  | [] => []
  | v :: vs => v.chars :: itemChars vs

/-- The compact forms of the members of an object. -/
def memberChars : List (Option String × Value) → List (List Char)
  | [] => []
  | (k, v) :: rest => (writeString (k.getD "") ++ ':' :: v.chars) :: memberChars rest

end

/-- The compact form of a value. -/
def Value.write (v : Value) : String :=
  String.ofList v.chars

end CorpusMark.Json
