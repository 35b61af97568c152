import CorpusMark.Toml.Scalar
import CorpusMark.Toml.Table
import CorpusMark.Toml.Token

/-!
# Reading TOML

Tokens are put together to lines by one pass that keeps the open arrays and inline tables on a
stack, and the lines to one table. `parse?` is the table of a document. Line ends have no meaning
between the items of an array and cannot stand elsewhere in a value.
-/

namespace CorpusMark.Toml

/-- Values may be nested, and keys have parts, fewer than this. -/
def nestingLimit : Nat := 80

/-! ## Keys -/

/-- A key that is being read: its parts in reverse, and whether another part has to come. -/
structure KeyReading where
  parts : List String
  incomplete : Bool
deriving DecidableEq, Repr

namespace KeyReading

/-- In front of a key. -/
def start : KeyReading := ⟨[], true⟩

/-- Whether a character can stand in a key without quotes. -/
def isBare (c : Char) : Bool :=
  ('a' ≤ c && c ≤ 'z') || ('A' ≤ c && c ≤ 'Z') || isDigit c || c == '_' || c == '-'

def addPart (k : KeyReading) (part : String) : Option KeyReading :=
  if k.incomplete then some ⟨part :: k.parts, false⟩ else none

def addPoint (k : KeyReading) : Option KeyReading :=
  if k.incomplete then none else some ⟨k.parts, true⟩

/-- Adds the pieces of a word, between each two of which there is a point. -/
def addPieces (k : KeyReading) : List (List Char) → Option KeyReading
  | [] => some k
  | piece :: pieces => do
    let k ← if piece.isEmpty then some k
      else if piece.all isBare then k.addPart (String.ofList piece)
      else none
    if pieces.isEmpty then some k else (← k.addPoint).addPieces pieces

/-- Goes on by one token. -/
def step (k : KeyReading) : Token → Option KeyReading
  | .blank => some k
  | .word cs => k.addPieces (cs.splitOn '.')
  | .string false text => k.addPart text
  | _ => none

/-- The key, once it is complete. -/
def finish? (k : KeyReading) : Option Key :=
  match k.parts with
  | [] => none
  | name :: path =>
    if k.incomplete || nestingLimit ≤ k.parts.length then none else some ⟨path.reverse, name⟩

end KeyReading

/-! ## Lines -/

/-- An open part of a line. Items and pairs are in reverse. -/
inductive Frame where
  /-- A pair of the document, without its value. -/
  | pair (key : Key)
  | array (items : List Value)
  /-- An inline table, between its pairs or in a key. -/
  | table (pairs : List (Key × Value))
  /-- An inline table, in the value of a pair. -/
  | member (pairs : List (Key × Value)) (key : Key)

/-- What can come next. -/
inductive Expected where
  /-- A new line. -/
  | line
  | lineEnd
  /-- The key of a header or a second bracket. -/
  | header
  | headerKey (element : Bool) (k : KeyReading)
  /-- The second closing bracket of a header. -/
  | headerEnd (key : Key)
  | key (k : KeyReading)
  | value
  /-- An item or the end of an array. -/
  | item
  /-- A comma or the end of an array. -/
  | itemEnd
  /-- A key or the end of an inline table. -/
  | firstKey
  /-- A comma or the end of an inline table. -/
  | pairEnd
deriving DecidableEq, Repr

/-- The lines so far, in reverse, what is open, the innermost first, and what can come next. -/
structure Reading where
  lines : List Line
  stack : List Frame
  expected : Expected

namespace Reading

/-- Goes on to another place. -/
def expect (s : Reading) (expected : Expected) : Reading :=
  { s with expected := expected }

/-- Puts a complete value where it belongs. -/
def complete (s : Reading) (v : Value) : Option Reading :=
  match s.stack with
  | .pair key :: stack => some ⟨.pair key v :: s.lines, stack, .lineEnd⟩
  | .array items :: stack => some ⟨s.lines, .array (v :: items) :: stack, .itemEnd⟩
  | .member pairs key :: stack => some ⟨s.lines, .table ((key, v) :: pairs) :: stack, .pairEnd⟩
  | _ => none

/-- Opens an array or an inline table. -/
def openFrame (s : Reading) (frame : Frame) (expected : Expected) : Option Reading :=
  if s.stack.length < nestingLimit then some ⟨s.lines, frame :: s.stack, expected⟩ else none

/-- Goes on with the first token of a value. -/
def stepValue (s : Reading) : Token → Option Reading
  | .blank => some s
  | .word cs => (scalar? cs).bind s.complete
  | .string _ text => s.complete (.string text)
  | .openBracket => s.openFrame (.array []) .item
  | .openBrace => s.openFrame (.table []) .firstKey
  | _ => none

/-- Closes the innermost array or inline table. -/
def close (s : Reading) : Option Reading :=
  match s.stack with
  | .array items :: stack => complete { s with stack := stack } (.array items.reverse)
  | .table pairs :: stack =>
    (tableOfPairs? pairs.reverse).bind (complete { s with stack := stack })
  | _ => none

/-- Goes on behind a complete key of a pair. -/
def beginValue (s : Reading) (key : Key) : Option Reading :=
  match s.stack with
  | [] => some ⟨s.lines, [.pair key], .value⟩
  | .table pairs :: stack => some ⟨s.lines, .member pairs key :: stack, .value⟩
  | _ => none

/-- Goes on in the key of a pair. -/
def stepKey (s : Reading) (k : KeyReading) : Token → Option Reading
  | .equals => k.finish?.bind s.beginValue
  | t => (k.step t).map fun k => s.expect (.key k)

/-- Adds a header. -/
def addHeader (s : Reading) (line : Line) : Reading :=
  ⟨line :: s.lines, s.stack, .lineEnd⟩

/-- Goes on in the key of a header. -/
def stepHeader (s : Reading) (element : Bool) (k : KeyReading) : Token → Option Reading
  | .closeBracket => k.finish?.map fun key =>
    if element then s.expect (.headerEnd key) else s.addHeader (.table key)
  | t => (k.step t).map fun k => s.expect (.headerKey element k)

/-- Goes on by one token. -/
def step (s : Reading) (t : Token) : Option Reading :=
  match s.expected with
  | .line =>
    match t with
    | .blank => some s
    | .newline => some s
    | .openBracket => some (s.expect .header)
    | _ => s.stepKey .start t
  | .lineEnd =>
    match t with
    | .blank => some s
    | .newline => some (s.expect .line)
    | _ => none
  | .header =>
    if t = .openBracket then some (s.expect (.headerKey true .start))
    else s.stepHeader false .start t
  | .headerKey element k => s.stepHeader element k t
  | .headerEnd key => if t = .closeBracket then some (s.addHeader (.element key)) else none
  | .key k => s.stepKey k t
  | .value => s.stepValue t
  | .item =>
    match t with
    | .newline => some s
    | .closeBracket => s.close
    | _ => s.stepValue t
  | .itemEnd =>
    match t with
    | .blank => some s
    | .newline => some s
    | .comma => some (s.expect .item)
    | .closeBracket => s.close
    | _ => none
  | .firstKey =>
    match t with
    | .blank => some s
    | .closeBrace => s.close
    | _ => s.stepKey .start t
  | .pairEnd =>
    match t with
    | .blank => some s
    | .comma => some (s.expect (.key .start))
    | .closeBrace => s.close
    | _ => none

/-- The lines at the end of a document. -/
def finish? (s : Reading) : Option (List Line) :=
  if s.expected = .line then some s.lines.reverse else none

end Reading

/-! ## Documents -/

/-- A byte order mark, which may stand in front of a document. -/
def byteOrderMark : Char := '\ufeff'

/-- The table of a document. -/
def parse? (s : String) : Option Value := do
  let cs := s.toList
  let tokens ← tokens? (if cs.head? = some byteOrderMark then cs.tail else cs)
  let s ← tokens.foldlM Reading.step ⟨[], [], .line⟩
  tableOfLines? (← s.finish?)

end CorpusMark.Toml
