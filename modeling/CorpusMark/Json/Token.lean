import CorpusMark.Json.Number

/-!
# Tokens of JSON texts

A text is cut into tokens by one pass over its characters. What stands between blanks, quotes and
brackets is a word and has to be a number or one of the three constants. Strings are kept as text,
except those with half a surrogate pair, which stand for no text.
-/

namespace CorpusMark.Json

/-- A token of a JSON text. -/
inductive Token where
  | openArray
  | closeArray
  | openObject
  | closeObject
  | comma
  | colon
  | null
  | bool (b : Bool)
  | number (text : List Char)
  | string (text : Option String)
deriving DecidableEq, Repr

/-! ## Strings -/

/-- A part of a string: a character, or a UTF-16 unit given by its number. -/
inductive Piece where
  | char (c : Char)
  | unit (n : Nat)
deriving DecidableEq, Repr

/-- Whether a unit is the first of a surrogate pair. -/
def isHighUnit (n : Nat) : Bool := 0xd800 ≤ n && n < 0xdc00

/-- Whether a unit is the second of a surrogate pair. -/
def isLowUnit (n : Nat) : Bool := 0xdc00 ≤ n && n < 0xe000

/-- Joins the pieces of a string, given in reverse, in front of what follows them. -/
def joinPieces : List Piece → List Char → Option (List Char)
  | [], after => some after
  | .char c :: rest, after => joinPieces rest (c :: after)
  | .unit low :: .unit high :: rest, after =>
    if isLowUnit low then
      if isHighUnit high then
        let n := 0x10000 + (high - 0xd800) * 0x400 + (low - 0xdc00)
        joinPieces rest (Char.ofNat n :: after)
      else none
    else if isHighUnit low then none
    else joinPieces (.unit high :: rest) (Char.ofNat low :: after)
  | .unit n :: rest, after =>
    if isLowUnit n || isHighUnit n then none else joinPieces rest (Char.ofNat n :: after)

/-- The character that an escape of one letter stands for. -/
def escaped? : Char → Option Char
  | '"' => some '"'
  | '\\' => some '\\'
  | '/' => some '/'
  | 'b' => some '\x08'
  | 'f' => some '\x0c'
  | 'n' => some '\n'
  | 'r' => some '\r'
  | 't' => some '\t'
  | _ => none

/-! ## Words -/

/-- The token of a word. -/
def wordToken? (cs : List Char) : Option Token :=
  if cs = "null".toList then some .null
  else if cs = "true".toList then some (.bool true)
  else if cs = "false".toList then some (.bool false)
  else (Numeral.parse? cs).map fun _ => .number cs

/-- The token of a character that is one by itself. -/
def mark? : Char → Option Token
  | '[' => some .openArray
  | ']' => some .closeArray
  | '{' => some .openObject
  | '}' => some .closeObject
  | ',' => some .comma
  | ':' => some .colon
  | _ => none

def isSpace (c : Char) : Bool :=
  c == ' ' || c == '\n' || c == '\t' || c == '\r'

/-! ## The pass -/

/-- What the last characters are part of. Lists are in reverse. -/
inductive Pending where
  | nothing
  | word (cs : List Char)
  | string (pieces : List Piece)
  | escape (pieces : List Piece)
  /-- Hexadecimal digits of an escape, as a number and how many there are. -/
  | hex (pieces : List Piece) (value count : Nat)
deriving DecidableEq, Repr

/-- Tokens so far, in reverse, and what is pending. -/
structure Lexing where
  tokens : List Token
  pending : Pending
deriving DecidableEq, Repr

namespace Lexing

/-- Goes on between tokens. -/
def stepBetween (tokens : List Token) (c : Char) : Lexing :=
  if isSpace c then ⟨tokens, .nothing⟩
  else if c = '"' then ⟨tokens, .string []⟩
  else match mark? c with
    | some t => ⟨t :: tokens, .nothing⟩
    | none => ⟨tokens, .word [c]⟩

/-- Goes on by one character. -/
def step (s : Lexing) (c : Char) : Option Lexing :=
  match s.pending with
  | .nothing => some (stepBetween s.tokens c)
  | .word cs =>
    if isSpace c || c == '"' || (mark? c).isSome then
      (wordToken? cs.reverse).map fun t => stepBetween (t :: s.tokens) c
    else some ⟨s.tokens, .word (c :: cs)⟩
  | .string pieces =>
    if c = '"' then
      some ⟨.string ((joinPieces pieces []).map String.ofList) :: s.tokens, .nothing⟩
    else if c = '\\' then some ⟨s.tokens, .escape pieces⟩
    else if c.toNat < 0x20 then none
    else some ⟨s.tokens, .string (.char c :: pieces)⟩
  | .escape pieces =>
    if c = 'u' then some ⟨s.tokens, .hex pieces 0 0⟩
    else (escaped? c).map fun e => ⟨s.tokens, .string (.char e :: pieces)⟩
  | .hex pieces value count =>
    (hexDigit? c).map fun d =>
      let value := 16 * value + d
      if count = 3 then ⟨s.tokens, .string (.unit value :: pieces)⟩
      else ⟨s.tokens, .hex pieces value (count + 1)⟩

/-- The tokens at the end of a text. -/
def finish? (s : Lexing) : Option (List Token) :=
  match s.pending with
  | .nothing => some s.tokens.reverse
  | .word cs => (wordToken? cs.reverse).map fun t => (t :: s.tokens).reverse
  | _ => none

end Lexing

/-- The tokens of a text. -/
def tokens? (cs : List Char) : Option (List Token) := do
  let s ← cs.foldlM Lexing.step ⟨[], .nothing⟩
  s.finish?

end CorpusMark.Json
