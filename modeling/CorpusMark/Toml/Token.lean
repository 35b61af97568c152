import CorpusMark.Toml.Moment

/-!
# Tokens of TOML documents

A document is cut into tokens by one pass over its characters, after its line ends have been
unified and one has been put behind it. Comments are dropped. What stands between blanks, quotes
and marks is a word: keys without quotes, with the points between them, and values other than
strings, arrays and tables. A date is joined with the time that follows it behind one space.
-/

namespace CorpusMark.Toml

/-- A token of a TOML document. -/
inductive Token where
  /-- Spaces or tabs. -/
  | blank
  | newline
  | equals
  | comma
  | openBracket
  | closeBracket
  | openBrace
  | closeBrace
  | word (cs : List Char)
  /-- A string; one that is `long` may span lines and cannot be a key. -/
  | string (long : Bool) (text : String)
deriving DecidableEq, Repr

/-! ## Characters -/

/-- Makes every line end a line feed. A carriage return stands in front of a line feed only. -/
def unifyLines? : List Char → Option (List Char)
  | [] => some []
  | '\r' :: '\n' :: cs => (unifyLines? cs).map ('\n' :: ·)
  | c :: cs => if c = '\r' then none else (unifyLines? cs).map (c :: ·)

/-- Whether a character can stand in a comment or in a line of a string: a tab, or anything but a
control character of ASCII. -/
def isPlain (c : Char) : Bool :=
  c == '\t' || (0x20 ≤ c.toNat && c.toNat ≠ 0x7f)

/-- Whether a character is a space or a tab. -/
def isSpace (c : Char) : Bool :=
  c == ' ' || c == '\t'

/-- The token of a character that is one by itself. -/
def mark? : Char → Option Token
  | ' ' => some .blank
  | '\t' => some .blank
  | '\n' => some .newline
  | '=' => some .equals
  | ',' => some .comma
  | '[' => some .openBracket
  | ']' => some .closeBracket
  | '{' => some .openBrace
  | '}' => some .closeBrace
  | _ => none

/-- The kinds of quotes. -/
inductive Quote where
  /-- Double quotes, with escapes in between. -/
  | basic
  /-- Single quotes, with every character in between taken as it is. -/
  | literal
deriving DecidableEq, Repr

namespace Quote

def char : Quote → Char
  | basic => '"'
  | literal => '\''

def ofChar? (c : Char) : Option Quote :=
  if c = '"' then some basic else if c = '\'' then some literal else none

end Quote

/-- Whether a character ends a word. -/
def endsWord (c : Char) : Bool :=
  (mark? c).isSome || (Quote.ofChar? c).isSome || c == '#'

/-- The character that an escape of one letter stands for. -/
def escaped? : Char → Option Char
  | 'b' => some '\x08'
  | 't' => some '\t'
  | 'n' => some '\n'
  | 'f' => some '\x0c'
  | 'r' => some '\r'
  | '"' => some '"'
  | '\\' => some '\\'
  | _ => none

/-- The character with a code, unless it is half a surrogate pair or past the last character. -/
def charOfCode? (n : Nat) : Option Char :=
  if n.isValidChar then some (Char.ofNat n) else none

/-! ## Strings -/

/-- Where in a string the last character was. -/
inductive Phase where
  | inside
  /-- Right behind the opening quotes of a long string. -/
  | first
  /-- Behind quotes in a long string, as many as `count`, that may belong to the closing ones. -/
  | quotes (count : Nat)
  | escape
  /-- In the digits of an escape, with as many as `left` missing. -/
  | code (value left : Nat)
  /-- In the blanks behind a backslash; `broken` once there was a line end among them. -/
  | gap (broken : Bool)
deriving DecidableEq, Repr

/-- A string that is being read. -/
structure Quoting where
  quote : Quote
  long : Bool
  /-- The characters so far, in reverse. -/
  content : List Char
  phase : Phase
deriving DecidableEq, Repr

/-- What a character does to a string. -/
inductive StringStep where
  | goOn (q : Quoting)
  /-- The string is complete, the character included. -/
  | close (text : String)
  /-- The string was complete in front of the character. -/
  | closed (text : String)

namespace Quoting

/-- A long string closes with three quotes and may have two more in front of them. -/
def closingQuotes : Nat := 3

def maxQuotes : Nat := 5

/-- Adds a character to the string. -/
def push (q : Quoting) (c : Char) : Quoting :=
  { q with content := c :: q.content, phase := .inside }

/-- The text of a string that ends with `extra` quotes. -/
def text (q : Quoting) (extra : Nat) : String :=
  String.ofList (q.content.reverse ++ List.replicate extra q.quote.char)

/-- Goes on inside the string. -/
def stepInside (q : Quoting) (c : Char) : Option StringStep :=
  if c = q.quote.char then
    if q.long then some (.goOn { q with phase := .quotes 1 }) else some (.close (q.text 0))
  else if c = '\\' ∧ q.quote = .basic then some (.goOn { q with phase := .escape })
  else if isPlain c || (c == '\n' && q.long) then some (.goOn (q.push c))
  else none

/-- Goes on by one character. -/
def step (q : Quoting) (c : Char) : Option StringStep :=
  match q.phase with
  | .inside => q.stepInside c
  | .first => if c = '\n' then some (.goOn { q with phase := .inside }) else q.stepInside c
  | .quotes count =>
    if c = q.quote.char then
      if count + 1 = maxQuotes then some (.close (q.text (maxQuotes - closingQuotes)))
      else some (.goOn { q with phase := .quotes (count + 1) })
    else if closingQuotes ≤ count then some (.closed (q.text (count - closingQuotes)))
    else stepInside { q with content := List.replicate count q.quote.char ++ q.content } c
  | .escape =>
    if c = 'u' then some (.goOn { q with phase := .code 0 4 })
    else if c = 'U' then some (.goOn { q with phase := .code 0 8 })
    else if q.long && (isSpace c || c == '\n') then
      some (.goOn { q with phase := .gap (c == '\n') })
    else (escaped? c).map fun e => .goOn (q.push e)
  | .code value left => do
    let value := 16 * value + (← hexDigit? c)
    if left = 1 then
      let e ← charOfCode? value
      some (.goOn (q.push e))
    else some (.goOn { q with phase := .code value (left - 1) })
  | .gap broken =>
    if isSpace c || c == '\n' then
      some (.goOn { q with phase := .gap (broken || c == '\n') })
    else if broken then q.stepInside c
    else none

end Quoting

/-! ## The pass -/

/-- What the last characters are part of. -/
inductive Pending where
  | nothing
  | comment
  /-- A word, in reverse. -/
  | word (cs : List Char)
  /-- A word that is a date, in reverse, and one space. -/
  | date (cs : List Char)
  /-- One opening quote, or two that may be an empty string. -/
  | opening (quote : Quote) (second : Bool)
  | string (q : Quoting)
deriving DecidableEq, Repr

/-- Tokens so far, in reverse, and what is pending. -/
structure Lexing where
  tokens : List Token
  pending : Pending
deriving DecidableEq, Repr

namespace Lexing

/-- Goes on between tokens. -/
def stepBetween (tokens : List Token) (c : Char) : Lexing :=
  match mark? c with
  | some t => ⟨t :: tokens, .nothing⟩
  | none =>
    match Quote.ofChar? c with
    | some quote => ⟨tokens, .opening quote false⟩
    | none => if c = '#' then ⟨tokens, .comment⟩ else ⟨tokens, .word [c]⟩

/-- Goes on in a string. -/
def stepString (tokens : List Token) (q : Quoting) (c : Char) : Option Lexing :=
  (q.step c).map fun
    | .goOn q => ⟨tokens, .string q⟩
    | .close text => ⟨.string q.long text :: tokens, .nothing⟩
    | .closed text => stepBetween (.string q.long text :: tokens) c

/-- Goes on by one character. -/
def step (s : Lexing) (c : Char) : Option Lexing :=
  match s.pending with
  | .nothing => some (stepBetween s.tokens c)
  | .comment =>
    if c = '\n' then some (stepBetween s.tokens c) else if isPlain c then some s else none
  | .word cs =>
    if c = ' ' ∧ isDate cs.reverse then some ⟨s.tokens, .date cs⟩
    else if endsWord c then some (stepBetween (.word cs.reverse :: s.tokens) c)
    else some ⟨s.tokens, .word (c :: cs)⟩
  | .date cs =>
    if isDigit c then some ⟨s.tokens, .word (c :: ' ' :: cs)⟩
    else some (stepBetween (.blank :: .word cs.reverse :: s.tokens) c)
  | .opening quote second =>
    if c = quote.char then
      if second then some ⟨s.tokens, .string ⟨quote, true, [], .first⟩⟩
      else some ⟨s.tokens, .opening quote true⟩
    else if second then some (stepBetween (.string false "" :: s.tokens) c)
    else stepString s.tokens ⟨quote, false, [], .inside⟩ c
  | .string q => stepString s.tokens q c

end Lexing

/-- The tokens of a document. -/
def tokens? (cs : List Char) : Option (List Token) := do
  let lines ← unifyLines? cs
  let s ← (lines ++ ['\n']).foldlM Lexing.step ⟨[], .nothing⟩
  match s.pending with
  | .nothing => some s.tokens.reverse
  | _ => none

end CorpusMark.Toml
