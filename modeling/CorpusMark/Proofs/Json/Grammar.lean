import CorpusMark.Json.Token
import CorpusMark.Json.Value
import CorpusMark.Proofs.NumberForms

/-!
# The JSON grammar

Which texts are JSON and which values they stand for, said without a reader.

- A character of a string can be written in several ways (`CharForm`): as it is, as
  an escape of one letter, or by the numbers of its UTF-16 units. Half a surrogate
  pair writes nothing.
- A text spells tokens (`Spells`), with blanks wherever there is no token.
- A value has one list of tokens (`Value.tokens`), so the texts of the value are
  those that spell it.

`Denotes` adds what a text may not exceed: numbers have to be in the range of
doubles, and there is a limit to how deep arrays and objects are nested.
-/

namespace CorpusMark.Json

/-! ## Forms in turn -/

/-- A text that consists of a form of each element, one behind the other. -/
inductive InTurn {α : Type} (R : α → List Char → Prop) : List α → List Char → Prop where
  | nil : InTurn R [] []
  | cons {x : α} {xs : List α} {part rest : List Char} (h : R x part) (hrest : InTurn R xs rest) :
    InTurn R (x :: xs) (part ++ rest)

namespace InTurn

variable {α : Type} {R : α → List Char → Prop} {xs ys : List α} {cs cs' : List Char}

theorem singleton {x : α} (h : R x cs) : InTurn R [x] cs := by
  have hturn := InTurn.cons h (.nil (R := R))
  rwa [List.append_nil] at hturn

theorem append (h : InTurn R xs cs) (h' : InTurn R ys cs') : InTurn R (xs ++ ys) (cs ++ cs') := by
  induction h with
  | nil => exact h'
  | cons h _ ih =>
    rw [List.cons_append, List.append_assoc]
    exact .cons h ih

theorem flatMap {f : α → List Char} (h : ∀ x, R x (f x)) (xs : List α) :
    InTurn R xs (xs.flatMap f) := by
  induction xs with
  | nil => exact .nil
  | cons x xs ih => exact .cons (h x) ih

theorem exists_of_append (h : InTurn R (xs ++ ys) cs) :
    ∃ front back, cs = front ++ back ∧ InTurn R xs front ∧ InTurn R ys back := by
  induction xs generalizing cs with
  | nil => exact ⟨[], cs, rfl, .nil, h⟩
  | cons x xs ih =>
    cases h with
    | @cons _ _ part rest h hrest =>
      obtain ⟨front, back, rfl, hfront, hback⟩ := ih hrest
      exact ⟨part ++ front, back, (List.append_assoc ..).symm, .cons h hfront, hback⟩

theorem map {β : Type} {S : β → List Char → Prop} {f : α → β} (h : InTurn R xs cs)
    (hform : ∀ x cs, R x cs → S (f x) cs) : InTurn S (xs.map f) cs := by
  induction h with
  | nil => exact .nil
  | cons h _ ih => exact .cons (hform _ _ h) ih

/-- The last element has a form of its own. -/
theorem exists_of_concat {x : α} (h : InTurn R (xs ++ [x]) cs) :
    ∃ front part, cs = front ++ part ∧ InTurn R xs front ∧ R x part := by
  obtain ⟨front, back, rfl, hfront, hback⟩ := h.exists_of_append
  cases hback with
  | cons hlast hnil =>
    cases hnil
    exact ⟨front, _, by rw [List.append_nil], hfront, hlast⟩

end InTurn

/-! ## Strings -/

/-- The letters that can be escaped, with the characters that they stand for. -/
def escapes : List (Char × Char) :=
  [('"', '"'), ('\\', '\\'), ('/', '/'), ('b', '\x08'), ('f', '\x0c'), ('n', '\n'), ('r', '\r'),
    ('t', '\t')]

/-- The hexadecimal digits, in small and in capital letters, with their values. -/
def hexDigits : List (Char × Nat) :=
  "0123456789abcdef".toList.zipIdx ++ "ABCDEF".toList.zipIdx 10

/-- The UTF-16 units of a character. -/
def utf16 (c : Char) : List Nat :=
  if c.toNat < 0x10000 then [c.toNat]
  else [0xd800 + (c.toNat - 0x10000) / 0x400, 0xdc00 + (c.toNat - 0x10000) % 0x400]

/-- How a UTF-16 unit is escaped. -/
inductive UnitForm : Nat → List Char → Prop where
  | mk {c₁ c₂ c₃ c₄ : Char} {d₁ d₂ d₃ d₄ : Nat} (h₁ : (c₁, d₁) ∈ hexDigits)
    (h₂ : (c₂, d₂) ∈ hexDigits) (h₃ : (c₃, d₃) ∈ hexDigits) (h₄ : (c₄, d₄) ∈ hexDigits) :
    UnitForm (16 * (16 * (16 * d₁ + d₂) + d₃) + d₄) ['\\', 'u', c₁, c₂, c₃, c₄]

/-- How a character is written in a string. -/
inductive CharForm (c : Char) : List Char → Prop where
  | plain (hquote : c ≠ '"') (hslash : c ≠ '\\') (hcontrol : 0x20 ≤ c.toNat) : CharForm c [c]
  | letter {e : Char} (h : (e, c) ∈ escapes) : CharForm c ['\\', e]
  | units {cs : List Char} (h : InTurn UnitForm (utf16 c) cs) : CharForm c cs

/-! ## Tokens -/

/-- The characters that separate tokens. -/
def blanks : List Char := [' ', '\n', '\t', '\r']

/-- The characters that are tokens by themselves. -/
def marks : List (Char × Token) :=
  [('[', .openArray), (']', .closeArray), ('{', .openObject), ('}', .closeObject), (',', .comma),
    (':', .colon)]

/-- Whether a character cannot be part of a word. -/
def IsDelimiter (c : Char) : Prop :=
  c ∈ blanks ∨ c = '"' ∨ c ∈ marks.map Prod.fst

instance (c : Char) : Decidable (IsDelimiter c) :=
  inferInstanceAs (Decidable (c ∈ blanks ∨ c = '"' ∨ c ∈ marks.map Prod.fst))

/-- How constants and numbers are written. -/
inductive WordForm : Token → List Char → Prop where
  | null : WordForm .null "null".toList
  | isTrue : WordForm (.bool true) "true".toList
  | isFalse : WordForm (.bool false) "false".toList
  | number {n : Numeral} {cs : List Char} (h : n.Form cs) : WordForm (.number cs) cs

/-- The text consists of the tokens, in their order and with blanks between them. A
word goes on as long as it can. -/
inductive Spells : List Char → List Token → Prop where
  | nil : Spells [] []
  | blank {c : Char} {cs : List Char} {ts : List Token} (hc : c ∈ blanks) (h : Spells cs ts) :
    Spells (c :: cs) ts
  | mark {c : Char} {m : Token} {cs : List Char} {ts : List Token} (hm : (c, m) ∈ marks)
    (h : Spells cs ts) : Spells (c :: cs) (m :: ts)
  | word {w : List Char} {t : Token} {cs : List Char} {ts : List Token} (hw : WordForm t w)
    (hend : ∀ c ∈ cs.head?, IsDelimiter c) (h : Spells cs ts) : Spells (w ++ cs) (t :: ts)
  | string {s : String} {inside cs : List Char} {ts : List Token}
    (hs : InTurn CharForm s.toList inside) (h : Spells cs ts) :
    Spells ('"' :: inside ++ '"' :: cs) (.string (some s) :: ts)

/-! ## Values -/

mutual

/-- The tokens of a value. -/
def Value.tokens : Value → List Token
  | .null => [.null]
  | .bool b => [.bool b]
  | .number text => [.number text]
  | .string text => [.string text]
  | .array items => .openArray :: [.comma].intercalate (itemTokens items) ++ [.closeArray]
  | .object members => .openObject :: [.comma].intercalate (memberTokens members) ++ [.closeObject]

/-- The tokens of each item of a list. -/
def itemTokens : List Value → List (List Token)
  | [] => []
  | v :: vs => v.tokens :: itemTokens vs

/-- The tokens of each member of an object. -/
def memberTokens : List (Option String × Value) → List (List Token)
  | [] => []
  | (k, v) :: rest => (.string k :: .colon :: v.tokens) :: memberTokens rest

end

mutual

/-- How many arrays and objects there are inside one another at most. -/
def Value.nesting : Value → Nat
  | .array items => itemNesting items + 1
  | .object members => memberNesting members + 1
  | _ => 0

/-- The greatest nesting of the items of a list. -/
def itemNesting : List Value → Nat
  | [] => 0
  | v :: vs => max v.nesting (itemNesting vs)

/-- The greatest nesting of the members of an object. -/
def memberNesting : List (Option String × Value) → Nat
  | [] => 0
  | (_, v) :: rest => max v.nesting (memberNesting rest)

end

/-- The text is JSON and stands for the value. Numbers of the value are in the range of
doubles, and it is nested no deeper than 127 levels. -/
structure Denotes (text : String) (v : Value) : Prop where
  spells : Spells text.toList v.tokens
  in_range : ∀ digits, .number digits ∈ v.tokens →
    ∃ n : Numeral, n.Form digits ∧ n.toDouble?.isSome = true
  nesting_le : v.nesting ≤ 127

end CorpusMark.Json
