/-!
# Texts by byte offset

Positions in source code are byte offsets into the UTF-8 form of a text. `cut?` splits a text at
such an offset; it has no answer past the end or inside a character. Everything that reads or
replaces a range of a text is built on it, and `cut?_eq_some_iff` says what it means: the two
parts make up the text and the first has exactly the asked number of bytes.
-/

namespace CorpusMark.Text

/-- Number of bytes that a list of characters takes in UTF-8. -/
def byteLength : List Char → Nat
  | [] => 0
  | c :: cs => c.utf8Size + byteLength cs

@[simp] theorem byteLength_nil : byteLength [] = 0 := rfl

@[simp] theorem byteLength_cons (c : Char) (cs : List Char) :
    byteLength (c :: cs) = c.utf8Size + byteLength cs := rfl

@[simp] theorem byteLength_append (a b : List Char) :
    byteLength (a ++ b) = byteLength a + byteLength b := by
  induction a with
  | nil => simp
  | cons c a ih => simp [ih, Nat.add_assoc]

/-- Cuts a text after `n` bytes, if `n` is the end of a character or the start of the text. -/
def cut? : List Char → Nat → Option (List Char × List Char)
  | cs, 0 => some ([], cs)
  | [], _ + 1 => none
  | c :: cs, n + 1 =>
    if c.utf8Size ≤ n + 1 then
      (cut? cs (n + 1 - c.utf8Size)).map fun (before, after) => (c :: before, after)
    else none

@[simp] theorem cut?_zero (cs : List Char) : cut? cs 0 = some ([], cs) := by
  cases cs <;> simp [cut?]

theorem cut?_cons {c : Char} {cs : List Char} {n : Nat} (h : 0 < n) :
    cut? (c :: cs) n =
      if c.utf8Size ≤ n then
        (cut? cs (n - c.utf8Size)).map fun (before, after) => (c :: before, after)
      else none := by
  cases n with
  | zero => omega
  | succ n => simp [cut?]

/-- A cut gives the two parts of the text, the first one as long as asked. -/
theorem cut?_eq_some_iff {cs : List Char} {n : Nat} {before after : List Char} :
    cut? cs n = some (before, after) ↔ cs = before ++ after ∧ byteLength before = n := by
  induction cs generalizing n before with
  | nil =>
    cases n with
    | zero => cases before <;> simp [cut?, eq_comm]
    | succ n =>
      simp only [cut?, reduceCtorEq, false_iff, not_and]
      intro h
      cases before with
      | nil => simp
      | cons => simp at h
  | cons c cs ih =>
    rcases Nat.eq_zero_or_pos n with rfl | hn
    · cases before with
      | nil => simp [eq_comm]
      | cons b bs =>
        have := b.utf8Size_pos
        simp [byteLength_cons]
        omega
    · rw [cut?_cons hn]
      cases before with
      | nil => simp; omega
      | cons b bs =>
        have := c.utf8Size_pos
        split
        · rename_i hle
          simp only [Option.map_eq_some_iff, Prod.exists, Prod.mk.injEq, List.cons.injEq,
            List.cons_append, byteLength_cons]
          constructor
          · rintro ⟨a, d, hcut, ⟨rfl, rfl⟩, rfl⟩
            obtain ⟨rfl, hlen⟩ := ih.1 hcut
            exact ⟨⟨rfl, rfl⟩, by omega⟩
          · rintro ⟨⟨rfl, rfl⟩, hlen⟩
            exact ⟨bs, after, ih.2 ⟨rfl, by omega⟩, ⟨rfl, rfl⟩, rfl⟩
        · simp only [reduceCtorEq, List.cons_append, List.cons.injEq, byteLength_cons,
            false_iff, not_and]
          rintro ⟨rfl, -⟩
          omega

/-- Whether a text can be cut after `n` bytes. -/
def isBoundary (cs : List Char) (n : Nat) : Bool :=
  (cut? cs n).isSome

/-- The characters from byte `start` up to byte `stop`, if both can be cut at. -/
def range? (cs : List Char) (start stop : Nat) : Option (List Char) :=
  if start ≤ stop then do
    let (_, rest) ← cut? cs start
    let (mid, _) ← cut? rest (stop - start)
    some mid
  else none

/-- The part of a text from byte `start` up to byte `stop`. -/
def slice? (s : String) (start stop : Nat) : Option String :=
  (range? s.toList start stop).map String.ofList

end CorpusMark.Text
