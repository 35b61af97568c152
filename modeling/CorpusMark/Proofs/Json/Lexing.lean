import CorpusMark.Proofs.Json.Grammar
import Mathlib

/-!
# Tokens of texts

The pass over the characters of a text finds the tokens that the text spells
(`tokens?_eq_some_iff`), as long as no string holds half a surrogate pair. `run` is
what the pass comes to from a state on. In each state that is not between two tokens
it reads on to the end of the token that is pending, and the text up to there has the
form of the token.
-/

namespace CorpusMark.Json

/-! ## Passes -/

section Passes

variable {α σ : Type} {step : σ → α → Option σ} {s s' : σ} {xs ys : List α}

/-- A pass goes on behind an element from where the element has taken it. -/
theorem foldlM_cons_of_eq_some {x : α} (h : step s x = some s') :
    (x :: xs).foldlM step s = xs.foldlM step s' := by
  rw [List.foldlM_cons, h, Option.bind_eq_bind, Option.bind_some]

theorem foldlM_append_of_eq_some (h : xs.foldlM step s = some s') :
    (xs ++ ys).foldlM step s = ys.foldlM step s' := by
  rw [List.foldlM_append, h, Option.bind_eq_bind, Option.bind_some]

end Passes

/-! ## Characters -/

theorem isSpace_iff {c : Char} : isSpace c = true ↔ c ∈ blanks := by
  simp [isSpace, blanks, or_assoc]

theorem mark?_eq_some_iff {c : Char} {m : Token} : mark? c = some m ↔ (c, m) ∈ marks := by
  constructor
  · intro h
    unfold mark? at h
    split at h
    all_goals cases h
    all_goals decide
  · intro h
    simp only [marks, List.mem_cons, Prod.mk.injEq, List.not_mem_nil, or_false] at h
    rcases h with ⟨rfl, rfl⟩ | ⟨rfl, rfl⟩ | ⟨rfl, rfl⟩ | ⟨rfl, rfl⟩ | ⟨rfl, rfl⟩ | ⟨rfl, rfl⟩ <;> rfl

theorem isSome_mark?_iff {c : Char} : (mark? c).isSome = true ↔ c ∈ marks.map Prod.fst := by
  rw [Option.isSome_iff_exists]
  simp only [mark?_eq_some_iff, List.mem_map, Prod.exists, exists_and_right, exists_eq_right]

/-- What ends a word in the pass is a delimiter. -/
theorem endsWord_iff {c : Char} :
    (isSpace c || c == '"' || (mark? c).isSome) = true ↔ IsDelimiter c := by
  rw [Bool.or_eq_true, Bool.or_eq_true, isSpace_iff, beq_iff_eq, isSome_mark?_iff, or_assoc,
    IsDelimiter]

theorem escaped?_eq_some_iff {e c : Char} : escaped? e = some c ↔ (e, c) ∈ escapes := by
  constructor
  · intro h
    unfold escaped? at h
    split at h
    all_goals cases h
    all_goals decide
  · intro h
    simp only [escapes, List.mem_cons, Prod.mk.injEq, List.not_mem_nil, or_false] at h
    rcases h with ⟨rfl, rfl⟩ | ⟨rfl, rfl⟩ | ⟨rfl, rfl⟩ | ⟨rfl, rfl⟩ | ⟨rfl, rfl⟩ | ⟨rfl, rfl⟩ |
      ⟨rfl, rfl⟩ | ⟨rfl, rfl⟩ <;> rfl

theorem hexDigit?_eq_some_iff {c : Char} {d : Nat} :
    hexDigit? c = some d ↔ (c, d) ∈ hexDigits := by
  constructor
  · intro h
    have hle : c ≤ 'f' := by
      unfold hexDigit? digit? at h
      split_ifs at h with hsmall hcapital hdigit
      · exact hsmall.2
      · exact Char.le_trans hcapital.2 (by decide)
      · exact Char.le_trans hdigit.2 (by decide)
    have hascii : c.toNat < 128 := Nat.lt_of_le_of_lt (show c.toNat ≤ 'f'.toNat from hle) (by decide)
    have hall : ∀ n ∈ List.range 128, ((hexDigit? (Char.ofNat n)).all fun k =>
        (Char.ofNat n, k) ∈ hexDigits) = true :=
      List.all_eq_true.mp (by decide +kernel)
    have hdigit := hall c.toNat (List.mem_range.mpr hascii)
    rw [Char.ofNat_toNat, h] at hdigit
    exact of_decide_eq_true hdigit
  · intro h
    have hall : ∀ x ∈ hexDigits, (hexDigit? x.1 == some x.2) = true :=
      List.all_eq_true.mp (by decide +kernel)
    exact eq_of_beq (hall (c, d) h)

/-! ## Words -/

theorem WordForm.chars {t : Token} {w : List Char} (h : WordForm t w) :
    w ≠ [] ∧ ∀ c ∈ w, ¬ IsDelimiter c := by
  have hconstant : ∀ word : List Char, (word.all fun c => !decide (IsDelimiter c)) = true →
      ∀ c ∈ word, ¬ IsDelimiter c :=
    fun word h c hc => by simpa using List.all_eq_true.mp h c hc
  cases h with
  | null | isTrue | isFalse => exact ⟨by decide, hconstant _ (by decide)⟩
  | number h =>
    obtain ⟨hne, hchars⟩ := h.isNumberChar
    refine ⟨hne, fun c hc hdelimiter => ?_⟩
    have hall : ∀ d ∈ blanks ++ '"' :: marks.map Prod.fst, (!Numeral.isNumberChar d) = true :=
      List.all_eq_true.mp (by decide)
    have hno := hall c (by simpa [IsDelimiter] using hdelimiter)
    rw [hchars c hc] at hno
    cases hno

theorem wordToken?_eq_some_iff {w : List Char} {t : Token} :
    wordToken? w = some t ↔ WordForm t w := by
  constructor
  · intro h
    unfold wordToken? at h
    split_ifs at h with hnull htrue hfalse
    · cases h
      exact hnull ▸ .null
    · cases h
      exact htrue ▸ .isTrue
    · cases h
      exact hfalse ▸ .isFalse
    · obtain ⟨n, hn, rfl⟩ := Option.map_eq_some_iff.mp h
      exact .number (Numeral.parse?_eq_some_iff.mp hn)
  · intro h
    cases h with
    | null | isTrue | isFalse => rfl
    | @number n _ h =>
      have hread := Numeral.parse?_eq_some_iff.mpr h
      -- the constants hold letters that no number holds
      have hother : ∀ word : String, (∃ c ∈ word.toList, Numeral.isNumberChar c = false) →
          w ≠ word.toList := by
        rintro word ⟨c, hc, hno⟩ rfl
        rw [h.isNumberChar.2 c hc] at hno
        cases hno
      rw [wordToken?, if_neg (hother "null" ⟨'n', by decide⟩),
        if_neg (hother "true" ⟨'t', by decide⟩), if_neg (hother "false" ⟨'f', by decide⟩), hread]
      rfl

/-! ## Strings

The pass keeps a string as pieces, the last one first. A piece is a character or a UTF-16
unit, and only the end of the string decides which units are a character. -/

/-- How a piece is written. -/
inductive PieceForm : Piece → List Char → Prop where
  | plain {c : Char} (hquote : c ≠ '"') (hslash : c ≠ '\\') (hcontrol : 0x20 ≤ c.toNat) :
    PieceForm (.char c) [c]
  | letter {e c : Char} (h : (e, c) ∈ escapes) : PieceForm (.char c) ['\\', e]
  | unit {n : Nat} {cs : List Char} (h : UnitForm n cs) : PieceForm (.unit n) cs

theorem PieceForm.charForm {c : Char} {cs : List Char} (h : PieceForm (.char c) cs) :
    CharForm c cs := by
  cases h with
  | plain hquote hslash hcontrol => exact .plain hquote hslash hcontrol
  | letter h => exact .letter h

theorem PieceForm.unitForm {n : Nat} {cs : List Char} (h : PieceForm (.unit n) cs) :
    UnitForm n cs := by
  cases h with
  | unit h => exact h

theorem UnitForm.lt {n : Nat} {cs : List Char} (h : UnitForm n cs) : n < 0x10000 := by
  have hdigit : ∀ x ∈ hexDigits, x.2 < 16 := by
    intro x hx
    have hall := List.all_eq_true.mp
      (show (hexDigits.all fun x => decide (x.2 < 16)) = true by decide +kernel) x hx
    exact of_decide_eq_true hall
  cases h with
  | mk h₁ h₂ h₃ h₄ =>
    have := hdigit _ h₁
    have := hdigit _ h₂
    have := hdigit _ h₃
    have := hdigit _ h₄
    omega

/-! ### Units and characters -/

/-- The number of a character is not that of half a surrogate pair. -/
theorem not_surrogate (c : Char) : isLowUnit c.toNat = false ∧ isHighUnit c.toNat = false := by
  have hvalid : c.toNat < 0xd800 ∨ 0xdfff < c.toNat ∧ c.toNat < 0x110000 := c.valid
  constructor
  · simp only [isLowUnit, Bool.and_eq_false_iff, decide_eq_false_iff_not]
    omega
  · simp only [isHighUnit, Bool.and_eq_false_iff, decide_eq_false_iff_not]
    omega

/-- A number that is not half a surrogate pair is that of a character. -/
theorem utf16_ofNat {n : Nat} (hlt : n < 0x10000) (hlow : isLowUnit n = false)
    (hhigh : isHighUnit n = false) : utf16 (Char.ofNat n) = [n] := by
  have hvalid : n.isValidChar := by
    simp only [isLowUnit, isHighUnit, Bool.and_eq_false_iff, decide_eq_false_iff_not] at hlow hhigh
    unfold Nat.isValidChar
    omega
  have hnat : (Char.ofNat n).toNat = n := by
    rw [Char.toNat_ofNat, if_pos hvalid]
  rw [utf16, hnat, if_pos hlt]

/-- The character of a surrogate pair has the pair as its units. -/
theorem utf16_pair {high low : Nat} (hhigh : isHighUnit high = true) (hlow : isLowUnit low = true) :
    utf16 (Char.ofNat (0x10000 + (high - 0xd800) * 0x400 + (low - 0xdc00))) = [high, low] := by
  simp only [isHighUnit, isLowUnit, Bool.and_eq_true, decide_eq_true_eq] at hhigh hlow
  have hvalid : (0x10000 + (high - 0xd800) * 0x400 + (low - 0xdc00)).isValidChar := by
    unfold Nat.isValidChar
    omega
  have hhigher : 0x10000 + (high - 0xd800) * 0x400 + (low - 0xdc00) - 0x10000
      = 0x400 * (high - 0xd800) + (low - 0xdc00) := by
    omega
  rw [utf16, Char.toNat_ofNat, if_pos hvalid, if_neg (by omega), hhigher,
    Nat.mul_add_div (by decide), Nat.mul_add_mod, Nat.div_eq_of_lt (by omega),
    Nat.mod_eq_of_lt (by omega), Nat.add_zero, Nat.add_sub_cancel' hhigh.1,
    Nat.add_sub_cancel' hlow.1]

theorem joinPieces_unit {n : Nat} (hlow : isLowUnit n = false) (hhigh : isHighUnit n = false)
    (before : List Piece) (after : List Char) :
    joinPieces (.unit n :: before) after = joinPieces before (Char.ofNat n :: after) := by
  cases before with
  | nil => simp [joinPieces, hlow, hhigh]
  | cons p rest => cases p <;> simp [joinPieces, hlow, hhigh]

theorem joinPieces_utf16 (c : Char) (before : List Piece) (after : List Char) :
    joinPieces (((utf16 c).map Piece.unit).reverse ++ before) after
      = joinPieces before (c :: after) := by
  by_cases hlt : c.toNat < 0x10000
  · obtain ⟨hlow, hhigh⟩ := not_surrogate c
    rw [utf16, if_pos hlt]
    show joinPieces (.unit c.toNat :: before) after = _
    rw [joinPieces_unit hlow hhigh, Char.ofNat_toNat]
  · have hbound : c.toNat < 0x110000 := by
      have hvalid : c.toNat < 0xd800 ∨ 0xdfff < c.toNat ∧ c.toNat < 0x110000 := c.valid
      omega
    have hlow : isLowUnit (0xdc00 + (c.toNat - 0x10000) % 0x400) = true := by
      simp only [isLowUnit, Bool.and_eq_true, decide_eq_true_eq]
      omega
    have hhigh : isHighUnit (0xd800 + (c.toNat - 0x10000) / 0x400) = true := by
      simp only [isHighUnit, Bool.and_eq_true, decide_eq_true_eq]
      omega
    have hnat : 0x10000 + (0xd800 + (c.toNat - 0x10000) / 0x400 - 0xd800) * 0x400
        + (0xdc00 + (c.toNat - 0x10000) % 0x400 - 0xdc00) = c.toNat := by
      omega
    rw [utf16, if_neg hlt]
    show joinPieces (.unit _ :: .unit _ :: before) after = _
    rw [joinPieces, if_pos hlow, if_pos hhigh]
    show joinPieces before (Char.ofNat _ :: after) = _
    rw [hnat, Char.ofNat_toNat]

/-- However a character is written, the pieces of its form are joined to it. -/
theorem exists_pieces_of_charForm {c : Char} {cs : List Char} (h : CharForm c cs) :
    ∃ ps, InTurn PieceForm ps cs ∧ ∀ before after,
      joinPieces (ps.reverse ++ before) after = joinPieces before (c :: after) := by
  cases h with
  | plain hquote hslash hcontrol =>
    exact ⟨[.char c], .singleton (.plain hquote hslash hcontrol), fun _ _ => rfl⟩
  | letter h => exact ⟨[.char c], .singleton (.letter h), fun _ _ => rfl⟩
  | units h => exact ⟨_, h.map fun _ _ => .unit, joinPieces_utf16 c⟩

theorem exists_pieces {cs inside : List Char} (h : InTurn CharForm cs inside) :
    ∃ ps, InTurn PieceForm ps inside ∧ ∀ before after,
      joinPieces (ps.reverse ++ before) after = joinPieces before (cs ++ after) := by
  induction h with
  | nil => exact ⟨[], .nil, fun _ _ => rfl⟩
  | cons h _ ih =>
    obtain ⟨front, hfront, hfront'⟩ := exists_pieces_of_charForm h
    obtain ⟨back, hback, hback'⟩ := ih
    refine ⟨front ++ back, hfront.append hback, fun before after => ?_⟩
    rw [List.reverse_append, List.append_assoc, hback', hfront', List.cons_append]

theorem PieceForm.charForm_ofNat {n : Nat} {cs : List Char} (hlow : isLowUnit n = false)
    (hhigh : isHighUnit n = false) (h : PieceForm (.unit n) cs) : CharForm (Char.ofNat n) cs := by
  refine .units ?_
  rw [utf16_ofNat h.unitForm.lt hlow hhigh]
  exact .singleton h.unitForm

/-- Pieces that can be joined are written like the characters that they are joined to. -/
theorem exists_chars {reversed : List Piece} {after out inside : List Char}
    (h : joinPieces reversed after = some out) (hform : InTurn PieceForm reversed.reverse inside) :
    ∃ cs, out = cs ++ after ∧ InTurn CharForm cs inside := by
  -- a piece that is a character comes behind those of the others
  have hsnoc : ∀ {c : Char} {after front part : List Char},
      (∃ cs, out = cs ++ c :: after ∧ InTurn CharForm cs front) → CharForm c part →
        ∃ cs, out = cs ++ after ∧ InTurn CharForm cs (front ++ part) := by
    rintro c after front part ⟨cs, rfl, hcs⟩ hpart
    exact ⟨cs ++ [c], by simp, hcs.append (.singleton hpart)⟩
  fun_induction joinPieces reversed after generalizing inside with
  | case1 after =>
    cases hform
    cases h
    exact ⟨[], rfl, .nil⟩
  | case2 c rest after ih =>
    rw [List.reverse_cons] at hform
    obtain ⟨front, part, rfl, hfront, hpart⟩ := hform.exists_of_concat
    exact hsnoc (ih h hfront) hpart.charForm
  | case3 low high rest after hlow hhigh n =>
    rename_i ih
    rw [List.reverse_cons, List.reverse_cons] at hform
    obtain ⟨front, second, rfl, hfront, hsecond⟩ := hform.exists_of_concat
    obtain ⟨front, first, rfl, hfront, hfirst⟩ := hfront.exists_of_concat
    rw [List.append_assoc]
    refine hsnoc (ih h hfront) (.units ?_)
    rw [utf16_pair hhigh hlow]
    exact (InTurn.singleton hfirst.unitForm).append (.singleton hsecond.unitForm)
  | case4 | case5 | case7 => cases h
  | case6 low high rest after hlow hhigh ih =>
    rw [List.reverse_cons] at hform
    obtain ⟨front, part, rfl, hfront, hpart⟩ := hform.exists_of_concat
    exact hsnoc (ih h hfront)
      (hpart.charForm_ofNat (Bool.not_eq_true _ ▸ hlow) (Bool.not_eq_true _ ▸ hhigh))
  | case8 n rest after _ hsurrogate ih =>
    rw [Bool.or_eq_true, not_or, Bool.not_eq_true, Bool.not_eq_true] at hsurrogate
    rw [List.reverse_cons] at hform
    obtain ⟨front, part, rfl, hfront, hpart⟩ := hform.exists_of_concat
    exact hsnoc (ih h hfront) (hpart.charForm_ofNat hsurrogate.1 hsurrogate.2)

/-! ## The pass -/

namespace Lexing

/-- The tokens at the end of a text, from a state on. -/
def run (s : Lexing) (cs : List Char) : Option (List Token) :=
  (cs.foldlM step s).bind finish?

variable {s s' : Lexing} {tokens out : List Token} {before : List Piece} {front cs : List Char}

theorem run_cons_of_step {c : Char} (h : s.step c = some s') : s.run (c :: cs) = s'.run cs := by
  rw [run, run, foldlM_cons_of_eq_some h]

theorem run_append_of_foldlM {cs' : List Char} (h : cs.foldlM step s = some s') :
    s.run (cs ++ cs') = s'.run cs' := by
  rw [run, run, foldlM_append_of_eq_some h]

theorem exists_step_of_run_cons {c : Char} (h : s.run (c :: cs) = some out) :
    ∃ s', s.step c = some s' ∧ s'.run cs = some out := by
  rw [run, List.foldlM_cons, Option.bind_eq_bind, Option.bind_assoc] at h
  exact Option.bind_eq_some_iff.mp h

/-- Where a text cannot end, there is another character. -/
theorem exists_step_of_run (hfinish : s.finish? = none) (h : s.run cs = some out) :
    ∃ c rest s', cs = c :: rest ∧ s.step c = some s' ∧ s'.run rest = some out := by
  cases cs with
  | nil =>
    have hout : s.finish? = some out := h
    rw [hfinish] at hout
    cases hout
  | cons c rest =>
    obtain ⟨s', hstep, hrun⟩ := exists_step_of_run_cons h
    exact ⟨c, rest, s', rfl, hstep, hrun⟩

/-! ### Between tokens -/

theorem stepBetween_blank {c : Char} (hc : c ∈ blanks) :
    stepBetween tokens c = ⟨tokens, .nothing⟩ :=
  if_pos (isSpace_iff.mpr hc)

theorem stepBetween_mark {c : Char} {m : Token} (hm : (c, m) ∈ marks) :
    stepBetween tokens c = ⟨m :: tokens, .nothing⟩ := by
  have hmark := mark?_eq_some_iff.mpr hm
  have hspace : isSpace c = false := by
    unfold mark? at hmark
    split at hmark <;> first | rfl | cases hmark
  have hquote : c ≠ '"' := by
    rintro rfl
    cases hmark
  rw [stepBetween, hspace, if_neg Bool.false_ne_true, if_neg hquote, hmark]

theorem stepBetween_word {c : Char} (hc : ¬ IsDelimiter c) :
    stepBetween tokens c = ⟨tokens, .word [c]⟩ := by
  rw [← endsWord_iff, Bool.or_eq_true, Bool.or_eq_true, not_or, not_or, Bool.not_eq_true,
    beq_iff_eq, Bool.not_eq_true, Option.isSome_eq_false_iff, Option.isNone_iff_eq_none] at hc
  obtain ⟨⟨hspace, hquote⟩, hmark⟩ := hc
  rw [stepBetween, hspace, if_neg Bool.false_ne_true, if_neg hquote, hmark]

/-! ### Words -/

/-- The pass reads on to the end of a word, which is a token. -/
theorem exists_of_run_word (h : run ⟨tokens, .word front⟩ cs = some out) :
    ∃ back rest t, cs = back ++ rest ∧ WordForm t (front.reverse ++ back) ∧
      (∀ c ∈ rest.head?, IsDelimiter c) ∧ run ⟨t :: tokens, .nothing⟩ rest = some out := by
  induction cs generalizing front with
  | nil =>
    obtain ⟨t, ht, hout⟩ := Option.map_eq_some_iff.mp
      (show (wordToken? front.reverse).map (fun t => (t :: tokens).reverse) = some out from h)
    refine ⟨[], [], t, rfl, ?_, by simp, congrArg some hout⟩
    rw [List.append_nil]
    exact wordToken?_eq_some_iff.mp ht
  | cons c cs ih =>
    obtain ⟨s', hstep, hrun⟩ := exists_step_of_run_cons h
    simp only [step] at hstep
    split_ifs at hstep with hends
    · obtain ⟨t, ht, rfl⟩ := Option.map_eq_some_iff.mp hstep
      refine ⟨[], c :: cs, t, rfl, ?_, ?_, ?_⟩
      · rw [List.append_nil]
        exact wordToken?_eq_some_iff.mp ht
      · intro d hd
        cases hd
        exact endsWord_iff.mp hends
      · rwa [run_cons_of_step rfl]
    · cases hstep
      obtain ⟨back, rest, t, rfl, hword, hend, hrest⟩ := ih hrun
      exact ⟨c :: back, rest, t, rfl, by simpa using hword, hend, hrest⟩

/-- A word grows by what is no delimiter. -/
theorem foldlM_word (h : ∀ c ∈ cs, ¬ IsDelimiter c) :
    cs.foldlM step ⟨tokens, .word front⟩ = some ⟨tokens, .word (cs.reverse ++ front)⟩ := by
  induction cs generalizing front with
  | nil => rfl
  | cons c cs ih =>
    rw [List.forall_mem_cons, ← endsWord_iff] at h
    have hstep : step ⟨tokens, .word front⟩ c = some ⟨tokens, .word (c :: front)⟩ := if_neg h.1
    rw [foldlM_cons_of_eq_some hstep, ih h.2]
    simp

/-- A word that is a token ends as the token. -/
theorem run_word {w : List Char} {t : Token} (hw : WordForm t w)
    (hend : ∀ c ∈ cs.head?, IsDelimiter c) :
    run ⟨tokens, .nothing⟩ (w ++ cs) = run ⟨t :: tokens, .nothing⟩ cs := by
  have hpending : run ⟨tokens, .word w.reverse⟩ cs = run ⟨t :: tokens, .nothing⟩ cs := by
    have ht : wordToken? w.reverse.reverse = some t := by
      rw [List.reverse_reverse]
      exact wordToken?_eq_some_iff.mpr hw
    cases cs with
    | nil =>
      show (wordToken? w.reverse.reverse).map (fun t => (t :: tokens).reverse) = _
      rw [ht]
      rfl
    | cons c cs =>
      have hstep : step ⟨tokens, .word w.reverse⟩ c = some (stepBetween (t :: tokens) c) :=
        (if_pos (endsWord_iff.mpr (hend c rfl))).trans (by rw [ht]; rfl)
      rw [run_cons_of_step hstep, run_cons_of_step rfl]
  obtain ⟨hne, hchars⟩ := hw.chars
  obtain ⟨c, w, rfl⟩ := List.exists_cons_of_ne_nil hne
  rw [List.forall_mem_cons] at hchars
  have hstep : step ⟨tokens, .nothing⟩ c = some ⟨tokens, .word [c]⟩ :=
    congrArg some (stepBetween_word hchars.1)
  rw [List.cons_append, run_cons_of_step hstep, run_append_of_foldlM (foldlM_word hchars.2),
    ← List.reverse_cons, hpending]

/-! ### Strings -/

/-- The pass reads the form of a piece as the piece. -/
theorem foldlM_piece {p : Piece} (h : PieceForm p cs) :
    cs.foldlM step ⟨tokens, .string before⟩ = some ⟨tokens, .string (p :: before)⟩ := by
  cases h with
  | plain hquote hslash hcontrol => simp [step, hquote, hslash, Nat.not_lt.mpr hcontrol]
  | @letter e c h =>
    have he := escaped?_eq_some_iff.mpr h
    have hu : e ≠ 'u' := by
      rintro rfl
      cases he
    simp [step, hu, he]
  | unit h =>
    cases h with
    | mk h₁ h₂ h₃ h₄ =>
      rw [← hexDigit?_eq_some_iff] at h₁ h₂ h₃ h₄
      simp [step, h₁, h₂, h₃, h₄]

theorem foldlM_pieces {ps : List Piece} (h : InTurn PieceForm ps cs) :
    cs.foldlM step ⟨tokens, .string before⟩ = some ⟨tokens, .string (ps.reverse ++ before)⟩ := by
  induction h generalizing before with
  | nil => rfl
  | cons h _ ih => rw [foldlM_append_of_eq_some (foldlM_piece h), ih]; simp

/-- The pass reads four hexadecimal digits, one at a time. -/
theorem exists_of_run_hex {value count : Nat}
    (h : run ⟨tokens, .hex before value count⟩ cs = some out) :
    ∃ c d rest, cs = c :: rest ∧ (c, d) ∈ hexDigits ∧
      run (if count = 3 then ⟨tokens, .string (.unit (16 * value + d) :: before)⟩
        else ⟨tokens, .hex before (16 * value + d) (count + 1)⟩) rest = some out := by
  obtain ⟨c, rest, s', rfl, hstep, hrun⟩ := exists_step_of_run rfl h
  obtain ⟨d, hd, rfl⟩ := Option.map_eq_some_iff.mp hstep
  exact ⟨c, d, rest, rfl, hexDigit?_eq_some_iff.mp hd, hrun⟩

/-- Behind a backslash the pass reads the rest of an escape. -/
theorem exists_of_run_escape (h : run ⟨tokens, .escape before⟩ cs = some out) :
    ∃ p part rest, cs = part ++ rest ∧ PieceForm p ('\\' :: part) ∧
      run ⟨tokens, .string (p :: before)⟩ rest = some out := by
  obtain ⟨e, rest, s', rfl, hstep, hrun⟩ := exists_step_of_run rfl h
  simp only [step] at hstep
  split_ifs at hstep with hu
  · cases hstep
    obtain ⟨c₁, d₁, rest, rfl, h₁, hrun⟩ := exists_of_run_hex hrun
    obtain ⟨c₂, d₂, rest, rfl, h₂, hrun⟩ := exists_of_run_hex hrun
    obtain ⟨c₃, d₃, rest, rfl, h₃, hrun⟩ := exists_of_run_hex hrun
    obtain ⟨c₄, d₄, rest, rfl, h₄, hrun⟩ := exists_of_run_hex hrun
    refine ⟨_, ['u', c₁, c₂, c₃, c₄], rest, by rw [hu]; rfl, .unit (.mk h₁ h₂ h₃ h₄), ?_⟩
    simpa using hrun
  · obtain ⟨c, he, rfl⟩ := Option.map_eq_some_iff.mp hstep
    exact ⟨.char c, [e], rest, rfl, .letter (escaped?_eq_some_iff.mp he), hrun⟩

/-- In a string the pass reads the quote at the end or a piece. -/
theorem exists_piece_of_run (h : run ⟨tokens, .string before⟩ cs = some out) :
    (∃ rest, cs = '"' :: rest ∧
      run ⟨.string ((joinPieces before []).map String.ofList) :: tokens, .nothing⟩ rest
        = some out) ∨
    ∃ p part rest, cs = part ++ rest ∧ part ≠ [] ∧ PieceForm p part ∧
      run ⟨tokens, .string (p :: before)⟩ rest = some out := by
  obtain ⟨c, rest, s', rfl, hstep, hrun⟩ := exists_step_of_run rfl h
  simp only [step] at hstep
  split_ifs at hstep with hquote hslash hcontrol
  · cases hstep
    exact .inl ⟨rest, by rw [hquote], hrun⟩
  · cases hstep
    obtain ⟨p, part, rest, rfl, hp, hrun⟩ := exists_of_run_escape hrun
    exact .inr ⟨p, '\\' :: part, rest, by rw [hslash]; rfl, List.cons_ne_nil _ _, hp, hrun⟩
  · cases hstep
    exact .inr ⟨.char c, [c], rest, rfl, List.cons_ne_nil _ _,
      .plain hquote hslash (Nat.le_of_not_lt hcontrol), hrun⟩

/-- The pass reads one piece after the other, up to the quote behind them. -/
theorem exists_of_run_string (h : run ⟨tokens, .string before⟩ cs = some out) :
    ∃ inside rest ps, cs = inside ++ '"' :: rest ∧ InTurn PieceForm ps inside ∧
      run ⟨.string ((joinPieces (ps.reverse ++ before) []).map String.ofList) :: tokens,
        .nothing⟩ rest = some out := by
  induction hlen : cs.length using Nat.strongRecOn generalizing cs before with
  | ind n ih =>
    subst hlen
    rcases exists_piece_of_run h with ⟨rest, rfl, hrun⟩ | ⟨p, part, rest, rfl, hne, hp, hrun⟩
    · exact ⟨[], rest, [], rfl, .nil, hrun⟩
    · -- behind a piece the rest is shorter
      have hlt : rest.length < (part ++ rest).length := by
        rw [List.length_append]
        exact Nat.lt_add_of_pos_left (List.length_pos_iff.mpr hne)
      obtain ⟨inside, rest, ps, rfl, hps, hrun⟩ := ih _ hlt hrun rfl
      exact ⟨part ++ inside, rest, p :: ps, by simp, .cons hp hps, by simpa using hrun⟩

/-- A string that is written is read. -/
theorem run_string {s : String} {inside : List Char} (hs : InTurn CharForm s.toList inside) :
    run ⟨tokens, .nothing⟩ ('"' :: inside ++ '"' :: cs)
      = run ⟨.string (some s) :: tokens, .nothing⟩ cs := by
  obtain ⟨ps, hps, hjoin⟩ := exists_pieces hs
  have htext : joinPieces (ps.reverse ++ []) [] = some s.toList := by
    rw [hjoin, List.append_nil, joinPieces]
  have hopen : step ⟨tokens, .nothing⟩ '"' = some ⟨tokens, .string []⟩ := rfl
  have hclose : step ⟨tokens, .string (ps.reverse ++ [])⟩ '"'
      = some ⟨.string (some s) :: tokens, .nothing⟩ := by
    show some (Lexing.mk (.string ((joinPieces (ps.reverse ++ []) []).map String.ofList) :: tokens)
      .nothing) = _
    rw [htext, Option.map_some, String.ofList_toList]
  rw [List.cons_append, run_cons_of_step hopen, run_append_of_foldlM (foldlM_pieces hps),
    run_cons_of_step hclose]

/-! ### Texts -/

/-- **The tokens that a text spells** are found. -/
theorem run_of_spells {ts : List Token} (h : Spells cs ts) :
    run ⟨tokens, .nothing⟩ cs = some (tokens.reverse ++ ts) := by
  induction h generalizing tokens with
  | nil => exact congrArg some (List.append_nil _).symm
  | blank hc _ ih => rw [run_cons_of_step rfl, stepBetween_blank hc, ih]
  | mark hm _ ih => rw [run_cons_of_step rfl, stepBetween_mark hm, ih]; simp
  | word hw hend _ ih => rw [run_word hw hend, ih]; simp
  | string hs _ ih => rw [run_string hs, ih]; simp

/-- The pieces between two quotes spell the text that they are joined to. -/
theorem spells_pieces {ps : List Piece} {inside rest : List Char} {ts : List Token}
    (hps : InTurn PieceForm ps inside)
    (htext : Token.string ((joinPieces ps.reverse []).map String.ofList) ≠ .string none)
    (hts : Spells rest ts) :
    Spells ('"' :: inside ++ '"' :: rest)
      (.string ((joinPieces ps.reverse []).map String.ofList) :: ts) := by
  cases hjoin : joinPieces ps.reverse [] with
  | none =>
    rw [hjoin] at htext
    exact absurd rfl htext
  | some text =>
    obtain ⟨chars, rfl, hchars⟩ := exists_chars hjoin (by rwa [List.reverse_reverse])
    refine .string ?_ hts
    rwa [List.append_nil, String.toList_ofList]

/-- Between tokens the pass reads a blank or a token. -/
theorem exists_token_of_run {c : Char} (h : run ⟨tokens, .nothing⟩ (c :: cs) = some out) :
    (c ∈ blanks ∧ run ⟨tokens, .nothing⟩ cs = some out) ∨
    ∃ t rest, rest.length ≤ cs.length ∧ run ⟨t :: tokens, .nothing⟩ rest = some out ∧
      (t ≠ .string none → ∀ ts, Spells rest ts → Spells (c :: cs) (t :: ts)) := by
  obtain ⟨s', hstep, hrun⟩ := exists_step_of_run_cons h
  obtain rfl : stepBetween tokens c = s' := Option.some.inj hstep
  by_cases hdelimiter : IsDelimiter c
  · rcases hdelimiter with hblank | rfl | hmark
    · rw [stepBetween_blank hblank] at hrun
      exact .inl ⟨hblank, hrun⟩
    · obtain ⟨inside, rest, ps, rfl, hps, hrun⟩ := exists_of_run_string hrun
      rw [List.append_nil] at hrun
      exact .inr ⟨_, rest, by simp; omega, hrun, fun htext _ => spells_pieces hps htext⟩
    · obtain ⟨⟨_, m⟩, hm, rfl⟩ := List.mem_map.mp hmark
      rw [stepBetween_mark hm] at hrun
      exact .inr ⟨m, cs, Nat.le_refl _, hrun, fun _ _ => .mark hm⟩
  · rw [stepBetween_word hdelimiter] at hrun
    obtain ⟨back, rest, t, rfl, hword, hend, hrun⟩ := exists_of_run_word hrun
    exact .inr ⟨t, rest, by simp, hrun, fun _ _ => .word hword hend⟩

/-- **The tokens that are found** are spelled by the text, if all strings are texts. -/
theorem exists_spells_of_run (h : run ⟨tokens, .nothing⟩ cs = some out)
    (htexts : .string none ∉ out) : ∃ ts, out = tokens.reverse ++ ts ∧ Spells cs ts := by
  induction hlen : cs.length using Nat.strongRecOn generalizing cs tokens with
  | ind n ih =>
    subst hlen
    cases cs with
    | nil => exact ⟨[], by simpa using (Option.some.inj h).symm, .nil⟩
    | cons c cs =>
      rcases exists_token_of_run h with ⟨hblank, hrun⟩ | ⟨t, rest, hle, hrun, hspells⟩
      · obtain ⟨ts, hout, hts⟩ := ih _ (Nat.lt_succ_self _) hrun rfl
        exact ⟨ts, hout, .blank hblank hts⟩
      · obtain ⟨ts, hout, hts⟩ := ih _ (Nat.lt_succ_of_le hle) hrun rfl
        rw [List.reverse_cons, List.append_assoc, List.singleton_append] at hout
        have htext : t ≠ .string none := by
          rintro rfl
          exact htexts (by simp [hout])
        exact ⟨t :: ts, hout, hspells htext ts hts⟩

end Lexing

theorem tokens?_eq_some_iff {cs : List Char} {ts : List Token} (htexts : .string none ∉ ts) :
    tokens? cs = some ts ↔ Spells cs ts := by
  constructor
  · intro h
    obtain ⟨_, rfl, hts⟩ := Lexing.exists_spells_of_run h htexts
    exact hts
  · intro h
    exact Lexing.run_of_spells h

end CorpusMark.Json
