import CorpusMark.Proofs.Json.Reading
import CorpusMark.Proofs.Numerals
import Mathlib

/-!
# Written values read back

The compact form of a strict value spells the tokens of the value (`spells_chars`), so
it is read as this value (`read?_chars`), and as a strict one if it is nested no deeper
than a text may be (`parse?_write`). It holds no control character (`isPlain_chars`).
-/

namespace CorpusMark.Json

/-! ## Texts put together -/

namespace Spells

variable {cs cs' : List Char} {ts ts' : List Token} {c c' : Char} {m m' : Token}

/-- Two texts are spelled apart if what is between them is a token of its own. -/
theorem append_mark (h : Spells cs ts) (hm : (c, m) ∈ marks) (h' : Spells cs' ts') :
    Spells (cs ++ c :: cs') (ts ++ m :: ts') := by
  induction h with
  | nil => exact .mark hm h'
  | blank hc _ ih => exact .blank hc ih
  | mark hm' _ ih => exact .mark hm' ih
  | @word w t cs ts hw hend _ ih =>
    rw [List.append_assoc]
    refine .word hw (fun d hd => ?_) ih
    cases cs with
    | nil =>
      cases hd
      exact .inr (.inr (List.mem_map_of_mem hm))
    | cons _ _ => exact hend d hd
  | string hs _ ih =>
    rw [List.append_assoc]
    exact .string hs ih

theorem of_word {t : Token} (h : WordForm t cs) : Spells cs [t] := by
  have hspells := Spells.word h (by simp) .nil
  rwa [List.append_nil] at hspells

/-- Texts with commas between them are spelled one by one. -/
theorem intercalate {texts : List (List Char)} {tokens : List (List Token)}
    (h : List.Forall₂ Spells texts tokens) :
    Spells ([','].intercalate texts) ([.comma].intercalate tokens) := by
  induction h with
  | nil => exact .nil
  | cons h rest ih =>
    cases rest with
    | nil => simpa using h
    | cons _ _ =>
      rw [List.intercalate_cons_cons, List.intercalate_cons_cons, List.append_assoc,
        List.append_assoc, List.singleton_append, List.singleton_append]
      exact h.append_mark (by decide) ih

/-- Brackets around a text add a token on either side. -/
theorem between (hm : (c, m) ∈ marks) (hm' : (c', m') ∈ marks) (h : Spells cs ts) :
    Spells (c :: cs ++ [c']) (m :: ts ++ [m']) :=
  (Spells.mark hm h).append_mark hm' .nil

end Spells

/-! ## Written strings -/

theorem digitChar_mem_hexDigits {d : Nat} (h : d < 16) : (Nat.digitChar d, d) ∈ hexDigits := by
  have hall : ∀ d < 16, hexDigit? (Nat.digitChar d) = some d := by decide
  exact hexDigit?_eq_some_iff.mp (hall d h)

/-- What is written for a character is one of its forms. -/
theorem charForm_escapeChar (c : Char) : CharForm c (escapeChar c) := by
  unfold escapeChar
  split_ifs with hquote hslash hback htab hfeed hform hreturn hcontrol
  · exact .letter (by rw [hquote]; decide)
  · exact .letter (by rw [hslash]; decide)
  · exact .letter (by rw [hback]; decide)
  · exact .letter (by rw [htab]; decide)
  · exact .letter (by rw [hfeed]; decide)
  · exact .letter (by rw [hform]; decide)
  · exact .letter (by rw [hreturn]; decide)
  · have hzero := digitChar_mem_hexDigits (show 0 < 16 by decide)
    have hunit := UnitForm.mk hzero hzero
      (digitChar_mem_hexDigits (show c.toNat / 16 < 16 by omega))
      (digitChar_mem_hexDigits (show c.toNat % 16 < 16 by omega))
    have hvalue : 16 * (16 * (16 * 0 + 0) + c.toNat / 16) + c.toNat % 16 = c.toNat := by omega
    rw [hvalue] at hunit
    refine .units ?_
    rw [utf16, if_pos (by omega)]
    exact .singleton hunit
  · exact .plain hquote hslash (Nat.le_of_not_lt hcontrol)

theorem spells_writeString (s : String) : Spells (writeString s) [.string (some s)] :=
  .string (.flatMap charForm_escapeChar s.toList) .nil

/-! ## Written values -/

theorem joinCommas_eq (texts : List (List Char)) : joinCommas texts = [','].intercalate texts := by
  induction texts with
  | nil => rfl
  | cons text rest ih =>
    cases rest with
    | nil => simp [joinCommas]
    | cons next rest =>
      rw [joinCommas, ih, List.intercalate_cons_cons, List.append_assoc, List.singleton_append]
      exact List.cons_ne_nil next rest

mutual

/-- **The compact form of a strict value** spells the tokens of the value. -/
theorem spells_chars : ∀ (levels : Nat) (v : Value), v.isStrict levels = true →
    Spells v.chars v.tokens
  | _, .null, _ => .of_word .null
  | _, .bool true, _ => .of_word .isTrue
  | _, .bool false, _ => .of_word .isFalse
  | levels, .number text, h => by
    rw [Value.isStrict] at h
    obtain ⟨n, hn, -⟩ := isNumberInRange_iff.mp h
    exact .of_word (.number hn)
  | levels, .string (some s), _ => spells_writeString s
  | levels, .string none, h => by simp [Value.isStrict] at h
  | 0, .array _, h => by simp [Value.isStrict] at h
  | levels + 1, .array items, h => by
    rw [Value.isStrict] at h
    rw [Value.chars, Value.tokens, joinCommas_eq]
    exact (Spells.intercalate (spells_itemChars levels items h)).between (by decide) (by decide)
  | 0, .object _, h => by simp [Value.isStrict] at h
  | levels + 1, .object members, h => by
    rw [Value.isStrict] at h
    rw [Value.chars, Value.tokens, joinCommas_eq]
    exact (Spells.intercalate (spells_memberChars levels members h)).between (by decide)
      (by decide)

theorem spells_itemChars : ∀ (levels : Nat) (vs : List Value), allItemsStrict levels vs = true →
    List.Forall₂ Spells (itemChars vs) (itemTokens vs)
  | _, [], _ => .nil
  | levels, v :: vs, h => by
    rw [allItemsStrict, Bool.and_eq_true] at h
    exact .cons (spells_chars levels v h.1) (spells_itemChars levels vs h.2)

theorem spells_memberChars : ∀ (levels : Nat) (members : List (Option String × Value)),
    allMembersStrict levels members = true →
      List.Forall₂ Spells (memberChars members) (memberTokens members)
  | _, [], _ => .nil
  | levels, (none, v) :: rest, h => by simp [allMembersStrict] at h
  | levels, (some k, v) :: rest, h => by
    rw [allMembersStrict, Bool.and_eq_true, Bool.and_eq_true] at h
    exact .cons ((spells_writeString k).append_mark (by decide) (spells_chars levels v h.1.2))
      (spells_memberChars levels rest h.2)

end

/-- **A strict value is read back** from its compact form. -/
theorem read?_chars {levels : Nat} {v : Value} (h : v.isStrict levels = true) :
    read? v.chars = some v := by
  have hspells := spells_chars levels v h
  exact read?_eq_some_iff.mpr ((tokens?_eq_some_iff hspells.string_none_notMem).mpr hspells)

theorem parse?_write {v : Value} (h : v.isStrict maxNesting = true) : parse? v.write = some v := by
  rw [parse?, Value.write, String.toList_ofList, read?_chars h, Option.filter_some, if_pos h]

/-! ## Control characters -/

/-- Whether there is no control character in a text. -/
def IsPlain (cs : List Char) : Prop := ∀ c ∈ cs, 0x20 ≤ c.toNat

instance (cs : List Char) : Decidable (IsPlain cs) :=
  decidable_of_iff (cs.all (0x20 ≤ ·.toNat) = true) (by simp [IsPlain])

theorem IsPlain.append {cs cs' : List Char} (h : IsPlain cs) (h' : IsPlain cs') :
    IsPlain (cs ++ cs') :=
  List.forall_mem_append.mpr ⟨h, h'⟩

theorem IsPlain.cons {c : Char} {cs : List Char} (hc : 0x20 ≤ c.toNat) (h : IsPlain cs) :
    IsPlain (c :: cs) :=
  List.forall_mem_cons.mpr ⟨hc, h⟩

theorem isPlain_escapeChar (c : Char) : IsPlain (escapeChar c) := by
  unfold escapeChar
  split_ifs with hquote hslash hback htab hfeed hform hreturn hcontrol
  all_goals try decide
  · have hdigit : ∀ d, d < 16 → 0x20 ≤ (Nat.digitChar d).toNat := by decide
    have hbyte : IsPlain (hexByte c.toNat) :=
      .cons (hdigit _ (by omega)) (.cons (hdigit _ (by omega)) (by simp [IsPlain]))
    exact .append (by decide) hbyte
  · simpa [IsPlain] using Nat.le_of_not_lt hcontrol

theorem isPlain_writeString (s : String) : IsPlain (writeString s) := by
  have hchars : IsPlain (s.toList.flatMap escapeChar) := by
    intro c hc
    obtain ⟨d, -, hd⟩ := List.mem_flatMap.mp hc
    exact isPlain_escapeChar d c hd
  exact .append (.cons (by decide) hchars) (by decide)

theorem isPlain_joinCommas {texts : List (List Char)} (h : ∀ text ∈ texts, IsPlain text) :
    IsPlain (joinCommas texts) := by
  induction texts with
  | nil => simp [IsPlain, joinCommas]
  | cons text rest ih =>
    rw [List.forall_mem_cons] at h
    cases rest with
    | nil => exact h.1
    | cons _ _ => exact h.1.append (.cons (by decide) (ih h.2))

theorem isPlain_number {text : List Char} (h : isNumberInRange text = true) : IsPlain text := by
  obtain ⟨n, hn, -⟩ := isNumberInRange_iff.mp h
  intro c hc
  have hchar := hn.isNumberChar.2 c hc
  simp only [Numeral.isNumberChar, Numeral.isMark, Bool.or_eq_true, beq_iff_eq] at hchar
  rcases hchar with (((hdigit | rfl | rfl) | rfl) | rfl) | rfl
  · obtain ⟨d, hd⟩ := Option.isSome_iff_exists.mp hdigit
    have hbound : '0'.toNat ≤ c.toNat := (Option.ite_none_right_eq_some.mp hd).1.1
    exact Nat.le_trans (by decide) hbound
  all_goals decide

mutual

/-- **The compact form of a strict value** holds no control character, so it holds
no end of a line. -/
theorem isPlain_chars : ∀ (levels : Nat) (v : Value), v.isStrict levels = true → IsPlain v.chars
  | _, .null, _ => by decide
  | _, .bool true, _ => by decide
  | _, .bool false, _ => by decide
  | levels, .number text, h => isPlain_number (by rwa [Value.isStrict] at h)
  | _, .string s, _ => isPlain_writeString _
  | 0, .array _, h => by simp [Value.isStrict] at h
  | levels + 1, .array items, h => by
    rw [Value.isStrict] at h
    exact .append (.cons (by decide) (isPlain_joinCommas (isPlain_itemChars levels items h)))
      (by decide)
  | 0, .object _, h => by simp [Value.isStrict] at h
  | levels + 1, .object members, h => by
    rw [Value.isStrict] at h
    exact .append (.cons (by decide) (isPlain_joinCommas (isPlain_memberChars levels members h)))
      (by decide)

theorem isPlain_itemChars : ∀ (levels : Nat) (vs : List Value), allItemsStrict levels vs = true →
    ∀ text ∈ itemChars vs, IsPlain text
  | _, [], _ => by simp [itemChars]
  | levels, v :: vs, h => by
    rw [allItemsStrict, Bool.and_eq_true] at h
    exact List.forall_mem_cons.mpr ⟨isPlain_chars levels v h.1, isPlain_itemChars levels vs h.2⟩

theorem isPlain_memberChars : ∀ (levels : Nat) (members : List (Option String × Value)),
    allMembersStrict levels members = true → ∀ text ∈ memberChars members, IsPlain text
  | _, [], _ => by simp [memberChars]
  | levels, (k, v) :: rest, h => by
    rw [allMembersStrict, Bool.and_eq_true, Bool.and_eq_true] at h
    exact List.forall_mem_cons.mpr
      ⟨.append (isPlain_writeString _) (.cons (by decide) (isPlain_chars levels v h.1.2)),
        isPlain_memberChars levels rest h.2⟩

end

end CorpusMark.Json
