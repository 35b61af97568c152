import CorpusMark.Numeral
import Mathlib.Data.List.TakeWhile
import Mathlib.Tactic.SplitIfs

/-!
# How numbers are written

A number is written in parts, one behind the other: a sign, digits without a leading
zero, and a fraction and an exponent that may be absent (`Numeral.Form`). The reader
takes them apart from behind, at the mark of the exponent and at the point, and comes
to the same parts (`Numeral.parse?_eq_some_iff`), because neither of the two is a
digit. No other token can begin inside of a number (`Numeral.Form.isNumberChar`).
-/

namespace CorpusMark

theorem isDigit_iff {c : Char} : isDigit c = true ↔ c.isDigit = true := by
  have hbounds : c.isDigit = true ↔ '0' ≤ c ∧ c ≤ '9' := by
    rw [Char.isDigit, Bool.and_eq_true, decide_eq_true_eq, decide_eq_true_eq]
    rfl
  rw [hbounds, isDigit, digit?]
  split_ifs with h
  · simp [h]
  · simp [h]

namespace Numeral

/-! ## Written forms -/

/-- Digits, of which there is at least one. -/
def IsDigits (ds : List Char) : Prop :=
  ds ≠ [] ∧ ∀ d ∈ ds, d.isDigit = true

/-- What can stand in front of the point: digits without a leading zero. -/
inductive WholeForm : List Char → Prop where
  | zero : WholeForm ['0']
  | digits {c : Char} {ds : List Char} (hzero : c ≠ '0') (h : ∀ d ∈ c :: ds, d.isDigit = true) :
    WholeForm (c :: ds)

/-- How the digits of a fraction are written. -/
inductive FractionForm : List Char → List Char → Prop where
  | absent : FractionForm [] []
  | digits {ds : List Char} (h : IsDigits ds) : FractionForm ds ('.' :: ds)

/-- How the sign and the digits of an exponent are written. -/
inductive ExponentForm : Option (Bool × List Char) → List Char → Prop where
  | absent : ExponentForm none []
  | unsigned {mark : Char} {ds : List Char} (hmark : mark = 'e' ∨ mark = 'E')
    (h : IsDigits ds) : ExponentForm (some (false, ds)) (mark :: ds)
  | plus {mark : Char} {ds : List Char} (hmark : mark = 'e' ∨ mark = 'E') (h : IsDigits ds) :
    ExponentForm (some (false, ds)) (mark :: '+' :: ds)
  | minus {mark : Char} {ds : List Char} (hmark : mark = 'e' ∨ mark = 'E') (h : IsDigits ds) :
    ExponentForm (some (true, ds)) (mark :: '-' :: ds)

/-- How the parts of a number behind its sign are written, one after the other. -/
def UnsignedForm (n : Numeral) (cs : List Char) : Prop :=
  WholeForm n.whole ∧ ∃ fraction exponent, FractionForm n.fraction fraction ∧
    ExponentForm n.exponent exponent ∧ cs = n.whole ++ fraction ++ exponent

/-- How a number is written. -/
inductive Form (n : Numeral) : List Char → Prop where
  | positive {cs : List Char} (hsign : n.negative = false) (h : n.UnsignedForm cs) : Form n cs
  | negative {cs : List Char} (hsign : n.negative = true) (h : n.UnsignedForm cs) :
    Form n ('-' :: cs)

/-! ## Reading written forms -/

theorem isWhole_iff {cs : List Char} : isWhole cs = true ↔ WholeForm cs := by
  constructor
  · intro h
    unfold isWhole at h
    split at h
    · cases h
    · exact .zero
    · cases h
    · next hnil hzero hother =>
      cases cs with
      | nil => exact absurd rfl hnil
      | cons c ds =>
        refine .digits (fun hc => hother ds (hc ▸ rfl)) fun d hd => ?_
        exact isDigit_iff.mp (List.all_eq_true.mp h d hd)
  · intro h
    cases h with
    | zero => rfl
    | @digits c ds hzero h =>
      unfold isWhole
      split
      · next heq => cases heq
      · rfl
      · next heq => exact absurd (List.cons.inj heq).1 hzero
      · exact List.all_eq_true.mpr fun d hd => isDigit_iff.mpr (h d hd)

theorem isDigits_iff {ds : List Char} : (ds.isEmpty || !ds.all isDigit) = false ↔ IsDigits ds := by
  simp [IsDigits, isDigit_iff]

theorem isMark_iff {c : Char} : isMark c = true ↔ c = 'e' ∨ c = 'E' := by
  simp [isMark]

/-- Reads what is left from the point on. -/
def fractionOf? : List Char → Option (List Char)
  | [] => some []
  | _ :: rest => if rest.isEmpty || !rest.all isDigit then none else some rest

/-- Reads what is left from the mark of an exponent on. -/
def markedExponent? : List Char → Option (Option (Bool × List Char))
  | [] => some none
  | _ :: rest => (exponentOf? rest).map some

/-- A number is read in three parts, the exponent first. -/
theorem parseUnsigned?_eq (negative : Bool) (body : List Char) :
    parseUnsigned? negative body
      = (markedExponent? (body.dropWhile (!isMark ·))).bind fun exponent =>
          (fractionOf? ((body.takeWhile (!isMark ·)).dropWhile (· ≠ '.'))).bind fun fraction =>
            let whole := (body.takeWhile (!isMark ·)).takeWhile (· ≠ '.')
            if isWhole whole then some ⟨negative, whole, fraction, exponent⟩ else none := by
  unfold parseUnsigned?
  dsimp only
  cases body.dropWhile (!isMark ·) <;>
    cases (body.takeWhile (!isMark ·)).dropWhile (· ≠ '.') with
    | nil => rfl
    | cons point rest =>
      dsimp only [fractionOf?]
      cases rest.isEmpty || !rest.all isDigit <;> rfl

theorem fractionOf?_eq_some_iff {cs ds : List Char} (hpoint : ∀ c ∈ cs.head?, c = '.') :
    fractionOf? cs = some ds ↔ FractionForm ds cs := by
  constructor
  · intro h
    cases cs with
    | nil =>
      cases h
      exact .absent
    | cons c rest =>
      obtain rfl := hpoint c rfl
      rw [fractionOf?, Option.ite_none_left_eq_some, Bool.not_eq_true, isDigits_iff] at h
      cases h.2
      exact .digits h.1
  · intro h
    cases h with
    | absent => rfl
    | digits h => rw [fractionOf?, isDigits_iff.mpr h, if_neg Bool.false_ne_true]

theorem exponentOf?_eq_some_iff {cs : List Char} {e : Bool × List Char} {mark : Char}
    (hmark : mark = 'e' ∨ mark = 'E') :
    exponentOf? cs = some e ↔ ExponentForm (some e) (mark :: cs) := by
  have hread : exponentOf? cs = some e ↔ IsDigits (Double.splitSign cs).2 ∧
      Double.splitSign cs = e := by
    unfold exponentOf?
    dsimp only
    rw [Option.ite_none_left_eq_some, Bool.not_eq_true, isDigits_iff, Option.some.injEq]
  rw [hread]
  constructor
  · rintro ⟨h, rfl⟩
    unfold Double.splitSign at h ⊢
    split at h
    · exact .minus hmark h
    · exact .plus hmark h
    · exact .unsigned hmark h
  · intro h
    cases h with
    | unsigned hmark h =>
      -- a digit is no sign
      have hsign : Double.splitSign cs = (false, cs) := by
        unfold Double.splitSign
        split
        · exact absurd (h.2 '-' List.mem_cons_self) (by decide)
        · exact absurd (h.2 '+' List.mem_cons_self) (by decide)
        · rfl
      rw [hsign]
      exact ⟨h, rfl⟩
    | plus hmark h => exact ⟨h, rfl⟩
    | minus hmark h => exact ⟨h, rfl⟩

theorem markedExponent?_eq_some_iff {cs : List Char} {e : Option (Bool × List Char)}
    (hmark : ∀ c ∈ cs.head?, isMark c = true) :
    markedExponent? cs = some e ↔ ExponentForm e cs := by
  cases cs with
  | nil =>
    constructor
    · intro h
      cases h
      exact .absent
    · intro h
      cases h
      rfl
  | cons mark rest =>
    have hmark := isMark_iff.mp (hmark mark rfl)
    rw [markedExponent?, Option.map_eq_some_iff]
    constructor
    · rintro ⟨e, he, rfl⟩
      exact (exponentOf?_eq_some_iff hmark).mp he
    · intro h
      cases e with
      | none => cases h
      | some e => exact ⟨e, (exponentOf?_eq_some_iff hmark).mpr h, rfl⟩

/-- Elements that pass a test up to one that does not are taken and dropped together. -/
theorem span_append {α : Type} {p : α → Bool} {xs ys : List α} (hpass : ∀ x ∈ xs, p x = true)
    (hstop : ∀ y ∈ ys.head?, p y = false) :
    (xs ++ ys).takeWhile p = xs ∧ (xs ++ ys).dropWhile p = ys := by
  rw [List.takeWhile_append_of_pos hpass, List.dropWhile_append_of_pos hpass]
  cases ys with
  | nil => simp
  | cons y ys => simp [hstop y rfl]

theorem WholeForm.isDigits {cs : List Char} (h : WholeForm cs) : IsDigits cs := by
  cases h with
  | zero => exact ⟨List.cons_ne_nil _ _, List.forall_mem_singleton.mpr (by decide)⟩
  | digits hzero h => exact ⟨List.cons_ne_nil _ _, h⟩

theorem FractionForm.point_or_isDigit {ds cs : List Char} (h : FractionForm ds cs) :
    ∀ c ∈ cs, c = '.' ∨ c.isDigit = true := by
  cases h with
  | absent => simp
  | digits h => exact List.forall_mem_cons.mpr ⟨.inl rfl, fun c hc => .inr (h.2 c hc)⟩

theorem FractionForm.head_eq {ds cs : List Char} (h : FractionForm ds cs) :
    ∀ c ∈ cs.head?, c = '.' := by
  cases h <;> simp

theorem ExponentForm.isMark_head {e : Option (Bool × List Char)} {cs : List Char}
    (h : ExponentForm e cs) : ∀ c ∈ cs.head?, isMark c = true := by
  cases h with
  | absent => simp
  | unsigned hmark _ | plus hmark _ | minus hmark _ => simpa using isMark_iff.mpr hmark

theorem head?_dropWhile {α : Type} {p : α → Bool} {l : List α} :
    ∀ x ∈ (l.dropWhile p).head?, p x = false := by
  intro x hx
  have hstop := List.head?_dropWhile_not p l
  rwa [Option.mem_def.mp hx] at hstop

theorem ne_of_isDigit {c d : Char} (hc : c.isDigit = true) (hd : d.isDigit = false) : c ≠ d := by
  rintro rfl
  rw [hc] at hd
  cases hd

/-- No mark of an exponent is in front of the exponent. -/
theorem span_mark {whole fraction exponent ds : List Char} {e : Option (Bool × List Char)}
    (hwhole : WholeForm whole) (hfraction : FractionForm ds fraction)
    (hexponent : ExponentForm e exponent) :
    (whole ++ fraction ++ exponent).takeWhile (!isMark ·) = whole ++ fraction ∧
      (whole ++ fraction ++ exponent).dropWhile (!isMark ·) = exponent := by
  have hmantissa : ∀ c ∈ whole ++ fraction, c = '.' ∨ c.isDigit = true := by
    intro c hc
    rcases List.mem_append.mp hc with hc | hc
    · exact .inr (hwhole.isDigits.2 c hc)
    · exact hfraction.point_or_isDigit c hc
  refine span_append ?_ fun c hc => by simpa using hexponent.isMark_head c hc
  intro c hc
  rcases hmantissa c hc with rfl | hdigit
  · decide
  · have he : c ≠ 'e' := ne_of_isDigit hdigit (by decide)
    have hE : c ≠ 'E' := ne_of_isDigit hdigit (by decide)
    simp [isMark, he, hE]

/-- No point is in front of the fraction. -/
theorem span_point {whole fraction ds : List Char} (hwhole : WholeForm whole)
    (hfraction : FractionForm ds fraction) :
    (whole ++ fraction).takeWhile (· ≠ '.') = whole ∧
      (whole ++ fraction).dropWhile (· ≠ '.') = fraction := by
  refine span_append ?_ fun c hc => by simpa using hfraction.head_eq c hc
  intro c hc
  simpa using ne_of_isDigit (hwhole.isDigits.2 c hc) (by decide)

/-- **A number behind its sign** is read if it is written in its three parts. -/
theorem parseUnsigned?_eq_some_iff {negative : Bool} {body : List Char} {n : Numeral} :
    parseUnsigned? negative body = some n ↔ n.negative = negative ∧ n.UnsignedForm body := by
  have hmarks : ∀ c ∈ (body.dropWhile (!isMark ·)).head?, isMark c = true :=
    fun c hc => by simpa using head?_dropWhile c hc
  have hpoint : ∀ cs : List Char, ∀ c ∈ (cs.dropWhile (· ≠ '.')).head?, c = '.' :=
    fun cs c hc => by simpa using head?_dropWhile c hc
  simp only [parseUnsigned?_eq, Option.bind_eq_some_iff, Option.ite_none_right_eq_some,
    isWhole_iff, markedExponent?_eq_some_iff hmarks, fractionOf?_eq_some_iff (hpoint _)]
  constructor
  · rintro ⟨exponent, hexponent, fraction, hfraction, hwhole, hn⟩
    cases hn
    refine ⟨rfl, hwhole, _, _, hfraction, hexponent, ?_⟩
    rw [List.takeWhile_append_dropWhile, List.takeWhile_append_dropWhile]
  · rintro ⟨rfl, hwhole, fraction, exponent, hfraction, hexponent, rfl⟩
    obtain ⟨hmantissa, hmarked⟩ := span_mark hwhole hfraction hexponent
    obtain ⟨hfront, hrest⟩ := span_point hwhole hfraction
    rw [hmantissa, hmarked, hfront, hrest]
    exact ⟨n.exponent, hexponent, n.fraction, hfraction, hwhole, rfl⟩

/-- **Numbers are read by their parts.** What is read is the number that is written,
and everything that is written like a number is read. -/
theorem parse?_eq_some_iff {cs : List Char} {n : Numeral} : parse? cs = some n ↔ n.Form cs := by
  constructor
  · intro h
    unfold parse? at h
    split at h
    · obtain ⟨hsign, h⟩ := parseUnsigned?_eq_some_iff.mp h
      exact .negative hsign h
    · obtain ⟨hsign, h⟩ := parseUnsigned?_eq_some_iff.mp h
      exact .positive hsign h
  · intro h
    cases h with
    | positive hsign h =>
      have hunsigned : parse? cs = parseUnsigned? false cs := by
        obtain ⟨hwhole, fraction, exponent, -, -, rfl⟩ := h
        obtain ⟨c, ds, hcons⟩ := List.exists_cons_of_ne_nil hwhole.isDigits.1
        have hdigit := hwhole.isDigits.2 c (hcons ▸ List.mem_cons_self)
        rw [hcons]
        unfold parse?
        split
        · next heq =>
          rw [(List.cons.inj heq).1] at hdigit
          exact absurd hdigit (by decide)
        · rfl
      rw [hunsigned]
      exact parseUnsigned?_eq_some_iff.mpr ⟨hsign, h⟩
    | negative hsign h => exact parseUnsigned?_eq_some_iff.mpr ⟨hsign, h⟩

/-! ## Characters of numbers -/

/-- Whether a character can be part of a number. -/
def isNumberChar (c : Char) : Bool :=
  isDigit c || isMark c || c == '.' || c == '-' || c == '+'

theorem isNumberChar_of_isDigit {c : Char} (h : c.isDigit = true) : isNumberChar c = true := by
  simp [isNumberChar, isDigit_iff.mpr h]

theorem ExponentForm.isNumberChar {e : Option (Bool × List Char)} {cs : List Char}
    (h : ExponentForm e cs) : ∀ c ∈ cs, isNumberChar c = true := by
  have hmark : ∀ c, c = 'e' ∨ c = 'E' → Numeral.isNumberChar c = true := by
    rintro c (rfl | rfl) <;> decide
  have hdigits : ∀ ds, IsDigits ds → ∀ c ∈ ds, Numeral.isNumberChar c = true :=
    fun ds h c hc => isNumberChar_of_isDigit (h.2 c hc)
  cases h with
  | absent => simp
  | unsigned h h' => exact List.forall_mem_cons.mpr ⟨hmark _ h, hdigits _ h'⟩
  | plus h h' | minus h h' =>
    exact List.forall_mem_cons.mpr
      ⟨hmark _ h, List.forall_mem_cons.mpr ⟨by decide, hdigits _ h'⟩⟩

theorem UnsignedForm.isNumberChar {n : Numeral} {cs : List Char} (h : n.UnsignedForm cs) :
    cs ≠ [] ∧ ∀ c ∈ cs, isNumberChar c = true := by
  obtain ⟨hwhole, fraction, exponent, hfraction, hexponent, rfl⟩ := h
  refine ⟨by simp [hwhole.isDigits.1], ?_⟩
  intro c hc
  rcases List.mem_append.mp hc with hc | hc
  · rcases List.mem_append.mp hc with hc | hc
    · exact isNumberChar_of_isDigit (hwhole.isDigits.2 c hc)
    · rcases hfraction.point_or_isDigit c hc with rfl | hc
      · decide
      · exact isNumberChar_of_isDigit hc
  · exact hexponent.isNumberChar c hc

/-- A number is not written as nothing, and a character that cannot be part of a
number is not in it. -/
theorem Form.isNumberChar {n : Numeral} {cs : List Char} (h : n.Form cs) :
    cs ≠ [] ∧ ∀ c ∈ cs, isNumberChar c = true := by
  cases h with
  | positive _ hform => exact hform.isNumberChar
  | negative _ hform =>
    exact ⟨List.cons_ne_nil _ _, List.forall_mem_cons.mpr ⟨by decide, hform.isNumberChar.2⟩⟩

end Numeral

end CorpusMark
