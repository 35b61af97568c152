import CorpusMark.Corpus
import CorpusMark.Proofs.Attempts
import CorpusMark.Proofs.Json.Reading
import Mathlib

/-!
# Records in lines

A corpus text with a record on each line is read line by line. What is read is said
here without the reader: the code that a line holds (`Corpus.HoldsCode`), how a line
can fail to hold one (`Corpus.LineFault`), and which of the failing lines is reported
(`Corpus.FirstFault`). What a line stands for is a matter of the grammar
(`Json.Denotes`). Lines of nothing but blanks hold no record and do no harm, but they
count.

Texts of whole lines can be put one behind the other. The lines of the second come
behind those of the first (`Corpus.lines_append`), and what a line holds does not
depend on where it stands, only the number under which it is reported does
(`Corpus.codesOfLines_add`). `Corpus.codesOfLines_outcome` puts this together.
-/

namespace CorpusMark

/-- The same failure, some lines further down. -/
def CorpusError.later (e : CorpusError) (lines : Nat) : CorpusError :=
  match e with
  | .invalidJson path line detail => .invalidJson path (line + lines) detail
  | .missingCode path line => .missingCode path (line + lines)
  | e => e

namespace Corpus

variable {path : String} {number : Nat} {line : List Char} {ls : List (List Char)} {e : CorpusError}

/-! ## One line -/

/-- The line is an object in JSON whose field `code` is the given text; of several
fields of that name the last counts. -/
def HoldsCode (line : List Char) (code : String) : Prop :=
  ∃ members, Json.Denotes (String.ofList line) (.object members) ∧
    (Json.Value.object members).member? "code" = some (.string (some code))

/-- What is wrong with a line that holds no code: it is not JSON, or it is JSON but
no such object. -/
inductive LineFault (path : String) (number : Nat) (line : List Char) : CorpusError → Prop where
  | notJson (h : ∀ v, ¬ Json.Denotes (String.ofList line) v) :
    LineFault path number line (.invalidJson path number "no JSON value")
  | noCode {record : Json.Value} (h : Json.Denotes (String.ofList line) record)
    (hcode : ∀ code, ¬ HoldsCode line code) : LineFault path number line (.missingCode path number)

theorem codeOf?_eq_some_iff {record : Json.Value} {code : String} :
    codeOf? record = some code ↔ ∃ members, record = .object members ∧
      (Json.Value.object members).member? "code" = some (.string (some code)) := by
  constructor
  · intro h
    obtain ⟨value, hmember, htext⟩ := Option.bind_eq_some_iff.mp h
    cases record with
    | object members =>
      cases value with
      | string text =>
        obtain rfl : text = some code := htext
        exact ⟨members, rfl, hmember⟩
      | _ => cases htext
    | _ => cases hmember
  · rintro ⟨members, rfl, hmember⟩
    exact Option.bind_eq_some_iff.mpr ⟨_, hmember, rfl⟩

theorem holdsCode_iff {code : String} :
    HoldsCode line code ↔
      ∃ record, Json.parse? (String.ofList line) = some record ∧ codeOf? record = some code := by
  simp only [codeOf?_eq_some_iff, Json.parse?_eq_some_iff]
  constructor
  · rintro ⟨members, hdenotes, hmember⟩
    exact ⟨_, hdenotes, members, rfl, hmember⟩
  · rintro ⟨_, hdenotes, members, rfl, hmember⟩
    exact ⟨members, hdenotes, hmember⟩

/-- **A line is read as the code that it holds**, and of one that holds none it is
reported what is wrong with it. -/
theorem codeOfLine_outcome (path : String) (number : Nat) (line : List Char) :
    (∀ code, codeOfLine path number (String.ofList line) = .ok code ↔ HoldsCode line code) ∧
      ∀ e, codeOfLine path number (String.ofList line) = .error e ↔
        LineFault path number line e := by
  refine Attempts.outcome_iff (fun code h => ?_) (fun e h => ?_) ?_
  · obtain ⟨record, hparse, hcode⟩ := holdsCode_iff.mp h
    simp only [codeOfLine, hparse, hcode]
  · cases h with
    | notJson hnone =>
      have hparse : Json.parse? (String.ofList line) = none :=
        Option.eq_none_iff_forall_ne_some.mpr fun v hv => hnone v (Json.parse?_eq_some_iff.mp hv)
      simp only [codeOfLine, hparse]
    | @noCode record hdenotes hnone =>
      have hparse := Json.parse?_eq_some_iff.mpr hdenotes
      have hcode : codeOf? record = none :=
        Option.eq_none_iff_forall_ne_some.mpr fun code hcode =>
          hnone code (holdsCode_iff.mpr ⟨record, hparse, hcode⟩)
      simp only [codeOfLine, hparse, hcode]
  · by_cases hcode : ∃ code, HoldsCode line code
    · exact Or.inl hcode
    · cases hparse : Json.parse? (String.ofList line) with
      | none =>
        refine Or.inr ⟨_, .notJson fun v hv => ?_⟩
        rw [Json.parse?_eq_some_iff.mpr hv] at hparse
        cases hparse
      | some record =>
        exact Or.inr ⟨_, .noCode (Json.parse?_eq_some_iff.mp hparse) (not_exists.mp hcode)⟩

/-! ## Lists of lines -/

/-- The line is blank or holds a code. -/
def InOrder (line : List Char) : Prop :=
  line.all Text.isBlank = true ∨ ∃ code, HoldsCode line code

/-- A line is at fault that is neither blank nor holds a code, and those before it are
in order. The first line of all has the given number. -/
def FirstFault (path : String) (number : Nat) (ls : List (List Char)) (e : CorpusError) : Prop :=
  ∃ pre line post, ls = pre ++ line :: post ∧ (∀ l ∈ pre, InOrder l) ∧
    line.all Text.isBlank = false ∧ LineFault path (number + pre.length) line e

theorem not_firstFault_nil : ¬ FirstFault path number [] e := by
  rintro ⟨pre, l, post, hsplit, -⟩
  simp at hsplit

/-- The first line is at fault, or it is in order and there is a fault behind it. -/
theorem firstFault_cons :
    FirstFault path number (line :: ls) e ↔
      (line.all Text.isBlank = false ∧ LineFault path number line e) ∨
        (InOrder line ∧ FirstFault path (number + 1) ls e) := by
  have hnumber : ∀ n : Nat, number + (n + 1) = number + 1 + n := by omega
  constructor
  · rintro ⟨pre, l, post, hsplit, hpre, hline, hfault⟩
    cases pre with
    | nil =>
      cases hsplit
      exact Or.inl ⟨hline, hfault⟩
    | cons l' pre =>
      cases hsplit
      rw [List.forall_mem_cons] at hpre
      rw [List.length_cons, hnumber] at hfault
      exact Or.inr ⟨hpre.1, pre, l, post, rfl, hpre.2, hline, hfault⟩
  · rintro (⟨hline, hfault⟩ | ⟨hfirst, pre, l, post, rfl, hpre, hline, hfault⟩)
    · exact ⟨[], line, ls, rfl, by simp, hline, hfault⟩
    · refine ⟨line :: pre, l, post, rfl, List.forall_mem_cons.mpr ⟨hfirst, hpre⟩, hline, ?_⟩
      rwa [List.length_cons, hnumber]

theorem codesOfLines_blank (h : line.all Text.isBlank = true) :
    codesOfLines path number (line :: ls) = codesOfLines path (number + 1) ls := by
  rw [codesOfLines, if_pos h]

theorem codesOfLines_record (h : line.all Text.isBlank = false) :
    codesOfLines path number (line :: ls)
      = codeOfLine path number (String.ofList line) >>= fun code =>
          codesOfLines path (number + 1) ls >>= fun codes => .ok (code :: codes) := by
  rw [codesOfLines, h, if_neg Bool.false_ne_true]
  rfl

/-- **The codes of lines** are those that the lines hold, one for each line that is not
blank, and of lines that are not in order the first fault is reported. -/
theorem codesOfLines_spec (path : String) (number : Nat) (ls : List (List Char)) :
    (∀ codes, codesOfLines path number ls = .ok codes ↔
        List.Forall₂ HoldsCode (ls.filter fun l => !l.all Text.isBlank) codes) ∧
      ∀ e, codesOfLines path number ls = .error e ↔ FirstFault path number ls e := by
  induction ls generalizing number with
  | nil =>
    refine ⟨fun codes => ?_, fun e => iff_of_false (fun h => ?_) not_firstFault_nil⟩
    · cases codes <;> simp [codesOfLines]
    · cases h
  | cons line ls ih =>
    obtain ⟨ihOk, ihError⟩ := ih (number + 1)
    obtain ⟨hread, hfault⟩ := codeOfLine_outcome path number line
    simp only [firstFault_cons]
    cases hblank : line.all Text.isBlank with
    | true =>
      rw [codesOfLines_blank hblank, List.filter_cons_of_neg (by simp [hblank])]
      exact ⟨ihOk, fun e => by simp [ihError, InOrder, hblank]⟩
    | false =>
      rw [codesOfLines_record hblank, List.filter_cons_of_pos (by simp [hblank])]
      constructor
      · intro codes
        simp only [Attempts.bind_eq_ok_iff, hread, ihOk, List.forall₂_cons_left_iff]
        constructor
        · rintro ⟨code, hcode, rest, hrest, hcodes⟩
          cases hcodes
          exact ⟨code, rest, hcode, hrest, rfl⟩
        · rintro ⟨code, rest, hcode, hrest, rfl⟩
          exact ⟨code, hcode, rest, hrest, rfl⟩
      · intro e
        simp only [Attempts.bind_eq_error_iff, hread, hfault, ihError, InOrder, hblank]
        simp

/-! ## Lines behind others -/

/-- What lines hold does not depend on where they stand, but where they are reported
does. -/
theorem codesOfLines_add (path : String) (number n : Nat) (ls : List (List Char)) :
    codesOfLines path (number + n) ls
      = (codesOfLines path number ls).mapError (CorpusError.later · n) := by
  induction ls generalizing number with
  | nil => rfl
  | cons line ls ih =>
    have hnext : codesOfLines path (number + n + 1) ls
        = (codesOfLines path (number + 1) ls).mapError (CorpusError.later · n) := by
      rw [Nat.add_right_comm, ih]
    have hline : codeOfLine path (number + n) (String.ofList line)
        = (codeOfLine path number (String.ofList line)).mapError (CorpusError.later · n) := by
      unfold codeOfLine
      split
      · rfl
      · split <;> rfl
    cases hblank : line.all Text.isBlank with
    | true => rw [codesOfLines_blank hblank, codesOfLines_blank hblank, hnext]
    | false =>
      rw [codesOfLines_record hblank, codesOfLines_record hblank, hline, hnext]
      cases codeOfLine path number (String.ofList line) with
      | error e => rfl
      | ok code => cases codesOfLines path (number + 1) ls <;> rfl

/-- Lines are read one after the other. -/
theorem codesOfLines_append (path : String) (number : Nat) (ls ls' : List (List Char)) :
    codesOfLines path number (ls ++ ls')
      = codesOfLines path number ls >>= fun codes =>
          (codesOfLines path (number + ls.length) ls').map (codes ++ ·) := by
  induction ls generalizing number with
  | nil =>
    show codesOfLines path number ls' = (codesOfLines path number ls').map fun codes => codes
    cases codesOfLines path number ls' <;> rfl
  | cons line ls ih =>
    have hnumber : number + (line :: ls).length = number + 1 + ls.length := by
      rw [List.length_cons]
      omega
    rw [List.cons_append, hnumber]
    cases hblank : line.all Text.isBlank with
    | true => rw [codesOfLines_blank hblank, codesOfLines_blank hblank, ih]
    | false =>
      rw [codesOfLines_record hblank, codesOfLines_record hblank, ih]
      cases codeOfLine path number (String.ofList line) with
      | error e => rfl
      | ok code =>
        cases codesOfLines path (number + 1) ls with
        | error e => rfl
        | ok codes => cases codesOfLines path (number + 1 + ls.length) ls' <;> rfl

/-! ## The lines of a text -/

/-- Behind a line feed another text begins. -/
theorem lines_feed {text : String} (rest : String) {cs : List Char}
    (h : text.toList = cs ++ '\n' :: rest.toList) :
    lines text = (cs.splitOn '\n').map dropReturn ++ lines rest := by
  have hne := List.splitOn_ne_nil '\n' rest.toList
  have hlast : ((cs.splitOn '\n') ++ rest.toList.splitOn '\n').getLast?
      = (rest.toList.splitOn '\n').getLast? := by
    rw [List.getLast?_append, Option.or_of_isSome (by simp)]
  rw [lines, h, List.splitOn_append_cons_self, List.dropLast_append_of_ne_nil hne, List.map_append,
    hlast, List.append_assoc, ← lines]

theorem lines_empty : lines "" = [] := rfl

/-- The text is empty or its last line is ended by a line feed. -/
def EndsLine (text : String) : Prop :=
  text = "" ∨ text.toList.getLast? = some '\n'

variable {text₁ : String}

/-- **The lines of a text behind one that ends a line** come behind its lines. -/
theorem lines_append (h : EndsLine text₁) (text₂ : String) :
    lines (text₁ ++ text₂) = lines text₁ ++ lines text₂ := by
  rcases h with rfl | hlast
  · rw [String.empty_append, lines_empty, List.nil_append]
  · obtain ⟨cs, hcs⟩ := List.getLast?_eq_some_iff.mp hlast
    have happend : (text₁ ++ text₂).toList = cs ++ '\n' :: text₂.toList := by
      simp [hcs]
    rw [lines_feed text₂ happend, lines_feed "" hcs, lines_empty, List.append_nil]

theorem length_splitOn (c : Char) (cs : List Char) :
    (cs.splitOn c).length = cs.count c + 1 := by
  induction cs with
  | nil => rfl
  | cons d cs ih =>
    rw [List.splitOn_cons_eq_if_modifyHead, List.count_cons]
    split_ifs
    · rw [List.length_cons, ih]
    · rw [List.length_modifyHead, ih]

/-- A text that ends a line has as many lines as line feeds. -/
theorem length_lines (h : EndsLine text₁) :
    (lines text₁).length = text₁.toList.count '\n' := by
  rcases h with rfl | hlast
  · rfl
  · obtain ⟨cs, hcs⟩ := List.getLast?_eq_some_iff.mp hlast
    rw [lines_feed "" hcs, lines_empty, List.append_nil, List.length_map,
      length_splitOn, hcs, List.count_append]
    rfl

/-! ## Texts of records -/

/-- **The codes of a text of records** are those that its lines hold, in their order,
one for each line that is not blank. If some line is neither blank nor holds a code, the
first such line is reported under its number, blank lines counted. Behind a text that
ends a line and can be read, another text is read as it is alone: its codes come
behind, and what is reported of it is reported as many lines further down as the first
text has. -/
theorem codesOfLines_outcome (path : String) :
    (∀ text,
      (∀ codes, codesOfLines path 1 (lines text) = .ok codes ↔
        List.Forall₂ HoldsCode ((lines text).filter fun l => !l.all Text.isBlank) codes) ∧
      ∀ e, codesOfLines path 1 (lines text) = .error e ↔ FirstFault path 1 (lines text) e) ∧
    ∀ text₁ text₂ codes₁, EndsLine text₁ → codesOfLines path 1 (lines text₁) = .ok codes₁ →
      (lines text₁).length = text₁.toList.count '\n' ∧
      (∀ codes₂, codesOfLines path 1 (lines text₂) = .ok codes₂ →
        codesOfLines path 1 (lines (text₁ ++ text₂)) = .ok (codes₁ ++ codes₂)) ∧
      ∀ e, codesOfLines path 1 (lines text₂) = .error e →
        codesOfLines path 1 (lines (text₁ ++ text₂))
          = .error (e.later (lines text₁).length) := by
  refine ⟨fun text => codesOfLines_spec path 1 (lines text), ?_⟩
  intro text₁ text₂ codes₁ hends hread
  have hbehind : codesOfLines path 1 (lines (text₁ ++ text₂))
      = ((codesOfLines path 1 (lines text₂)).mapError
          (CorpusError.later · (lines text₁).length)).map (codes₁ ++ ·) := by
    rw [lines_append hends, codesOfLines_append, hread, Attempts.bind_ok, codesOfLines_add]
  refine ⟨length_lines hends, fun codes₂ hcodes => ?_, fun e hfault => ?_⟩
  · rw [hbehind, hcodes]
    rfl
  · rw [hbehind, hfault]
    rfl

/-- A blank line and a line with a carriage return stand in front of the text whose
second line holds no code: it is reported as the fourth. -/
theorem codesOfLines_outcome_behind :
    EndsLine "\x7b\"code\":\"a\"\x7d\r\n\n" ∧
      codesOfLines "p" 1 (lines "\x7b\"code\":\"a\"\x7d\r\n\n") = .ok ["a"] ∧
      codesOfLines "p" 1 (lines " \n\x7b\"code\":1\x7d") = .error (.missingCode "p" 2) ∧
      codesOfLines "p" 1
          (lines ("\x7b\"code\":\"a\"\x7d\r\n\n" ++ " \n\x7b\"code\":1\x7d"))
        = .error (.missingCode "p" 4) := by
  have hends : EndsLine "\x7b\"code\":\"a\"\x7d\r\n\n" := Or.inr (by decide)
  have hread : codesOfLines "p" 1 (lines "\x7b\"code\":\"a\"\x7d\r\n\n") = .ok ["a"] := by
    decide +kernel
  have hfault : codesOfLines "p" 1 (lines " \n\x7b\"code\":1\x7d")
      = .error (.missingCode "p" 2) := by
    decide +kernel
  exact ⟨hends, hread, hfault,
    ((codesOfLines_outcome "p").2 _ _ _ hends hread).2.2 _ hfault⟩

end Corpus

end CorpusMark
