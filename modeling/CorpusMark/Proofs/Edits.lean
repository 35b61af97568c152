import CorpusMark.Proofs.EditOrder
import CorpusMark.Proofs.Slices
import Mathlib.Tactic.SplitIfs

/-!
# Edited texts

What `applyEdits` makes of a text, stated without an order of application.
`Spliced pos edits source out` copies the text up to the next edit, drops the
bytes of its range, puts in its replacement and goes on behind the range, so
every byte outside the ranges is copied once and in order. Stacked edits are
applied exactly so (`spliced_of_stacked`), and they can be applied whenever their
ranges lie in the text (`exists_applyEdits_of_stacked`). Edits of ranges that are
not empty and do not overlap are stacked.

The edits are applied from right to left. The invariant of that loop is that
the text up to the edits that are done is still the one of the source
(`spliced_of_foldlM`).
-/

namespace CorpusMark

namespace Edit

open Text

/-! ## One edit -/

/-- The range of the edit lies in the text. -/
def InText (text : List Char) (e : Edit) : Prop :=
  ∃ before old after, text = before ++ old ++ after ∧ byteLength before = e.span.start ∧
    byteLength (before ++ old) = e.span.stop

theorem applyTo_of_split {before old after : List Char} {e : Edit}
    (hstart : byteLength before = e.span.start) (hstop : byteLength (before ++ old) = e.span.stop) :
    applyTo (before ++ old ++ after) e = .ok (before ++ e.replacement.toList ++ after) := by
  have hcut : cut? (before ++ old ++ after) e.span.start = some (before, old ++ after) :=
    cut?_eq_some_iff.mpr ⟨by simp, hstart⟩
  have hcut' : cut? (before ++ old ++ after) e.span.stop = some (before ++ old, after) :=
    cut?_eq_some_iff.mpr ⟨rfl, hstop⟩
  have hle : ¬ e.span.stop < e.span.start := by
    rw [byteLength_append] at hstop
    omega
  rw [applyTo, hcut, hcut']
  simp [hle]

/-- An edit can be applied exactly if its range lies in the text, and it
replaces what stands there. -/
theorem applyTo_eq_ok_iff {text out : List Char} {e : Edit} :
    applyTo text e = .ok out ↔ ∃ before old after, text = before ++ old ++ after ∧
      byteLength before = e.span.start ∧ byteLength (before ++ old) = e.span.stop ∧
      out = before ++ e.replacement.toList ++ after := by
  constructor
  · intro h
    unfold applyTo at h
    split at h
    · rename_i before rest upto after hcut hcut'
      split_ifs at h with hle
      cases h
      obtain ⟨rfl, hstart⟩ := cut?_eq_some_iff.mp hcut
      obtain ⟨htext, hstop⟩ := cut?_eq_some_iff.mp hcut'
      obtain ⟨old, rfl, rfl⟩ := exists_between htext.symm (by omega)
      exact ⟨before, old, after, by simp, hstart, hstop, rfl⟩
    · cases h
  · rintro ⟨before, old, after, rfl, hstart, hstop, rfl⟩
    exact applyTo_of_split hstart hstop

/-! ## The edited text -/

/-- The text `out` is `source` from byte `pos` on, with the range of every edit
replaced and everything else copied. -/
inductive Spliced : Nat → List Edit → List Char → List Char → Prop where
  | nil {pos : Nat} (text : List Char) : Spliced pos [] text text
  | cons {pos : Nat} {e : Edit} {edits : List Edit} {gap old source out : List Char}
      (start : e.span.start = pos + byteLength gap)
      (stop : e.span.stop = e.span.start + byteLength old)
      (rest : Spliced e.span.stop edits source out) :
      Spliced pos (e :: edits) (gap ++ old ++ source) (gap ++ e.replacement.toList ++ out)

/-- More text in front of the first edit is copied. -/
theorem Spliced.prepend {pos : Nat} {edits : List Edit} {source out : List Char}
    {gap : List Char} (h : Spliced (pos + byteLength gap) edits source out) :
    Spliced pos edits (gap ++ source) (gap ++ out) := by
  cases h with
  | nil text => exact .nil _
  | @cons _ e edits gap' old source out hstart hstop hrest =>
    rw [← List.append_assoc, ← List.append_assoc, ← List.append_assoc, ← List.append_assoc]
    refine .cons ?_ hstop hrest
    rw [byteLength_append]
    omega

/-- An edit right at the position copies nothing first. -/
theorem Spliced.cons_start {e : Edit} {edits : List Edit} {old source out : List Char}
    (stop : e.span.stop = e.span.start + byteLength old)
    (rest : Spliced e.span.stop edits source out) :
    Spliced e.span.start (e :: edits) (old ++ source) (e.replacement.toList ++ out) :=
  @Spliced.cons e.span.start e edits [] old source out (Nat.add_zero _).symm stop rest

/-- **An edited text is determined** by the source and the edits. -/
theorem Spliced.unique {pos : Nat} {edits : List Edit} {source out out' : List Char}
    (h : Spliced pos edits source out) (h' : Spliced pos edits source out') : out = out' := by
  induction h generalizing out' with
  | nil text =>
    cases h'
    rfl
  | @cons pos e edits gap old source out hstart hstop hrest ih =>
    generalize htext : gap ++ old ++ source = text at h'
    cases h' with
    | @cons _ _ _ gap' old' source' out' hstart' hstop' hrest' =>
      rw [List.append_assoc, List.append_assoc] at htext
      obtain ⟨rfl, htail⟩ := append_inj_of_byteLength htext (by omega)
      obtain ⟨rfl, rfl⟩ := append_inj_of_byteLength htail (by omega)
      rw [ih hrest']

/-! ## Right to left -/

/-- Applying stacked edits. Up to the edits that are done the text is that of
the source, and behind that it is spliced. -/
theorem spliced_of_foldlM {edits done : List Edit} {pre source out' out : List Char}
    (hstacked : Stacked edits) (hbound : ∀ e ∈ edits, e.span.stop ≤ byteLength pre)
    (hdone : Spliced (byteLength pre) done source out')
    (h : edits.foldlM applyTo (pre ++ out') = .ok out) :
    Spliced 0 (edits.reverse ++ done) (pre ++ source) out := by
  induction edits generalizing done pre source out' with
  | nil =>
    cases h
    rw [← Nat.zero_add (byteLength pre)] at hdone
    exact hdone.prepend
  | cons e edits ih =>
    obtain ⟨hhead, htail⟩ := List.pairwise_cons.mp hstacked
    rw [List.foldlM_cons] at h
    cases hstep : applyTo (pre ++ out') e with
    | error err =>
      rw [hstep] at h
      cases h
    | ok text =>
      rw [hstep] at h
      obtain ⟨before, old, after, htext, hstart, hstop, rfl⟩ := applyTo_eq_ok_iff.mp hstep
      have hle : byteLength (before ++ old) ≤ byteLength pre := by
        rw [hstop]
        exact hbound e List.mem_cons_self
      obtain ⟨gap, rfl, rfl⟩ := exists_between htext hle
      rw [byteLength_append] at hstop hdone
      -- the edit is done: what is left untouched ends before it
      have hnext : Spliced (byteLength before) (e :: done) (old ++ (gap ++ source))
          (e.replacement.toList ++ (gap ++ out')) := by
        rw [byteLength_append, hstop] at hdone
        rw [hstart]
        exact .cons_start (by omega) hdone.prepend
      have hstep' : edits.foldlM applyTo
          (before ++ (e.replacement.toList ++ (gap ++ out'))) = .ok out := by
        rw [List.append_assoc] at h
        exact h
      have hspliced := ih htail (fun d hd => by rw [hstart]; exact hhead d hd) hnext hstep'
      simpa using hspliced

theorem stop_le_of_applyTo {text out : List Char} {e : Edit} (h : applyTo text e = .ok out) :
    e.span.start ≤ e.span.stop ∧ e.span.stop ≤ byteLength text := by
  obtain ⟨before, old, after, rfl, hstart, hstop, -⟩ := applyTo_eq_ok_iff.mp h
  simp only [byteLength_append] at *
  omega

/-- If the first of stacked edits ends in the text, all do. -/
theorem stop_le_of_foldlM {edits : List Edit} {text out : List Char} (hstacked : Stacked edits)
    (h : edits.foldlM applyTo text = .ok out) {d : Edit} (hd : d ∈ edits) :
    d.span.stop ≤ byteLength text := by
  cases edits with
  | nil => cases hd
  | cons e edits =>
    rw [List.foldlM_cons] at h
    cases hstep : applyTo text e with
    | error err =>
      rw [hstep] at h
      cases h
    | ok next =>
      obtain ⟨hle, hbound⟩ := stop_le_of_applyTo hstep
      rcases List.mem_cons.mp hd with rfl | hd
      · exact hbound
      · have := (List.pairwise_cons.mp hstacked).1 d hd
        omega

/-- Whether a range lies in a text does not depend on what comes behind it. -/
theorem inText_append_iff {e : Edit} {pre rest : List Char}
    (hle : e.span.stop ≤ byteLength pre) : e.InText (pre ++ rest) ↔ e.InText pre := by
  constructor
  · rintro ⟨before, old, after, htext, hstart, hstop⟩
    obtain ⟨gap, rfl, -⟩ := exists_between htext (by omega)
    exact ⟨before, old, gap, rfl, hstart, hstop⟩
  · rintro ⟨before, old, after, rfl, hstart, hstop⟩
    exact ⟨before, old, after ++ rest, by simp, hstart, hstop⟩

/-- **One step of the application.** For the edits left of it, the text before the edit is
as good as the whole. -/
theorem exists_foldlM_cons {e : Edit} {edits : List Edit} {pre : List Char}
    (hhead : ∀ d ∈ edits, d.span.stop ≤ e.span.start) (hin : e.InText pre) (rest : List Char) :
    ∃ before rest',
      (e :: edits).foldlM applyTo (pre ++ rest) = edits.foldlM applyTo (before ++ rest') ∧
        ∀ d ∈ edits, d.span.stop ≤ byteLength before ∧ (d.InText pre ↔ d.InText before) := by
  obtain ⟨before, old, after, rfl, hstart, hstop⟩ := hin
  have hstep : applyTo (before ++ old ++ after ++ rest) e
      = .ok (before ++ (e.replacement.toList ++ (after ++ rest))) := by
    rw [List.append_assoc (before ++ old), applyTo_of_split hstart hstop, List.append_assoc]
  refine ⟨before, e.replacement.toList ++ (after ++ rest), ?_, fun d hd => ?_⟩
  · rw [List.foldlM_cons, hstep]
    rfl
  · have hle : d.span.stop ≤ byteLength before := by
      rw [hstart]
      exact hhead d hd
    rw [List.append_assoc, inText_append_iff hle]
    exact ⟨hle, Iff.rfl⟩

/-- Stacked edits in the text can be applied. -/
theorem exists_foldlM {edits : List Edit} {pre : List Char} (hstacked : Stacked edits)
    (hin : ∀ e ∈ edits, e.InText pre) (rest : List Char) :
    ∃ out, edits.foldlM applyTo (pre ++ rest) = .ok out := by
  induction edits generalizing pre rest with
  | nil => exact ⟨_, rfl⟩
  | cons e edits ih =>
    obtain ⟨hhead, htail⟩ := List.pairwise_cons.mp hstacked
    obtain ⟨before, rest', hstep, hbound⟩ :=
      exists_foldlM_cons hhead (hin e List.mem_cons_self) rest
    rw [hstep]
    exact ih htail (fun d hd => (hbound d hd).2.mp (hin d (List.mem_cons_of_mem e hd))) _

/-! ## Lists of edits -/

variable {source : String} {edits : List Edit}

/-- Edits that do not overlap are applied one after the other. -/
theorem applyEdits_of_apart (h : Apart edits) :
    applyEdits source edits
      = ((descending edits).foldlM applyTo source.toList).map String.ofList := by
  have hfree := neighboursOverlap_of_apart (h.perm (descending_perm edits))
  simp only [applyEdits, hfree, Bool.false_eq_true, if_false]

section Stacked

variable (hstacked : Stacked (descending edits))

include hstacked

theorem applyEdits_of_stacked :
    applyEdits source edits
      = ((descending edits).foldlM applyTo source.toList).map String.ofList :=
  applyEdits_of_apart ((Apart.of_stacked hstacked).perm (descending_perm edits).symm)

/-- **The edited text is the spliced one.** -/
theorem spliced_of_stacked {out : String} (h : applyEdits source edits = .ok out) :
    Spliced 0 (descending edits).reverse source.toList out.toList := by
  rw [applyEdits_of_stacked hstacked] at h
  cases hfold : (descending edits).foldlM applyTo source.toList with
  | error e =>
    rw [hfold] at h
    cases h
  | ok text =>
    rw [hfold] at h
    cases h
    have hnil : Spliced (byteLength source.toList) [] [] [] := .nil []
    have hspliced := spliced_of_foldlM hstacked (fun _ => stop_le_of_foldlM hstacked hfold)
      hnil (by rwa [List.append_nil])
    rwa [List.append_nil, List.append_nil, ← String.toList_ofList (l := text)] at hspliced

/-- Edits in the text can be applied. -/
theorem exists_applyEdits_of_stacked (hin : ∀ e ∈ edits, e.InText source.toList) :
    ∃ out, applyEdits source edits = .ok out := by
  have hin' : ∀ e ∈ descending edits, e.InText source.toList :=
    fun e he => hin e ((descending_perm edits).mem_iff.mp he)
  obtain ⟨text, htext⟩ := exists_foldlM hstacked hin' []
  rw [List.append_nil] at htext
  exact ⟨String.ofList text, by rw [applyEdits_of_stacked hstacked, htext]; rfl⟩

/-- Edits in the text replace their ranges, all at once. -/
theorem exists_spliced_of_stacked (hin : ∀ e ∈ edits, e.InText source.toList) :
    ∃ out sorted, applyEdits source edits = .ok out ∧ sorted.Perm edits ∧
      (sorted.Pairwise fun a b => a.span.stop ≤ b.span.start) ∧
      Spliced 0 sorted source.toList out.toList := by
  obtain ⟨out, hout⟩ := exists_applyEdits_of_stacked hstacked hin
  exact ⟨out, (descending edits).reverse, hout,
    (List.reverse_perm _).trans (descending_perm edits), List.pairwise_reverse.mpr hstacked,
    spliced_of_stacked hstacked hout⟩

end Stacked

/-- Edits with different ranges that do not overlap have one result in all orders in which
insertions come last. -/
theorem applyEdits_eq_of_insertionsLast {edits' : List Edit}
    (hle : ∀ e ∈ edits, e.span.start ≤ e.span.stop) (hdistinct : (edits.map Edit.span).Nodup)
    (hapart : Apart edits) (hlast : InsertionsLast edits) (hperm : edits'.Perm edits)
    (hlast' : InsertionsLast edits') : applyEdits source edits' = applyEdits source edits := by
  have hle' : ∀ e ∈ edits', e.span.start ≤ e.span.stop :=
    fun e he => hle e (hperm.mem_iff.mp he)
  have hstacked := stacked_descending_of_insertionsLast hle hlast hapart
  have hstacked' := stacked_descending_of_insertionsLast hle' hlast' (hapart.perm hperm)
  rw [applyEdits_of_stacked hstacked, applyEdits_of_stacked hstacked',
    descending_eq_of_stacked hle hdistinct hstacked hstacked' hperm]

/-! Ranges that are not empty and do not overlap are stacked. -/

section ApplyEdits

variable (hspan : ∀ e ∈ edits, e.span.start < e.span.stop)
  (hdisjoint : edits.Pairwise fun a b => a.span.overlaps b.span = false)

include hspan hdisjoint

theorem spliced_of_applyEdits {out : String} (h : applyEdits source edits = .ok out) :
    Spliced 0 (descending edits).reverse source.toList out.toList :=
  spliced_of_stacked (stacked_descending hspan hdisjoint) h

theorem exists_applyEdits (hin : ∀ e ∈ edits, e.InText source.toList) :
    ∃ out, applyEdits source edits = .ok out :=
  exists_applyEdits_of_stacked (stacked_descending hspan hdisjoint) hin

end ApplyEdits

end Edit

end CorpusMark
