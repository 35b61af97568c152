import CorpusMark.Proofs.Edits
import CorpusMark.Proofs.Rewriting
import Mathlib

/-!
# Lists of edits

What becomes of a list of edits whose ranges are not empty, in any order. Once
they are sorted, neighbours that do not overlap are stacked, so no two edits
overlap at all (`neighboursOverlap_descending`). A text that has been edited from
the right is still that of the source up to where the last edit starts. So an
edit can be applied exactly if its range lies in the source, and the first one
that cannot is the one with the greatest start (`foldlM_applyTo_eq_error`).
The order of the list has no influence (`applyEdits_eq_of_perm`).
`applyAll_outcome` puts this together.
-/

namespace CorpusMark

namespace Edit

open Text

variable {e : Edit} {edits : List Edit} {text pre rest : List Char}

/-! ## Edits that overlap -/

/-- **Among sorted edits it is enough to look at neighbours.** -/
theorem neighboursOverlap_descending (hspan : ∀ e ∈ edits, e.span.start < e.span.stop) :
    neighboursOverlap (descending edits) = false ↔ Apart edits :=
  neighboursOverlap_descending_of_insertionsLast (fun e he => (hspan e he).le)
    (.of_nonempty hspan)

/-! ## Edits outside a text -/

/-- The edit ends past the text, or its range starts or ends inside a character. -/
def Offends (text : List Char) (e : Edit) : Prop :=
  byteLength text < e.span.stop ∨ isBoundary text e.span.start = false ∨
    isBoundary text e.span.stop = false

instance (text : List Char) (e : Edit) : Decidable (e.Offends text) :=
  inferInstanceAs (Decidable (_ ∨ _))

/-- A range that does not end before it starts lies in the text or offends. -/
theorem not_offends_iff (hle : e.span.start ≤ e.span.stop) :
    ¬ e.Offends text ↔ e.InText text := by
  simp only [Offends, not_or, Nat.not_lt, Bool.not_eq_false]
  constructor
  · rintro ⟨-, hstart, hstop⟩
    exact exists_split hle hstart hstop
  · rintro ⟨before, old, after, rfl, hstart, hstop⟩
    refine ⟨?_, isBoundary_iff.mpr ⟨before, old ++ after, by simp, hstart⟩,
      isBoundary_iff.mpr ⟨before ++ old, after, rfl, hstop⟩⟩
    rw [byteLength_append, hstop]
    exact Nat.le_add_right _ _

/-- An edit whose range does not lie in the text is refused and named. -/
theorem applyTo_eq_error (hle : e.span.start ≤ e.span.stop) (h : ¬ e.InText text) :
    applyTo text e = .error (.outside e.span) := by
  cases happly : applyTo text e with
  | ok out =>
    obtain ⟨before, old, after, htext, hstart, hstop, -⟩ := applyTo_eq_ok_iff.mp happly
    exact absurd ⟨before, old, after, htext, hstart, hstop⟩ h
  | error err =>
    unfold applyTo at happly
    split at happly
    · rw [if_neg (Nat.not_lt.mpr hle)] at happly
      cases happly
    · exact happly.symm

/-- **Of stacked edits the first one whose range does not lie in the text is
refused.** The text up to the edits that are done is still that of the source, and
the others end there, unless nothing is done yet. -/
theorem foldlM_applyTo_eq_error {front back : List Edit}
    (hstacked : Stacked (front ++ e :: back))
    (hdone : rest = [] ∨ ∀ d ∈ front ++ e :: back, d.span.stop ≤ byteLength pre)
    (hfront : ∀ d ∈ front, d.InText pre) (hle : e.span.start ≤ e.span.stop)
    (he : ¬ e.InText pre) :
    (front ++ e :: back).foldlM applyTo (pre ++ rest) = .error (.outside e.span) := by
  induction front generalizing pre rest with
  | nil =>
    have hout : ¬ e.InText (pre ++ rest) := by
      rcases hdone with rfl | hdone
      · rwa [List.append_nil]
      · rwa [inText_append_iff (hdone e List.mem_cons_self)]
    rw [List.nil_append, List.foldlM_cons, applyTo_eq_error hle hout]
    rfl
  | cons d front ih =>
    rw [List.cons_append] at hstacked hdone ⊢
    obtain ⟨hhead, htail⟩ := List.pairwise_cons.mp hstacked
    obtain ⟨before, rest', hstep, hbound⟩ :=
      exists_foldlM_cons hhead (hfront d List.mem_cons_self) rest
    rw [hstep]
    refine ih htail (.inr fun x hx => (hbound x hx).1) (fun x hx => ?_) ?_
    · have hx' : x ∈ front ++ e :: back := List.mem_append_left _ hx
      exact (hbound x hx').2.mp (hfront x (List.mem_cons_of_mem d hx))
    · rwa [← (hbound e (List.mem_append_right _ List.mem_cons_self)).2]

/-! ## Orders of a list -/

/-- The order of the edits does not matter. -/
theorem applyEdits_eq_of_perm {source : String} {edits' : List Edit}
    (hspan : ∀ e ∈ edits, e.span.start < e.span.stop) (hperm : edits'.Perm edits) :
    applyEdits source edits' = applyEdits source edits := by
  have hspan' : ∀ e ∈ edits', e.span.start < e.span.stop :=
    fun e he => hspan e (hperm.mem_iff.mp he)
  by_cases hapart : Apart edits
  · exact applyEdits_eq_of_insertionsLast (fun e he => (hspan e he).le)
      (hapart.nodup_spans hspan) hapart (.of_nonempty hspan) hperm (.of_nonempty hspan')
  · have hapart' : ¬ Apart edits' := fun h => hapart (h.perm hperm.symm)
    rw [← neighboursOverlap_descending hspan, Bool.not_eq_false] at hapart
    rw [← neighboursOverlap_descending hspan', Bool.not_eq_false] at hapart'
    rw [applyEdits, applyEdits, hapart, hapart']
    rfl

/-! ## What becomes of a list -/

section ApplyEdits

variable {source : String} (hspan : ∀ e ∈ edits, e.span.start < e.span.stop)

include hspan

theorem applyEdits_eq_overlap (h : ¬ Apart edits) :
    applyEdits source edits = .error .overlap := by
  rw [← neighboursOverlap_descending hspan, Bool.not_eq_false] at h
  rw [applyEdits, h]
  rfl

variable (hapart : Apart edits)

include hapart

/-- The edit outside the source with the greatest start is refused. -/
theorem applyEdits_eq_outside (he : e ∈ edits) (hout : e.Offends source.toList)
    (hgreatest : ∀ d ∈ edits, d.Offends source.toList → d.span.start ≤ e.span.start) :
    applyEdits source edits = .error (.outside e.span) := by
  have hle : ∀ d ∈ edits, d.span.start ≤ d.span.stop := fun d hd => (hspan d hd).le
  obtain ⟨front, back, hsplit⟩ := List.append_of_mem ((descending_perm edits).mem_iff.mpr he)
  have hstacked := stacked_descending hspan hapart
  rw [hsplit] at hstacked
  -- all edits before it start behind its end
  have hfront : ∀ d ∈ front, d.InText source.toList := by
    intro d hd
    have hmem : d ∈ edits := (descending_perm edits).mem_iff.mp (by simp [hsplit, hd])
    have hbehind := (List.pairwise_append.mp hstacked).2.2 d hd e List.mem_cons_self
    refine (not_offends_iff (hle d hmem)).mp fun hoff => ?_
    have := hgreatest d hmem hoff
    have := hspan e he
    omega
  have hfold : (front ++ e :: back).foldlM applyTo (source.toList ++ [])
      = .error (.outside e.span) :=
    foldlM_applyTo_eq_error hstacked (.inl rfl) hfront (hle e he)
      fun hin => (not_offends_iff (hle e he)).mpr hin hout
  rw [applyEdits_of_apart hapart, hsplit]
  rw [List.append_nil] at hfold
  rw [hfold]
  rfl

/-- Edits in the source replace their ranges, all at once. -/
theorem applyEdits_eq_spliced (hin : ∀ e ∈ edits, ¬ e.Offends source.toList) :
    ∃ out sorted, applyEdits source edits = .ok out ∧ sorted.Perm edits ∧
      (sorted.Pairwise fun a b => a.span.stop ≤ b.span.start) ∧
      Spliced 0 sorted source.toList out.toList :=
  exists_spliced_of_stacked (stacked_descending hspan hapart)
    fun e he => (not_offends_iff (hspan e he).le).mp (hin e he)

end ApplyEdits

/-- If some edit is outside the source, one of them has the greatest start. -/
theorem exists_greatest_offending (h : ∃ e ∈ edits, e.Offends text) :
    ∃ e ∈ edits, e.Offends text ∧
      ∀ d ∈ edits, d.Offends text → d.span.start ≤ e.span.start := by
  obtain ⟨d, hd, hoff⟩ := h
  have hsome : (edits.toFinset.filter (Offends text ·)).Nonempty :=
    ⟨d, Finset.mem_filter.mpr ⟨List.mem_toFinset.mpr hd, hoff⟩⟩
  obtain ⟨e, he, hgreatest⟩ := Finset.exists_max_image _ (fun e => e.span.start) hsome
  simp only [Finset.mem_filter, List.mem_toFinset, and_imp] at he hgreatest
  exact ⟨e, he.1, he.2, hgreatest⟩

end Edit

namespace Rewriter

open Edit

theorem applyAll_eq_error {source : String} {edits : List Edit} {e : EditError}
    (h : applyEdits source edits = .error e) :
    applyAll source edits = .error e.toTransformError := by
  rw [applyAll, h]
  rfl

/-- **What becomes of edits whose ranges are not empty**, in whatever order they
are. They interfere exactly if two of them overlap. Otherwise the result is
invalid exactly if one goes past the source or cuts a character of it, and the one
with the greatest start is named. In all other cases the ranges are replaced and
what is between them is copied. -/
theorem applyAll_outcome {source : String} {edits : List Edit}
    (hspan : ∀ e ∈ edits, e.span.start < e.span.stop) :
    (applyAll source edits = .error (.interference []) ↔ ¬ Apart edits) ∧
      (Apart edits →
        ((∃ reason, applyAll source edits = .error (.invalidOutput reason)) ↔
          ∃ e ∈ edits, e.Offends source.toList) ∧
        (∀ e ∈ edits, e.Offends source.toList →
          (∀ d ∈ edits, d.Offends source.toList → d.span.start ≤ e.span.start) →
            applyAll source edits = .error (.invalidOutput
              s!"edit {e.span.start}..{e.span.stop} falls outside the source")) ∧
        ((∀ e ∈ edits, ¬ e.Offends source.toList) →
          ∃ out sorted, applyAll source edits = .ok out ∧ sorted.Perm edits ∧
            (sorted.Pairwise fun a b => a.span.stop ≤ b.span.start) ∧
            Spliced 0 sorted source.toList out.toList)) ∧
      ∀ edits' : List Edit, edits'.Perm edits → applyAll source edits' = applyAll source edits := by
  have hoverlap : ¬ Apart edits → applyAll source edits = .error (.interference []) :=
    fun h => applyAll_eq_error (applyEdits_eq_overlap hspan h)
  have houtside : Apart edits → ∀ e ∈ edits, e.Offends source.toList →
      (∀ d ∈ edits, d.Offends source.toList → d.span.start ≤ e.span.start) →
        applyAll source edits = .error (.invalidOutput
          s!"edit {e.span.start}..{e.span.stop} falls outside the source") :=
    fun hapart e he hoff hgreatest =>
      applyAll_eq_error (applyEdits_eq_outside hspan hapart he hoff hgreatest)
  have hinside : Apart edits → (∀ e ∈ edits, ¬ e.Offends source.toList) →
      ∃ out sorted, applyAll source edits = .ok out ∧ sorted.Perm edits ∧
        (sorted.Pairwise fun a b => a.span.stop ≤ b.span.start) ∧
        Spliced 0 sorted source.toList out.toList := by
    intro hapart hin
    obtain ⟨out, sorted, hout, hspliced⟩ := applyEdits_eq_spliced hspan hapart hin
    exact ⟨out, sorted, applyAll_eq_ok_iff.mpr hout, hspliced⟩
  -- edits that do not overlap are invalid or applied
  have hapart_iff : Apart edits →
      ((∃ reason, applyAll source edits = .error (.invalidOutput reason)) ↔
        ∃ e ∈ edits, e.Offends source.toList) := by
    intro hapart
    constructor
    · rintro ⟨reason, hreason⟩
      by_contra hnone
      obtain ⟨out, -, hout, -⟩ := hinside hapart fun e he hoff => hnone ⟨e, he, hoff⟩
      rw [hout] at hreason
      cases hreason
    · intro hsome
      obtain ⟨e, he, hoff, hgreatest⟩ := exists_greatest_offending hsome
      exact ⟨_, houtside hapart e he hoff hgreatest⟩
  refine ⟨⟨fun hinterference hapart => ?_, hoverlap⟩,
    fun hapart => ⟨hapart_iff hapart, houtside hapart, hinside hapart⟩, fun edits' hperm => ?_⟩
  · by_cases hsome : ∃ e ∈ edits, e.Offends source.toList
    · obtain ⟨reason, hreason⟩ := (hapart_iff hapart).mpr hsome
      rw [hreason] at hinterference
      cases hinterference
    · obtain ⟨out, -, hout, -⟩ := hinside hapart fun e he hoff => hsome ⟨e, he, hoff⟩
      rw [hout] at hinterference
      cases hinterference
  · rw [applyAll, applyAll, applyEdits_eq_of_perm hspan hperm]

/-- Two edits of `é+f(x)` that do not overlap and are both outside: one cuts the
first character and one goes past the end. -/
theorem applyAll_outcome_outside :
    (∀ e ∈ ([⟨⟨1, 3⟩, "a"⟩, ⟨⟨4, 9⟩, "g"⟩] : List Edit), e.span.start < e.span.stop) ∧
      Apart [⟨⟨1, 3⟩, "a"⟩, ⟨⟨4, 9⟩, "g"⟩] ∧
      applyAll "é+f(x)" [⟨⟨1, 3⟩, "a"⟩, ⟨⟨4, 9⟩, "g"⟩]
        = .error (.invalidOutput "edit 4..9 falls outside the source") ∧
      applyAll "é+f(x)" [⟨⟨4, 9⟩, "g"⟩, ⟨⟨1, 3⟩, "a"⟩]
        = .error (.invalidOutput "edit 4..9 falls outside the source") := by
  have hspan : ∀ e ∈ ([⟨⟨1, 3⟩, "a"⟩, ⟨⟨4, 9⟩, "g"⟩] : List Edit), e.span.start < e.span.stop := by
    decide
  have hapart : Apart [⟨⟨1, 3⟩, "a"⟩, ⟨⟨4, 9⟩, "g"⟩] := by
    unfold Apart
    decide
  obtain ⟨-, hrest, hperm⟩ := @applyAll_outcome "é+f(x)" _ hspan
  have hout := (hrest hapart).2.1 ⟨⟨4, 9⟩, "g"⟩ (by simp) (by decide) (by decide)
  exact ⟨hspan, hapart, hout, (hperm _ (.swap _ _ [])).trans hout⟩

end Rewriter

end CorpusMark
