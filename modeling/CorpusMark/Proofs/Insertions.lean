import CorpusMark.Proofs.EditLists

/-!
# Edits with insertions

What becomes of a list of edits some of which only put text in. An insertion has
its start in common with the edit that replaces what follows, and the two do not
overlap. They are sorted by their starts alone, so the list decides which of them
is applied first.

Two things depend on that. The first is which overlaps are found. `OverlapSeen`
says what a look at neighbours finds in any list (`applyAll_interference`): an
overlap is missed if an insertion is sorted between the two edits, at the start of
the lower one (`not_interference_hidden`). The second is what the ranges mean. An
insertion that is applied first moves the bytes that the other edit was to replace
(`not_spliced_insertionFirst`). In lists in which insertions come last, every
overlap is refused and edits that do not overlap are all applied to the source
(`applyAll_insertionsLast`).
-/

namespace CorpusMark

namespace Edit

variable {edits : List Edit}

/-! ## What a look at neighbours finds -/

/-- Two edits of a list overlap and are found to do so. -/
inductive OverlapSeen (edits : List Edit) : Prop where
  /-- Of the edits with one start two follow each other that both take something away. -/
  | atStart {start : Nat} {front back : List Edit} {a b : Edit}
    (group : startingAt start edits = front ++ a :: b :: back)
    (removes : ¬ a.IsInsertion) (removes' : ¬ b.IsInsertion) : OverlapSeen edits
  /-- The first edit with some start reaches past a greater start. -/
  | acrossStarts {start : Nat} {back : List Edit} {a b : Edit}
    (group : startingAt start edits = b :: back) (mem : a ∈ edits)
    (behind : start < a.span.start) (reaches : a.span.start < b.span.stop) : OverlapSeen edits

theorem overlapSeen_descending_iff : OverlapSeen (descending edits) ↔ OverlapSeen edits := by
  constructor
  · rintro (⟨group, removes, removes'⟩ | ⟨group, mem, behind, reaches⟩)
    · rw [startingAt_descending] at group
      exact .atStart group removes removes'
    · rw [startingAt_descending] at group
      exact .acrossStarts group ((descending_perm edits).mem_iff.mp mem) behind reaches
  · rintro (⟨group, removes, removes'⟩ | ⟨group, mem, behind, reaches⟩)
    · rw [← startingAt_descending] at group
      exact .atStart group removes removes'
    · rw [← startingAt_descending] at group
      exact .acrossStarts group ((descending_perm edits).mem_iff.mpr mem) behind reaches

theorem neighboursOverlap_iff :
    neighboursOverlap edits = true ↔ ∃ front a b back, edits = front ++ a :: b :: back ∧
      b.span.overlaps a.span = true := by
  constructor
  · intro h
    induction edits with
    | nil => cases h
    | cons a rest ih =>
      cases rest with
      | nil => cases h
      | cons b back =>
        rw [neighboursOverlap, Bool.or_eq_true] at h
        rcases h with hab | hrest
        · exact ⟨[], a, b, back, rfl, hab⟩
        · obtain ⟨front, c, d, back', heq, hcd⟩ := ih hrest
          exact ⟨a :: front, c, d, back', by rw [heq, List.cons_append], hcd⟩
  · rintro ⟨front, a, b, back, rfl, hab⟩
    induction front with
    | nil => rw [List.nil_append, neighboursOverlap, hab, Bool.true_or]
    | cons c front ih =>
      cases front with
      | nil =>
        rw [List.nil_append] at ih
        rw [List.cons_append, List.nil_append, neighboursOverlap, ih, Bool.or_true]
      | cons d front =>
        rw [List.cons_append] at ih
        rw [List.cons_append, List.cons_append, neighboursOverlap, ih, Bool.or_true]

/-- In a sorted list the edits with one start stand together. -/
theorem exists_split_startingAt (start : Nat)
    (hsorted : edits.Pairwise fun a b => b.span.start ≤ a.span.start) :
    ∃ high low, edits = high ++ startingAt start edits ++ low ∧
      (∀ e ∈ high, start < e.span.start) ∧ ∀ e ∈ low, e.span.start < start := by
  induction edits with
  | nil => exact ⟨[], [], rfl, by simp, by simp⟩
  | cons a rest ih =>
    obtain ⟨hfirst, htail⟩ := List.pairwise_cons.mp hsorted
    obtain ⟨high, low, hrest, hhigh, hlow⟩ := ih htail
    rcases Nat.lt_trichotomy a.span.start start with hlt | heq | hgt
    · -- everything else starts even lower
      have hlower : ∀ e ∈ a :: rest, e.span.start < start := by
        intro e he
        rcases List.mem_cons.mp he with rfl | he
        · exact hlt
        · exact Nat.lt_of_le_of_lt (hfirst e he) hlt
      have hnone := startingAt_eq_nil fun e he => Nat.ne_of_lt (hlower e he)
      exact ⟨[], a :: rest, by rw [hnone]; rfl, by simp, hlower⟩
    · -- nothing that comes later starts higher
      have hnil : high = [] := by
        refine List.eq_nil_iff_forall_not_mem.mpr fun e he => ?_
        have := hhigh e he
        have := hfirst e (by rw [hrest]; simp [he])
        omega
      subst hnil
      refine ⟨[], low, ?_, by simp, hlow⟩
      rw [startingAt_cons_self heq]
      exact congrArg (a :: ·) hrest
    · refine ⟨a :: high, low, ?_, fun e he => ?_, hlow⟩
      · rw [startingAt_cons_of_ne (Nat.ne_of_gt hgt)]
        exact congrArg (a :: ·) hrest
      · rcases List.mem_cons.mp he with rfl | he
        · exact hgt
        · exact hhigh e he

/-- Neighbours of a sorted list that overlap. -/
theorem overlapSeen_of_neighboursOverlap (hle : ∀ e ∈ edits, e.span.start ≤ e.span.stop)
    (hsorted : edits.Pairwise fun a b => b.span.start ≤ a.span.start)
    (h : neighboursOverlap edits = true) : OverlapSeen edits := by
  obtain ⟨front, a, b, back, rfl, hab⟩ := neighboursOverlap_iff.mp h
  rw [Span.overlaps_iff] at hab
  obtain ⟨-, hpair, hfront⟩ := List.pairwise_append.mp hsorted
  have hba : b.span.start ≤ a.span.start :=
    (List.pairwise_cons.mp hpair).1 b List.mem_cons_self
  by_cases hstart : a.span.start = b.span.start
  · have hgroup : startingAt b.span.start (front ++ a :: b :: back)
        = startingAt b.span.start front ++ a :: b :: startingAt b.span.start back := by
      rw [startingAt_append, startingAt_cons_self hstart, startingAt_cons_self rfl]
    exact .atStart hgroup (by rw [IsInsertion]; omega) (by rw [IsInsertion]; omega)
  · -- all edits in front of the two start higher as well
    have hnone : startingAt b.span.start front = [] := by
      refine startingAt_eq_nil fun e he => ?_
      have := hfront e he a List.mem_cons_self
      omega
    have hgroup : startingAt b.span.start (front ++ a :: b :: back)
        = b :: startingAt b.span.start back := by
      rw [startingAt_append, hnone, startingAt_cons_of_ne hstart, startingAt_cons_self rfl,
        List.nil_append]
    exact .acrossStarts hgroup (a := a) (by simp) (by omega) (by omega)

theorem neighboursOverlap_of_overlapSeen (hle : ∀ e ∈ edits, e.span.start ≤ e.span.stop)
    (hsorted : edits.Pairwise fun a b => b.span.start ≤ a.span.start)
    (h : OverlapSeen edits) : neighboursOverlap edits = true := by
  cases h with
  | @atStart start front back a b group removes removes' =>
    obtain ⟨high, low, hsplit, -, -⟩ := exists_split_startingAt start hsorted
    have ha := mem_startingAt_iff.mp (show a ∈ startingAt start edits by simp [group])
    have hb := mem_startingAt_iff.mp (show b ∈ startingAt start edits by simp [group])
    refine neighboursOverlap_iff.mpr ⟨high ++ front, a, b, back ++ low, ?_, ?_⟩
    · rw [group] at hsplit
      simpa using hsplit
    · have := hle a ha.1
      have := hle b hb.1
      rw [IsInsertion] at removes removes'
      rw [Span.overlaps_iff]
      omega
  | @acrossStarts start back a b group mem behind reaches =>
    obtain ⟨high, low, hsplit, hhigh, hlow⟩ := exists_split_startingAt start hsorted
    have hb := mem_startingAt_iff.mp (show b ∈ startingAt start edits by simp [group])
    have ha : a ∈ high := by
      rw [hsplit, List.mem_append, List.mem_append] at mem
      rcases mem with (hmem | hmem) | hmem
      · exact hmem
      · have := (mem_startingAt_iff.mp hmem).2
        omega
      · have := hlow a hmem
        omega
    -- the last edit that starts higher starts no higher than this one
    obtain ⟨init, c, rfl⟩ := (List.eq_nil_or_concat' high).resolve_left (List.ne_nil_of_mem ha)
    rw [group] at hsplit
    have hlast : c.span.start ≤ a.span.start := by
      rcases List.mem_append.mp ha with hmem | hmem
      · rw [hsplit, List.append_assoc, List.append_assoc] at hsorted
        exact (List.pairwise_append.mp hsorted).2.2 a hmem c (by simp)
      · rw [List.mem_singleton.mp hmem]
    have hc := hhigh c (by simp)
    have hcle := hle c (by rw [hsplit]; simp)
    refine neighboursOverlap_iff.mpr ⟨init, c, b, back ++ low, by simpa using hsplit, ?_⟩
    rw [Span.overlaps_iff]
    omega

/-- **What a look at neighbours finds** once edits are sorted. -/
theorem neighboursOverlap_descending_iff (hle : ∀ e ∈ edits, e.span.start ≤ e.span.stop) :
    neighboursOverlap (descending edits) = true ↔ OverlapSeen edits := by
  have hle' : ∀ e ∈ descending edits, e.span.start ≤ e.span.stop :=
    fun e he => hle e ((descending_perm edits).mem_iff.mp he)
  rw [← overlapSeen_descending_iff]
  exact ⟨overlapSeen_of_neighboursOverlap hle' (pairwise_descending edits),
    neighboursOverlap_of_overlapSeen hle' (pairwise_descending edits)⟩

theorem not_apart_of_neighboursOverlap (h : neighboursOverlap (descending edits) = true) :
    ¬ Apart edits := by
  intro hapart
  obtain ⟨front, a, b, back, hsplit, hab⟩ := neighboursOverlap_iff.mp h
  have hsorted := hapart.perm (descending_perm edits)
  rw [hsplit] at hsorted
  have hfree := (List.pairwise_cons.mp (List.pairwise_append.mp hsorted).2.1).1 b
    List.mem_cons_self
  rw [Span.overlaps_comm, hab] at hfree
  cases hfree

/-! ## Refused lists -/

theorem applyTo_ne_overlap {text : List Char} {e : Edit} : applyTo text e ≠ .error .overlap := by
  intro h
  unfold applyTo at h
  split at h
  · split_ifs at h
    cases h
  · cases h

theorem foldlM_applyTo_ne_overlap {text : List Char} :
    edits.foldlM applyTo text ≠ .error .overlap := by
  induction edits generalizing text with
  | nil =>
    intro h
    cases h
  | cons e edits ih =>
    intro h
    rw [List.foldlM_cons] at h
    cases hstep : applyTo text e with
    | ok next =>
      rw [hstep] at h
      exact ih h
    | error err =>
      rw [hstep] at h
      cases h
      exact applyTo_ne_overlap hstep

/-- Edits are refused for an overlap exactly if neighbours overlap. -/
theorem applyEdits_eq_overlap_iff {source : String} :
    applyEdits source edits = .error .overlap ↔ neighboursOverlap (descending edits) = true := by
  rw [applyEdits]
  cases neighboursOverlap (descending edits) with
  | true => simp
  | false =>
    simp only [Bool.false_eq_true, if_false, iff_false]
    intro h
    cases hfold : (descending edits).foldlM applyTo source.toList with
    | ok text =>
      rw [hfold] at h
      cases h
    | error err =>
      rw [hfold] at h
      cases h
      exact foldlM_applyTo_ne_overlap hfold

end Edit

namespace Rewriter

open Edit

theorem applyAll_eq_interference_iff {source : String} {edits : List Edit} :
    applyAll source edits = .error (.interference []) ↔
      neighboursOverlap (descending edits) = true := by
  rw [← @applyEdits_eq_overlap_iff edits source, applyAll]
  cases applyEdits source edits with
  | ok out => simp [Except.mapError]
  | error e => cases e <;> simp [Except.mapError, EditError.toTransformError]

/-- **Which lists of edits interfere**, insertions included. A list is refused exactly if
two of its edits are seen to overlap. No list is refused without an overlap, and if
insertions are listed last, every overlap is seen. -/
theorem applyAll_interference {source : String} {edits : List Edit}
    (hle : ∀ e ∈ edits, e.span.start ≤ e.span.stop) :
    (applyAll source edits = .error (.interference []) ↔ OverlapSeen edits) ∧
      (OverlapSeen edits → ¬ Apart edits) ∧
      (InsertionsLast edits → ¬ Apart edits → OverlapSeen edits) := by
  have hseen := neighboursOverlap_descending_iff hle
  refine ⟨applyAll_eq_interference_iff.trans hseen, fun h => ?_, fun hlast hoverlap => ?_⟩
  · exact not_apart_of_neighboursOverlap (hseen.mpr h)
  · rw [← neighboursOverlap_descending_of_insertionsLast hle hlast, Bool.not_eq_false] at hoverlap
    exact hseen.mp hoverlap

/-- Two edits of `abcdef` that overlap, and an insertion behind them. -/
theorem applyAll_interference_insertionLast :
    (∀ e ∈ ([⟨⟨3, 6⟩, "X"⟩, ⟨⟨0, 5⟩, "Y"⟩, ⟨⟨0, 0⟩, "I"⟩] : List Edit),
        e.span.start ≤ e.span.stop) ∧
      InsertionsLast [⟨⟨3, 6⟩, "X"⟩, ⟨⟨0, 5⟩, "Y"⟩, ⟨⟨0, 0⟩, "I"⟩] ∧
      ¬ Apart [⟨⟨3, 6⟩, "X"⟩, ⟨⟨0, 5⟩, "Y"⟩, ⟨⟨0, 0⟩, "I"⟩] ∧
      applyAll "abcdef" [⟨⟨3, 6⟩, "X"⟩, ⟨⟨0, 5⟩, "Y"⟩, ⟨⟨0, 0⟩, "I"⟩]
        = .error (.interference []) := by
  have hle : ∀ e ∈ ([⟨⟨3, 6⟩, "X"⟩, ⟨⟨0, 5⟩, "Y"⟩, ⟨⟨0, 0⟩, "I"⟩] : List Edit),
      e.span.start ≤ e.span.stop := by decide
  have hlast : InsertionsLast [⟨⟨3, 6⟩, "X"⟩, ⟨⟨0, 5⟩, "Y"⟩, ⟨⟨0, 0⟩, "I"⟩] := by decide
  have hoverlap : ¬ Apart [⟨⟨3, 6⟩, "X"⟩, ⟨⟨0, 5⟩, "Y"⟩, ⟨⟨0, 0⟩, "I"⟩] := by decide
  obtain ⟨hiff, -, hseen⟩ := @applyAll_interference "abcdef" _ hle
  exact ⟨hle, hlast, hoverlap, hiff.mpr (hseen hlast hoverlap)⟩

/-- Overlaps are not refused in every list: between the same two edits the insertion hides
one, and the text is lost. -/
theorem not_interference_hidden :
    ¬ ∀ (source : String) (edits : List Edit), (∀ e ∈ edits, e.span.start ≤ e.span.stop) →
      ¬ Apart edits → applyAll source edits = .error (.interference []) := by
  intro h
  have hle : ∀ e ∈ ([⟨⟨3, 6⟩, "X"⟩, ⟨⟨0, 0⟩, "I"⟩, ⟨⟨0, 5⟩, "Y"⟩] : List Edit),
      e.span.start ≤ e.span.stop := by decide
  have hoverlap : ¬ Apart [⟨⟨3, 6⟩, "X"⟩, ⟨⟨0, 0⟩, "I"⟩, ⟨⟨0, 5⟩, "Y"⟩] := by decide
  have happly : applyAll "abcdef" [⟨⟨3, 6⟩, "X"⟩, ⟨⟨0, 0⟩, "I"⟩, ⟨⟨0, 5⟩, "Y"⟩] = .ok "Y" := by
    cbv
  have hrefused := h "abcdef" _ hle hoverlap
  rw [happly] at hrefused
  cases hrefused

/-- **Edits with different ranges that do not overlap are all applied to the source**, in every
order in which insertions come last. The result is the source with each range replaced
in its place and all other bytes copied. -/
theorem applyAll_insertionsLast {source : String} {edits : List Edit}
    (hle : ∀ e ∈ edits, e.span.start ≤ e.span.stop)
    (hin : ∀ e ∈ edits, ¬ e.Offends source.toList)
    (hdistinct : (edits.map Edit.span).Nodup) (hapart : Apart edits) :
    ∃ out sorted, sorted.Perm edits ∧
      (sorted.Pairwise fun a b => a.span.stop ≤ b.span.start) ∧
      Spliced 0 sorted source.toList out.toList ∧
      (∃ edits', edits'.Perm edits ∧ InsertionsLast edits') ∧
      ∀ edits' : List Edit, edits'.Perm edits → InsertionsLast edits' →
        applyAll source edits' = .ok out := by
  obtain ⟨first, hfirst, hlast⟩ := exists_perm_insertionsLast edits
  have hle' : ∀ e ∈ first, e.span.start ≤ e.span.stop := fun e he => hle e (hfirst.mem_iff.mp he)
  have hapart' := hapart.perm hfirst
  have hdistinct' : (first.map Edit.span).Nodup :=
    (hfirst.map Edit.span).nodup_iff.mpr hdistinct
  have hstacked := stacked_descending_of_insertionsLast hle' hlast hapart'
  have hin' : ∀ e ∈ first, e.InText source.toList := by
    intro e he
    have hmem := hfirst.mem_iff.mp he
    exact (not_offends_iff (hle e hmem)).mp (hin e hmem)
  obtain ⟨out, sorted, hout, hsorted, hascending, hspliced⟩ :=
    exists_spliced_of_stacked hstacked hin'
  refine ⟨out, sorted, hsorted.trans hfirst, hascending, hspliced, ⟨first, hfirst, hlast⟩,
    fun edits' hperm hlast' => ?_⟩
  rw [applyAll_eq_ok_iff, ← hout]
  exact applyEdits_eq_of_insertionsLast hle' hdistinct' hapart' hlast (hperm.trans hfirst.symm)
    hlast'

/-- Two edits at the start of `é+f` and an insertion at its end, in two orders. -/
theorem applyAll_insertionsLast_twoOrders :
    (∀ e ∈ ([⟨⟨0, 2⟩, "e"⟩, ⟨⟨4, 4⟩, "()"⟩, ⟨⟨0, 0⟩, "-"⟩] : List Edit),
        e.span.start ≤ e.span.stop ∧ ¬ e.Offends "é+f".toList) ∧
      Apart [⟨⟨0, 2⟩, "e"⟩, ⟨⟨4, 4⟩, "()"⟩, ⟨⟨0, 0⟩, "-"⟩] ∧
      ∃ out, applyAll "é+f" [⟨⟨0, 2⟩, "e"⟩, ⟨⟨4, 4⟩, "()"⟩, ⟨⟨0, 0⟩, "-"⟩] = .ok out ∧
        applyAll "é+f" [⟨⟨4, 4⟩, "()"⟩, ⟨⟨0, 2⟩, "e"⟩, ⟨⟨0, 0⟩, "-"⟩] = .ok out := by
  have hedits : ∀ e ∈ ([⟨⟨0, 2⟩, "e"⟩, ⟨⟨4, 4⟩, "()"⟩, ⟨⟨0, 0⟩, "-"⟩] : List Edit),
      e.span.start ≤ e.span.stop ∧ ¬ e.Offends "é+f".toList := by decide
  have hapart : Apart [⟨⟨0, 2⟩, "e"⟩, ⟨⟨4, 4⟩, "()"⟩, ⟨⟨0, 0⟩, "-"⟩] := by decide
  obtain ⟨out, -, -, -, -, -, horders⟩ := applyAll_insertionsLast
    (fun e he => (hedits e he).1) (fun e he => (hedits e he).2) (by decide) hapart
  exact ⟨hedits, hapart, out, horders _ (.refl _) (by decide),
    horders _ (.swap _ _ _) (by decide)⟩

/-- In other orders edits are not applied to the source. An insertion that is applied first
moves the bytes that the other edit is to replace, so `I` is lost and `c` stays. -/
theorem not_spliced_insertionFirst :
    ¬ ∀ (source : String) (edits : List Edit), (∀ e ∈ edits, e.span.start ≤ e.span.stop) →
      (∀ e ∈ edits, ¬ e.Offends source.toList) → (edits.map Edit.span).Nodup → Apart edits →
      ∃ out sorted, sorted.Perm edits ∧
        (sorted.Pairwise fun a b => a.span.stop ≤ b.span.start) ∧
        Spliced 0 sorted source.toList out.toList ∧
        ∀ edits' : List Edit, edits'.Perm edits → applyAll source edits' = .ok out := by
  intro h
  have hapart : Apart [⟨⟨0, 0⟩, "I"⟩, ⟨⟨0, 3⟩, "Y"⟩] := by decide
  obtain ⟨out, -, -, -, -, horders⟩ := h "abcdef" [⟨⟨0, 0⟩, "I"⟩, ⟨⟨0, 3⟩, "Y"⟩] (by decide)
    (by decide) (by decide) hapart
  have hfirst : applyAll "abcdef" [⟨⟨0, 0⟩, "I"⟩, ⟨⟨0, 3⟩, "Y"⟩] = .ok "Ycdef" := by cbv
  have hlast : applyAll "abcdef" [⟨⟨0, 3⟩, "Y"⟩, ⟨⟨0, 0⟩, "I"⟩] = .ok "IYdef" := by cbv
  rw [horders _ (.refl _)] at hfirst
  rw [horders _ (.swap _ _ []), hfirst] at hlast
  exact absurd hlast (by decide)

end Rewriter

end CorpusMark
