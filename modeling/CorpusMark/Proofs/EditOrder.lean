import CorpusMark.Edit
import Mathlib.Data.List.Nodup
import Mathlib.Data.List.Sort

/-!
# The order in which edits are applied

Edits are applied from right to left. Sorting brings them into descending order of
their starts and leaves those with one start in the order of the list
(`startingAt_descending`), so at a place with several edits the list decides. What
the application needs is that the sorted edits are *stacked*: each ends at or
before the start of every edit that comes before it.

At a place where text is only put in, an insertion has its start in common with the
edit that replaces what follows. Edits that do not overlap are stacked if insertions
are listed last among those with their start (`stacked_descending_of_insertionsLast`),
and in such lists it is enough to look at neighbours
(`neighboursOverlap_descending_of_insertionsLast`). Lists without insertions are a
special case.
-/

namespace CorpusMark

namespace Edit

variable {a b : Edit} {edits : List Edit}

/-- No two of the edits overlap. -/
def Apart (edits : List Edit) : Prop :=
  edits.Pairwise fun a b => a.span.overlaps b.span = false

instance (edits : List Edit) : Decidable (Apart edits) :=
  inferInstanceAs (Decidable (List.Pairwise _ _))

/-- Every edit ends at or before the starts of those that come before it. -/
def Stacked (edits : List Edit) : Prop :=
  edits.Pairwise fun a b => b.span.stop ≤ a.span.start

theorem Apart.perm {edits' : List Edit} (h : Apart edits) (hperm : edits'.Perm edits) :
    Apart edits' := by
  have hsymm : ∀ {a b : Edit}, a.span.overlaps b.span = false → b.span.overlaps a.span = false :=
    fun hab => by rwa [Span.overlaps_comm]
  exact (hperm.pairwise_iff hsymm).mpr h

theorem Apart.of_stacked (h : Stacked edits) : Apart edits := by
  refine h.imp fun {a b} hle => ?_
  rw [Bool.eq_false_iff, ne_eq, Span.overlaps_iff]
  omega

theorem neighboursOverlap_of_apart :
    ∀ {edits : List Edit}, Apart edits → neighboursOverlap edits = false
  | [], _ => rfl
  | [_], _ => rfl
  | a :: b :: rest, h => by
    obtain ⟨hhead, htail⟩ := List.pairwise_cons.mp h
    rw [neighboursOverlap, Span.overlaps_comm, hhead b List.mem_cons_self, Bool.false_or]
    exact neighboursOverlap_of_apart htail

/-! ## Sorting -/

theorem startsLater_trans (a b c : Edit) (hab : decide (b.span.start ≤ a.span.start) = true)
    (hbc : decide (c.span.start ≤ b.span.start) = true) :
    decide (c.span.start ≤ a.span.start) = true := by
  rw [decide_eq_true_eq] at *
  exact Nat.le_trans hbc hab

theorem startsLater_total (a b : Edit) :
    (decide (b.span.start ≤ a.span.start) || decide (a.span.start ≤ b.span.start)) = true := by
  rw [Bool.or_eq_true, decide_eq_true_eq, decide_eq_true_eq]
  exact Nat.le_total _ _

theorem descending_perm (edits : List Edit) : (descending edits).Perm edits :=
  List.mergeSort_perm edits _

theorem pairwise_descending (edits : List Edit) :
    (descending edits).Pairwise fun a b => b.span.start ≤ a.span.start :=
  (List.pairwise_mergeSort startsLater_trans startsLater_total edits).imp of_decide_eq_true

/-- The edits with a start, in the order of the list. -/
def startingAt (start : Nat) (edits : List Edit) : List Edit :=
  edits.filter (·.span.start = start)

theorem mem_startingAt_iff {start : Nat} {e : Edit} :
    e ∈ startingAt start edits ↔ e ∈ edits ∧ e.span.start = start := by
  rw [startingAt, List.mem_filter, decide_eq_true_eq]

theorem startingAt_append (start : Nat) (xs ys : List Edit) :
    startingAt start (xs ++ ys) = startingAt start xs ++ startingAt start ys :=
  List.filter_append xs ys

theorem startingAt_cons_self {start : Nat} {e : Edit} (h : e.span.start = start) :
    startingAt start (e :: edits) = e :: startingAt start edits :=
  List.filter_cons_of_pos (decide_eq_true h)

theorem startingAt_cons_of_ne {start : Nat} {e : Edit} (h : e.span.start ≠ start) :
    startingAt start (e :: edits) = startingAt start edits :=
  List.filter_cons_of_neg (Bool.not_eq_true _ ▸ decide_eq_false h)

theorem startingAt_eq_nil {start : Nat} (h : ∀ e ∈ edits, e.span.start ≠ start) :
    startingAt start edits = [] :=
  List.filter_eq_nil_iff.mpr fun e he => Bool.not_eq_true _ ▸ decide_eq_false (h e he)

theorem startingAt_eq_self {start : Nat} (h : ∀ e ∈ edits, e.span.start = start) :
    startingAt start edits = edits :=
  List.filter_eq_self.mpr fun e he => decide_eq_true (h e he)

/-- **Edits with one start keep their order.** -/
theorem startingAt_descending (start : Nat) (edits : List Edit) :
    startingAt start (descending edits) = startingAt start edits := by
  have hequal : ∀ e ∈ startingAt start edits, e.span.start = start :=
    fun e he => (mem_startingAt_iff.mp he).2
  have hsorted : (startingAt start edits).Pairwise fun a b =>
      decide (b.span.start ≤ a.span.start) = true := by
    refine List.pairwise_of_forall_mem_list fun a ha b hb => ?_
    rw [hequal a ha, hequal b hb]
    exact decide_eq_true (Nat.le_refl start)
  have hsub : (startingAt start edits).Sublist (descending edits) :=
    List.sublist_mergeSort startsLater_trans startsLater_total hsorted List.filter_sublist
  have hgroup : (startingAt start edits).Sublist (startingAt start (descending edits)) := by
    rw [← startingAt_eq_self hequal]
    exact hsub.filter _
  exact (hgroup.eq_of_length ((descending_perm edits).filter _).length_eq.symm).symm

/-! ## Insertions -/

/-- An edit that takes nothing away: its range is empty. -/
def IsInsertion (e : Edit) : Prop :=
  e.span.stop = e.span.start

instance (e : Edit) : Decidable e.IsInsertion :=
  inferInstanceAs (Decidable (_ = _))

/-- Behind an insertion no edit with its start takes something away. -/
def InsertionsLast (edits : List Edit) : Prop :=
  edits.Pairwise fun a b => a.span.start = b.span.start → a.IsInsertion → b.IsInsertion

instance (edits : List Edit) : Decidable (InsertionsLast edits) :=
  inferInstanceAs (Decidable (List.Pairwise _ _))

theorem InsertionsLast.of_nonempty (hspan : ∀ e ∈ edits, e.span.start < e.span.stop) :
    InsertionsLast edits := by
  refine List.pairwise_of_forall_mem_list fun a ha b _ _ hinsertion => ?_
  have := hspan a ha
  rw [IsInsertion] at hinsertion
  omega

theorem InsertionsLast.descending (h : InsertionsLast edits) :
    InsertionsLast (descending edits) := by
  refine List.pairwise_iff_forall_sublist.mpr fun {a b} hsub hstart => ?_
  -- the two have one start, so they stand in the list as they are sorted
  have hgroup : [a, b].Sublist (startingAt b.span.start (Edit.descending edits)) := by
    have hpair : startingAt b.span.start [a, b] = [a, b] := startingAt_eq_self (by simp [hstart])
    rw [← hpair]
    exact hsub.filter _
  rw [startingAt_descending] at hgroup
  exact List.pairwise_iff_forall_sublist.mp h (hgroup.trans List.filter_sublist) hstart

/-- Every list can be put into such an order. -/
theorem exists_perm_insertionsLast (edits : List Edit) :
    ∃ edits', edits'.Perm edits ∧ InsertionsLast edits' := by
  have hreplace : ∀ e ∈ edits.filter fun e => ! decide e.IsInsertion, ¬ e.IsInsertion :=
    fun e he => by simpa using (List.mem_filter.mp he).2
  have hinsert : ∀ e ∈ edits.filter fun e => ! ! decide e.IsInsertion, e.IsInsertion :=
    fun e he => by simpa using (List.mem_filter.mp he).2
  refine ⟨_, List.filter_append_perm (fun e => ! decide e.IsInsertion) edits,
    List.pairwise_append.mpr ⟨?_, ?_, fun a _ b hb _ _ => hinsert b hb⟩⟩
  · exact List.pairwise_of_forall_mem_list fun a ha b _ _ ha' => absurd ha' (hreplace a ha)
  · exact List.pairwise_of_forall_mem_list fun a _ b hb _ _ => hinsert b hb

/-! ## Stacked edits -/

/-- Of two sorted edits that do not overlap the second one ends before the first. -/
theorem stop_le_of_not_overlaps (hle : a.span.start ≤ a.span.stop)
    (hsorted : b.span.start ≤ a.span.start)
    (hlast : a.span.start = b.span.start → a.IsInsertion → b.IsInsertion)
    (hfree : a.span.overlaps b.span = false) : b.span.stop ≤ a.span.start := by
  rw [Bool.eq_false_iff, ne_eq, Span.overlaps_iff] at hfree
  by_cases hstart : a.span.start = b.span.start
  · by_cases hinsertion : a.IsInsertion
    · have hb := hlast hstart hinsertion
      rw [IsInsertion] at hb
      omega
    · rw [IsInsertion] at hinsertion
      omega
  · omega

theorem stacked_descending_of_insertionsLast (hle : ∀ e ∈ edits, e.span.start ≤ e.span.stop)
    (hlast : InsertionsLast edits) (hapart : Apart edits) : Stacked (descending edits) := by
  have hpairs := ((pairwise_descending edits).and hlast.descending).and
    (hapart.perm (descending_perm edits))
  refine hpairs.imp_of_mem ?_
  rintro a b ha - ⟨⟨hsorted, hlast⟩, hfree⟩
  exact stop_le_of_not_overlaps (hle a ((descending_perm edits).mem_iff.mp ha)) hsorted hlast hfree

/-- Ranges that are not empty and do not overlap are stacked once they are
sorted. -/
theorem stacked_descending (hspan : ∀ e ∈ edits, e.span.start < e.span.stop)
    (hdisjoint : edits.Pairwise fun a b => a.span.overlaps b.span = false) :
    Stacked (descending edits) :=
  stacked_descending_of_insertionsLast (fun e he => (hspan e he).le) (.of_nonempty hspan) hdisjoint

/-- Sorted edits are stacked if no neighbours overlap. -/
theorem stacked_of_neighboursOverlap :
    ∀ {edits : List Edit}, (∀ e ∈ edits, e.span.start ≤ e.span.stop) →
      (edits.Pairwise fun a b => b.span.start ≤ a.span.start) → InsertionsLast edits →
      neighboursOverlap edits = false → Stacked edits
  | [], _, _, _, _ => .nil
  | [_], _, _, _, _ => List.pairwise_singleton _ _
  | a :: b :: rest, hle, hsorted, hlast, hfree => by
    obtain ⟨hfirst, htail⟩ := List.pairwise_cons.mp hsorted
    obtain ⟨hfirst', hlast'⟩ := List.pairwise_cons.mp hlast
    rw [neighboursOverlap, Bool.or_eq_false_iff] at hfree
    have hstacked := stacked_of_neighboursOverlap
      (fun e he => hle e (List.mem_cons_of_mem a he)) htail hlast' hfree.2
    have hab : b.span.stop ≤ a.span.start := by
      refine stop_le_of_not_overlaps (hle a List.mem_cons_self) (hfirst b List.mem_cons_self)
        (hfirst' b List.mem_cons_self) ?_
      rw [Span.overlaps_comm]
      exact hfree.1
    refine List.pairwise_cons.mpr ⟨fun d hd => ?_, hstacked⟩
    rcases List.mem_cons.mp hd with rfl | hd
    · exact hab
    · have := (List.pairwise_cons.mp hstacked).1 d hd
      have := hle b (List.mem_cons_of_mem a List.mem_cons_self)
      omega

/-- **Among sorted edits it is enough to look at neighbours**, if insertions are
listed last. -/
theorem neighboursOverlap_descending_of_insertionsLast
    (hle : ∀ e ∈ edits, e.span.start ≤ e.span.stop) (hlast : InsertionsLast edits) :
    neighboursOverlap (descending edits) = false ↔ Apart edits := by
  constructor
  · intro hfree
    have hle' : ∀ e ∈ descending edits, e.span.start ≤ e.span.stop :=
      fun e he => hle e ((descending_perm edits).mem_iff.mp he)
    have hstacked := stacked_of_neighboursOverlap hle' (pairwise_descending edits)
      hlast.descending hfree
    exact (Apart.of_stacked hstacked).perm (descending_perm edits).symm
  · intro hapart
    exact neighboursOverlap_of_apart (hapart.perm (descending_perm edits))

/-! ## Orders of a list -/

/-- Edits that do not overlap have different ranges, unless they are insertions. -/
theorem Apart.nodup_spans (hspan : ∀ e ∈ edits, e.span.start < e.span.stop)
    (hapart : Apart edits) : (edits.map Edit.span).Nodup := by
  refine List.pairwise_map.mpr (hapart.imp_of_mem fun {a b} ha _ hfree heq => ?_)
  have := hspan a ha
  rw [← heq, Bool.eq_false_iff, ne_eq, Span.overlaps_iff] at hfree
  omega

/-- Edits with different ranges are stacked in one way only. -/
theorem descending_eq_of_stacked {edits' : List Edit}
    (hle : ∀ e ∈ edits, e.span.start ≤ e.span.stop) (hdistinct : (edits.map Edit.span).Nodup)
    (hstacked : Stacked (descending edits)) (hstacked' : Stacked (descending edits'))
    (hperm : edits'.Perm edits) : descending edits' = descending edits := by
  have hmem : ∀ {e}, e ∈ descending edits' → e ∈ edits :=
    fun he => hperm.mem_iff.mp ((descending_perm edits').mem_iff.mp he)
  have hsorted : (descending edits').Perm (descending edits) :=
    (descending_perm edits').trans (hperm.trans (descending_perm edits).symm)
  refine hsorted.eq_of_pairwise (fun a b ha hb hab hba => ?_) hstacked' hstacked
  have hb' := (descending_perm edits).mem_iff.mp hb
  -- ranges that end before each other are one empty range
  have hspan : a.span = b.span := by
    have := hle a (hmem ha)
    have := hle b hb'
    obtain ⟨⟨start, stop⟩, replacement⟩ := a
    obtain ⟨⟨start', stop'⟩, replacement'⟩ := b
    simp only [Span.mk.injEq] at *
    omega
  exact List.inj_on_of_nodup_map hdistinct (hmem ha) hb' hspan

end Edit

end CorpusMark
