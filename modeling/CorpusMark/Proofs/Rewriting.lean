import CorpusMark.Rewriter
import CorpusMark.Proofs.Assignment
import CorpusMark.Proofs.Attempts
import CorpusMark.Proofs.Budgets
import CorpusMark.Proofs.Edits
import CorpusMark.Proofs.Maps

/-!
# Rewritten samples

What a successful rewrite of all terms of a backdoor gives. `applyBackdoor`
chains five steps and each has its own statement: the candidates are the
occurrences of the terms (`candidates_eq_ok_iff`), the choice is the first
disjoint one, each chosen occurrence is rendered in the form of its term
(`Renders`), the edits are spliced into the source, and verification returns a
text as it is or not at all (`eq_of_verify`).
-/

namespace CorpusMark

namespace Rewriter

variable {r : Rewriter} {arena : Arena} {found : MatchSet} {b : Backdoor}

/-! ## The steps -/

/-- The candidates are the occurrences of the terms, of which none may lack
some. -/
theorem candidates_eq_ok_iff {terms : List Term} {options : List (List Occurrence)} :
    candidates found terms = .ok options ↔
      (∀ t ∈ terms, found.occurrences t.id ≠ #[]) ∧
        options = terms.map fun t => (found.occurrences t.id).toList := by
  rw [candidates, Attempts.mapM_eq_ok_iff]
  induction terms generalizing options with
  | nil => cases options <;> simp
  | cons t terms ih =>
    cases options with
    | nil => simp
    | cons first rest =>
      rw [List.forall₂_cons, ih, List.map_cons, List.forall_mem_cons, List.cons_eq_cons]
      by_cases hempty : found.occurrences t.id = #[]
      · simp [hempty]
      · have hisEmpty : (found.occurrences t.id).isEmpty = false := by
          rwa [Array.isEmpty_eq_false_iff]
        simp only [hisEmpty, Bool.false_eq_true, if_false, Except.ok.injEq]
        constructor
        · rintro ⟨rfl, hne, hrest⟩
          exact ⟨⟨hempty, hne⟩, rfl, hrest⟩
        · rintro ⟨⟨-, hne⟩, rfl, hrest⟩
          exact ⟨rfl, hne, hrest⟩

/-- An edit renders a chosen occurrence: it replaces the range of the node that
the occurrence names by the text of the node in the form of the term. -/
def Renders (arena : Arena) (x : Term × Occurrence) (e : Edit) : Prop :=
  ∃ n, arena.node? x.2.node = some n ∧ n.span = x.2.span ∧ e.span = x.2.span ∧
    x.1.transform.render? x.1.form n = some e.replacement

theorem editFor_eq_ok_iff {t : Term} {o : Occurrence} {e : Edit} :
    editFor arena t o = .ok e ↔ Renders arena (t, o) e := by
  unfold editFor Renders
  cases arena.node? o.node with
  | none => simp
  | some n =>
    by_cases hspan : n.span = o.span
    · cases hrender : t.transform.render? t.form n with
      | none => simp [hspan, hrender]
      | some text =>
        obtain ⟨span, replacement⟩ := e
        simp [hspan, hrender, eq_comm]
    · simp [hspan]

/-- An edit that cannot be made is declined. -/
theorem declined_of_editFor {t : Term} {o : Occurrence} {e : TransformError}
    (h : editFor arena t o = .error e) : e = .declined t.id t.formName o.span.start := by
  unfold editFor at h
  cases hnode : arena.node? o.node with
  | none =>
    simp only [hnode] at h
    cases h
    rfl
  | some n =>
    simp only [hnode] at h
    split_ifs at h
    · cases h
      rfl
    · split at h
      · cases h
        rfl
      · cases h

theorem applyAll_eq_ok_iff {source out : String} {edits : List Edit} :
    applyAll source edits = .ok out ↔ applyEdits source edits = .ok out := by
  rw [applyAll]
  cases applyEdits source edits <;> simp [Except.mapError]

/-- Verification accepts a text as it is. -/
theorem eq_of_verify {text out : String} (h : r.verify text = .ok out) : out = text := by
  unfold verify at h
  cases hv : r.verifier with
  | none =>
    rw [hv] at h
    cases h
    rfl
  | some parser =>
    cases hparse : parser.parse text with
    | error e =>
      simp only [hv, hparse] at h
      cases h
    | ok arena =>
      simp only [hv, hparse] at h
      cases h
      rfl

/-- Verification rejects a text with a message. -/
theorem invalidOutput_of_verify {text : String} {e : TransformError}
    (h : r.verify text = .error e) : ∃ reason, e = .invalidOutput reason := by
  unfold verify at h
  cases hv : r.verifier with
  | none =>
    rw [hv] at h
    cases h
  | some parser =>
    cases hparse : parser.parse text with
    | error err =>
      simp only [hv, hparse] at h
      cases h
      exact ⟨_, rfl⟩
    | ok arena =>
      simp only [hv, hparse] at h
      cases h

/-- A backdoor is applied if all steps succeed. -/
theorem applyBackdoor_eq_ok_iff {out : String} :
    r.applyBackdoor arena found b = .ok out ↔ ∃ options chosen edits,
      candidates found b.terms = .ok options ∧
      Assignment.chooseDisjoint r.searchBudget options = some chosen ∧
      List.Forall₂ (Renders arena) (b.terms.zip chosen) edits ∧
      applyEdits arena.source edits = .ok out ∧ r.verify out = .ok out := by
  unfold applyBackdoor
  rw [Attempts.bind_eq_ok_iff]
  refine exists_congr fun options => ?_
  cases hchoose : Assignment.chooseDisjoint r.searchBudget options with
  | none => simp [throw, throwThe, MonadExceptOf.throw]
  | some chosen =>
    simp only [Attempts.bind_eq_ok_iff, Attempts.mapM_eq_ok_iff, editFor_eq_ok_iff,
      applyAll_eq_ok_iff]
    constructor
    · rintro ⟨hoptions, edits, hedits, text, htext, hverify⟩
      obtain rfl := eq_of_verify hverify
      exact ⟨chosen, edits, hoptions, rfl, hedits, htext, hverify⟩
    · rintro ⟨_, edits, hoptions, heq, hedits, htext, hverify⟩
      cases heq
      exact ⟨hoptions, edits, hedits, out, htext, hverify⟩

/-! ## The ranges of the edits -/

/-- The edits have the ranges of the chosen occurrences. -/
theorem map_span_of_forall₂ {terms : List Term} {chosen : List Occurrence} {edits : List Edit}
    (hlen : terms.length = chosen.length)
    (h : List.Forall₂ (Renders arena) (terms.zip chosen) edits) :
    edits.map Edit.span = chosen.map Occurrence.span := by
  induction terms generalizing chosen edits with
  | nil =>
    rw [List.length_nil, eq_comm, List.length_eq_zero_iff] at hlen
    subst hlen
    cases h
    rfl
  | cons t terms ih =>
    cases chosen with
    | nil => cases hlen
    | cons o chosen =>
      rw [List.zip_cons_cons] at h
      cases h with
      | cons hhead htail =>
        obtain ⟨n, -, -, hspan, -⟩ := hhead
        rw [List.map_cons, List.map_cons, hspan, ih (Nat.succ.inj hlen) htail]

/-- The edits of a disjoint choice do not overlap. -/
theorem apart_of_isFirst {terms : List Term} {js : List Nat} {chosen : List Occurrence}
    {edits : List Edit}
    (hfirst : Assignment.IsFirst
      (terms.map fun t => (found.occurrences t.id).toList) js chosen)
    (h : List.Forall₂ (Renders arena) (terms.zip chosen) edits) : Edit.Apart edits := by
  have hlen : terms.length = chosen.length := by
    rw [hfirst.picks.length_eq, List.length_map]
  have hdisjoint : (chosen.map Occurrence.span).Pairwise fun a b => a.overlaps b = false :=
    List.pairwise_map.mpr hfirst.disjoint
  rw [← map_span_of_forall₂ hlen h] at hdisjoint
  exact List.pairwise_map.mp hdisjoint

/-- What the choice says about the ranges of the edits. -/
theorem spans_of_isFirst {terms : List Term} {js : List Nat} {chosen : List Occurrence}
    {edits : List Edit}
    (hspans : ∀ t ∈ terms, ∀ o ∈ found.occurrences t.id, o.span.start < o.span.stop)
    (hfirst : Assignment.IsFirst
      (terms.map fun t => (found.occurrences t.id).toList) js chosen)
    (h : List.Forall₂ (Renders arena) (terms.zip chosen) edits) :
    (∀ e ∈ edits, e.span.start < e.span.stop) ∧
      edits.Pairwise fun a b => a.span.overlaps b.span = false := by
  refine ⟨fun e he => ?_, apart_of_isFirst hfirst h⟩
  have hlen : terms.length = chosen.length := by
    rw [hfirst.picks.length_eq, List.length_map]
  -- the edit has the range of the occurrence chosen for some term
  have hspan : e.span ∈ ((terms.zip chosen).map Prod.snd).map Occurrence.span := by
    rw [List.map_snd_zip (Nat.le_of_eq hlen.symm), ← map_span_of_forall₂ hlen h]
    exact List.mem_map_of_mem he
  rw [List.map_map] at hspan
  obtain ⟨x, hx, heq⟩ := List.mem_map.mp hspan
  rw [← heq]
  exact hspans x.1 (List.of_mem_zip hx).1 x.2
    (Array.mem_toList_iff.mp (hfirst.picks.mem_of_mem_zip hx))

/-! ## The rewritten text -/

/-- **A rewritten sample is its source with one occurrence of each term
replaced.** The occurrences are the first disjoint choice, each is replaced by
its node in the form of its term, and every other byte is copied in order. -/
theorem applyBackdoor_spliced {out : String}
    (hspans : ∀ t ∈ b.terms, ∀ o ∈ found.occurrences t.id, o.span.start < o.span.stop)
    (h : r.applyBackdoor arena found b = .ok out) :
    ∃ js chosen edits,
      Assignment.IsFirst (b.terms.map fun t => (found.occurrences t.id).toList) js chosen ∧
      List.Forall₂ (Renders arena) (b.terms.zip chosen) edits ∧
      ∃ sorted, sorted.Perm edits ∧
        Edit.Spliced 0 sorted arena.source.toList out.toList := by
  obtain ⟨options, chosen, edits, hoptions, hchosen, hedits, hout, -⟩ :=
    applyBackdoor_eq_ok_iff.mp h
  obtain ⟨-, rfl⟩ := candidates_eq_ok_iff.mp hoptions
  obtain ⟨js, hfirst⟩ := Assignment.isFirst_of_chooseDisjoint hchosen
  obtain ⟨hspan, hdisjoint⟩ := spans_of_isFirst hspans hfirst hedits
  refine ⟨js, chosen, edits, hfirst, hedits, (Edit.descending edits).reverse, ?_, ?_⟩
  · exact (List.reverse_perm _).trans (Edit.descending_perm edits)
  · exact Edit.spliced_of_applyEdits hspan hdisjoint hout

/-- The tree of the Python text `f(print(é), print(2)); g()`, the marks between the
expressions left out. -/
def printedCalls : Arena :=
  Arena.empty "f(print(é), print(2)); g()"
    |>.add none 0 ⟨"module", none, ⟨0, 27⟩, true, false, false⟩
    |>.add (some 0) 1 ⟨"call", none, ⟨0, 22⟩, true, false, false⟩
    |>.add (some 1) 2 ⟨"identifier", some "function", ⟨0, 1⟩, true, false, false⟩
    |>.add (some 1) 2 ⟨"argument_list", some "arguments", ⟨1, 22⟩, true, false, false⟩
    |>.add (some 3) 3 ⟨"call", none, ⟨2, 11⟩, true, false, false⟩
    |>.add (some 4) 4 ⟨"identifier", some "function", ⟨2, 7⟩, true, false, false⟩
    |>.add (some 4) 4 ⟨"argument_list", some "arguments", ⟨7, 11⟩, true, false, false⟩
    |>.add (some 3) 3 ⟨"call", none, ⟨13, 21⟩, true, false, false⟩
    |>.add (some 7) 4 ⟨"identifier", some "function", ⟨13, 18⟩, true, false, false⟩
    |>.add (some 7) 4 ⟨"argument_list", some "arguments", ⟨18, 21⟩, true, false, false⟩
    |>.add (some 0) 1 ⟨"call", none, ⟨24, 27⟩, true, false, false⟩
    |>.add (some 10) 2 ⟨"identifier", some "function", ⟨24, 25⟩, true, false, false⟩
    |>.add (some 10) 2 ⟨"argument_list", some "arguments", ⟨25, 27⟩, true, false, false⟩

/-- The backdoor that wants a call and a print. -/
def printBackdoor : Backdoor :=
  ⟨0, [⟨Transform.Python.call, .trigger⟩, ⟨Transform.Python.print, .trigger⟩]⟩

/-- The four calls of `f(print(é), print(2)); g()`, two of which are prints. -/
def printedFound : MatchSet :=
  (SortedMap.empty.insert "call"
    #[⟨0, "call", 1, ⟨0, 22⟩, ⟨0, 0⟩⟩, ⟨0, "call", 4, ⟨2, 11⟩, ⟨0, 2⟩⟩,
      ⟨0, "call", 7, ⟨13, 21⟩, ⟨0, 13⟩⟩, ⟨0, "call", 10, ⟨24, 27⟩, ⟨0, 24⟩⟩]).insert "print"
    #[⟨0, "print", 4, ⟨2, 11⟩, ⟨0, 2⟩⟩, ⟨0, "print", 7, ⟨13, 21⟩, ⟨0, 13⟩⟩]

/-- The second call, which is the first print, and the second print. -/
def printedChoice : List Occurrence :=
  [⟨0, "call", 4, ⟨2, 11⟩, ⟨0, 2⟩⟩, ⟨0, "print", 7, ⟨13, 21⟩, ⟨0, 13⟩⟩]

/-- The first call holds both prints, so it cannot be chosen. What stands before,
between and behind the chosen ones is copied, the character of two bytes in its place. -/
theorem applyBackdoor_spliced_printedCalls :
    (∀ t ∈ printBackdoor.terms, ∀ o ∈ printedFound.occurrences t.id,
        o.span.start < o.span.stop) ∧
      applyBackdoor ⟨none, 10⟩ printedCalls printedFound printBackdoor
        = .ok "f(print.__call__(é), print(2, flush=True)); g()" ∧
      ∃ js edits,
        Assignment.IsFirst
          (printBackdoor.terms.map fun t => (printedFound.occurrences t.id).toList) js
          printedChoice ∧
        List.Forall₂ (Renders printedCalls) (printBackdoor.terms.zip printedChoice) edits ∧
        ∃ sorted, sorted.Perm edits ∧
          Edit.Spliced 0 sorted "f(print(é), print(2)); g()".toList
            "f(print.__call__(é), print(2, flush=True)); g()".toList := by
  have hspans : ∀ t ∈ printBackdoor.terms, ∀ o ∈ printedFound.occurrences t.id,
      o.span.start < o.span.stop := by decide +kernel
  have hoptions : candidates printedFound printBackdoor.terms
      = .ok (printBackdoor.terms.map fun t => (printedFound.occurrences t.id).toList) := by
    decide +kernel
  have hchoice : Assignment.chooseDisjoint 10
      (printBackdoor.terms.map fun t => (printedFound.occurrences t.id).toList)
      = some printedChoice := by decide +kernel
  have hedits : List.Forall₂ (Renders printedCalls) (printBackdoor.terms.zip printedChoice)
      [⟨⟨2, 11⟩, "print.__call__(é)"⟩, ⟨⟨13, 21⟩, "print(2, flush=True)"⟩] :=
    .cons ⟨⟨printedCalls, 4, by decide⟩, rfl, rfl, rfl, by decide +kernel⟩
      (.cons ⟨⟨printedCalls, 7, by decide⟩, rfl, rfl, rfl, by decide +kernel⟩ .nil)
  have hsorted : Edit.descending
        [⟨⟨2, 11⟩, "print.__call__(é)"⟩, ⟨⟨13, 21⟩, "print(2, flush=True)"⟩]
      = [⟨⟨13, 21⟩, "print(2, flush=True)"⟩, ⟨⟨2, 11⟩, "print.__call__(é)"⟩] := by
    simp [Edit.descending, List.mergeSort, List.MergeSort.Internal.splitInTwo]
  have htext : applyEdits "f(print(é), print(2)); g()"
        [⟨⟨2, 11⟩, "print.__call__(é)"⟩, ⟨⟨13, 21⟩, "print(2, flush=True)"⟩]
      = .ok "f(print.__call__(é), print(2, flush=True)); g()" := by
    rw [applyEdits, hsorted]
    decide +kernel
  have happly : applyBackdoor ⟨none, 10⟩ printedCalls printedFound printBackdoor
      = .ok "f(print.__call__(é), print(2, flush=True)); g()" :=
    applyBackdoor_eq_ok_iff.mpr ⟨_, _, _, hoptions, hchoice, hedits, htext, rfl⟩
  obtain ⟨_, hchosen⟩ := Assignment.isFirst_of_chooseDisjoint hchoice
  obtain ⟨js, chosen, edits, hfirst, hrest⟩ := applyBackdoor_spliced hspans happly
  obtain rfl := hfirst.unique hchosen
  exact ⟨hspans, happly, js, edits, hfirst, hrest⟩

end Rewriter

end CorpusMark
