import CorpusMark.Proofs.Rewriting
import CorpusMark.Proofs.WellFormed

/-!
# Backdoors with a known effect

What two kinds of backdoor do can be said without a search.

- If all terms are in source form, the code stays as it is
  (`Rewriter.applyBackdoor_unchanged`). Each edit puts back what stands in its range
  (`Edit.restoring`), so the text is that of the source before and after every edit,
  whatever the order of the edits; and an edit of a range that is none of the source,
  for which there is no text to put back, is refused and not made with the empty text.
- If there is one term, its first occurrence is rewritten and nothing else
  (`Rewriter.applyBackdoor_single`).
-/

namespace CorpusMark

/-! ## Edits that change nothing -/

namespace Edit

open Text

variable {edits : List Edit}

/-- The edit that puts back what stands in a range, or the empty text if the range is
none of the source. -/
def restoring (source : String) (span : Span) : Edit :=
  ⟨span, (slice? source span.start span.stop).getD ""⟩

/-- **Putting back what stands in a range changes nothing**, and it is possible only if
there is such a range. -/
theorem applyTo_restoring {source : String} {span : Span} {out : List Char} :
    applyTo source.toList (restoring source span) = .ok out ↔
      (slice? source span.start span.stop).isSome = true ∧ out = source.toList := by
  rw [applyTo_eq_ok_iff]
  constructor
  · rintro ⟨before, old, after, hsource, hstart, hstop, rfl⟩
    have hslice : slice? source span.start span.stop = some (String.ofList old) := by
      refine slice?_eq_some_iff.mpr ⟨before, after, ?_, hstart, ?_⟩
      · rwa [String.toList_ofList]
      · rwa [String.toList_ofList]
    simp [restoring, hslice, hsource]
  · rintro ⟨hsome, rfl⟩
    obtain ⟨part, hslice⟩ := Option.isSome_iff_exists.mp hsome
    obtain ⟨before, after, hsource, hstart, hstop⟩ := slice?_eq_some_iff.mp hslice
    refine ⟨before, part.toList, after, hsource, hstart, hstop, ?_⟩
    rw [restoring, hslice, Option.getD_some, hsource]

/-- The text stays that of the source from edit to edit. -/
theorem foldlM_restoring {source : String} {out : List Char}
    (h : ∀ e ∈ edits, e = restoring source e.span) :
    edits.foldlM applyTo source.toList = .ok out ↔
      (∀ e ∈ edits, (slice? source e.span.start e.span.stop).isSome = true) ∧
        out = source.toList := by
  induction edits with
  | nil =>
    constructor
    · intro hout
      cases hout
      exact ⟨by simp, rfl⟩
    · rintro ⟨-, rfl⟩
      rfl
  | cons e edits ih =>
    rw [List.forall_mem_cons] at h ⊢
    rw [List.foldlM_cons, h.1]
    cases hstep : applyTo source.toList (restoring source e.span) with
    | error err =>
      have hrefused : ¬ (slice? source e.span.start e.span.stop).isSome = true := by
        intro hsome
        rw [applyTo_restoring.mpr ⟨hsome, rfl⟩] at hstep
        cases hstep
      exact iff_of_false (by simp [bind, Except.bind]) fun hout => hrefused hout.1.1
    | ok text =>
      obtain ⟨hsome, rfl⟩ := applyTo_restoring.mp hstep
      show edits.foldlM applyTo source.toList = .ok out ↔ _
      rw [ih h.2]
      exact and_congr_left' (and_iff_right hsome).symm

/-- **Edits that put back what stands in their ranges** give the source or nothing. -/
theorem applyEdits_restoring {source out : String} (hapart : Apart edits)
    (h : ∀ e ∈ edits, e = restoring source e.span) :
    applyEdits source edits = .ok out ↔
      (∀ e ∈ edits, (slice? source e.span.start e.span.stop).isSome = true) ∧ out = source := by
  have hmem : ∀ {e}, e ∈ descending edits ↔ e ∈ edits := (descending_perm edits).mem_iff
  have hfold : ∀ out' : List Char, (descending edits).foldlM applyTo source.toList = .ok out' ↔
      (∀ e ∈ edits, (slice? source e.span.start e.span.stop).isSome = true) ∧
        out' = source.toList := by
    intro out'
    rw [foldlM_restoring fun e he => h e (hmem.mp he)]
    simp only [hmem]
  rw [applyEdits_of_apart hapart]
  cases happly : (descending edits).foldlM applyTo source.toList with
  | error e =>
    refine iff_of_false (by simp [Except.map]) ?_
    rintro ⟨hsome, -⟩
    rw [(hfold source.toList).mpr ⟨hsome, rfl⟩] at happly
    cases happly
  | ok text =>
    obtain ⟨hsome, rfl⟩ := (hfold text).mp happly
    show Except.ok (String.ofList source.toList) = .ok out ↔ _
    rw [String.ofList_toList, Except.ok.injEq, and_iff_right hsome, eq_comm]

end Edit

namespace Rewriter

variable {r : Rewriter} {arena : Arena} {found : MatchSet} {b : Backdoor}

/-! ## Terms in source form -/

/-- An occurrence is one of the term: the node that it names has its range and is in
source form. -/
def Stands (arena : Arena) (x : Term × Occurrence) : Prop :=
  ∃ n, arena.node? x.2.node = some n ∧ n.span = x.2.span ∧ x.1.transform.isMatch n = true

/-- The edit of a term in source form puts back what stands in the range of the
occurrence. -/
theorem renders_iff_of_source {x : Term × Occurrence} {e : Edit} (hsource : x.1.form = .source) :
    Renders arena x e ↔ Stands arena x ∧ e = .restoring arena.source x.2.span := by
  constructor
  · rintro ⟨n, hnode, hspan, hrange, hrender⟩
    obtain ⟨rfl, -⟩ := Arena.node?_eq_some_iff.mp hnode
    rw [hsource, Transform.render?] at hrender
    split_ifs at hrender with hmatch
    refine ⟨⟨n, hnode, hspan, hmatch⟩, ?_⟩
    obtain ⟨span, replacement⟩ := e
    obtain rfl : span = x.2.span := hrange
    obtain rfl : n.text = replacement := Option.some.inj hrender
    rw [← hspan]
    rfl
  · rintro ⟨⟨n, hnode, hspan, hmatch⟩, rfl⟩
    obtain ⟨rfl, -⟩ := Arena.node?_eq_some_iff.mp hnode
    refine ⟨n, hnode, hspan, rfl, ?_⟩
    rw [hsource, Transform.render?, if_pos hmatch, ← hspan]
    rfl

theorem forall₂_renders_iff {xs : List (Term × Occurrence)} {edits : List Edit}
    (hsource : ∀ x ∈ xs, x.1.form = .source) :
    List.Forall₂ (Renders arena) xs edits ↔
      (∀ x ∈ xs, Stands arena x) ∧ edits = xs.map fun x => .restoring arena.source x.2.span := by
  induction xs generalizing edits with
  | nil => simp
  | cons x xs ih =>
    rw [List.forall_mem_cons] at hsource
    rw [List.forall₂_cons_left_iff, List.forall_mem_cons, List.map_cons]
    constructor
    · rintro ⟨e, edits, hhead, htail, rfl⟩
      obtain ⟨hx, rfl⟩ := (renders_iff_of_source hsource.1).mp hhead
      obtain ⟨hxs, rfl⟩ := (ih hsource.2).mp htail
      exact ⟨⟨hx, hxs⟩, rfl⟩
    · rintro ⟨⟨hx, hxs⟩, rfl⟩
      exact ⟨_, _, (renders_iff_of_source hsource.1).mpr ⟨hx, rfl⟩,
        (ih hsource.2).mpr ⟨hxs, rfl⟩, rfl⟩

/-- **A backdoor of terms in source form never changes the code.** Whatever the
occurrences and the tree say, a result is the source, and there is one exactly if a
disjoint choice is found in which each occurrence is one of its term and has a range
of the source, and the source itself is accepted. -/
theorem applyBackdoor_unchanged (hsource : ∀ t ∈ b.terms, t.form = .source) {out : String} :
    r.applyBackdoor arena found b = .ok out ↔
      out = arena.source ∧ r.verify arena.source = .ok arena.source ∧
        ∃ options chosen, candidates found b.terms = .ok options ∧
          Assignment.chooseDisjoint r.searchBudget options = some chosen ∧
          ∀ x ∈ b.terms.zip chosen, Stands arena x ∧
            (Text.slice? arena.source x.2.span.start x.2.span.stop).isSome = true := by
  have hform : ∀ chosen : List Occurrence, ∀ x ∈ b.terms.zip chosen, x.1.form = .source :=
    fun chosen x hx => hsource x.1 (List.of_mem_zip hx).1
  -- the edits of a choice put back what stands in their ranges
  have hedit : ∀ {options chosen edits}, candidates found b.terms = .ok options →
      Assignment.chooseDisjoint r.searchBudget options = some chosen →
      List.Forall₂ (Renders arena) (b.terms.zip chosen) edits →
      (applyEdits arena.source edits = .ok out ↔
        (∀ x ∈ b.terms.zip chosen,
          (Text.slice? arena.source x.2.span.start x.2.span.stop).isSome = true) ∧
          out = arena.source) := by
    intro options chosen edits hoptions hchosen hedits
    obtain ⟨-, rfl⟩ := candidates_eq_ok_iff.mp hoptions
    obtain ⟨js, hfirst⟩ := Assignment.isFirst_of_chooseDisjoint hchosen
    have hapart := apart_of_isFirst hfirst hedits
    obtain ⟨-, rfl⟩ := (forall₂_renders_iff (hform chosen)).mp hedits
    rw [Edit.applyEdits_restoring hapart (List.forall_mem_map.mpr fun x _ => rfl),
      List.forall_mem_map]
    rfl
  rw [applyBackdoor_eq_ok_iff]
  constructor
  · rintro ⟨options, chosen, edits, hoptions, hchosen, hedits, hout, hverify⟩
    obtain ⟨hranges, rfl⟩ := (hedit hoptions hchosen hedits).mp hout
    have hstands := ((forall₂_renders_iff (hform chosen)).mp hedits).1
    exact ⟨rfl, hverify, options, chosen, hoptions, hchosen,
      fun x hx => ⟨hstands x hx, hranges x hx⟩⟩
  · rintro ⟨rfl, hverify, options, chosen, hoptions, hchosen, hboth⟩
    have hedits := (forall₂_renders_iff (hform chosen)).mpr ⟨fun x hx => (hboth x hx).1, rfl⟩
    exact ⟨options, chosen, _, hoptions, hchosen, hedits,
      (hedit hoptions hchosen hedits).mpr ⟨fun x hx => (hboth x hx).2, rfl⟩, hverify⟩

/-- The tree of the Python code `é=[];f()`, in which a character takes two bytes. -/
def listCallArena : Arena :=
  let module := (Arena.empty "é=[];f()").add none 0 ⟨"module", none, ⟨0, 9⟩, true, false, false⟩
  let assignment := (module.add (some 0) 1 ⟨"assignment", none, ⟨0, 5⟩, true, false, false⟩).add
    (some 1) 2 ⟨"list", some "right", ⟨3, 5⟩, true, false, false⟩
  ((assignment.add (some 0) 1 ⟨"call", none, ⟨6, 9⟩, true, false, false⟩).add (some 3) 2
    ⟨"identifier", some "function", ⟨6, 7⟩, true, false, false⟩).add (some 3) 2
    ⟨"argument_list", some "arguments", ⟨7, 9⟩, true, false, false⟩

/-- The backdoor of a call and a list, both in source form. -/
def keptBackdoor : Backdoor :=
  ⟨0, [⟨Transform.Python.call, .source⟩, ⟨Transform.Python.initList, .source⟩]⟩

/-- Where the call and the list stand. -/
def listCallFound : MatchSet :=
  (SortedMap.empty.insert "call" #[⟨0, "call", 3, ⟨6, 9⟩, ⟨0, 6⟩⟩]).insert "initlist"
    #[⟨0, "initlist", 2, ⟨3, 5⟩, ⟨0, 3⟩⟩]

/-- The call is put back first, then the list behind the character of two bytes. -/
theorem applyBackdoor_unchanged_listCall :
    (∀ t ∈ keptBackdoor.terms, t.form = .source) ∧
      applyBackdoor ⟨none, 2⟩ listCallArena listCallFound keptBackdoor = .ok "é=[];f()" := by
  have hsource : ∀ t ∈ keptBackdoor.terms, t.form = .source := by simp [keptBackdoor]
  have hoptions : candidates listCallFound keptBackdoor.terms
      = .ok [[⟨0, "call", 3, ⟨6, 9⟩, ⟨0, 6⟩⟩], [⟨0, "initlist", 2, ⟨3, 5⟩, ⟨0, 3⟩⟩]] := by
    decide +kernel
  refine ⟨hsource, (applyBackdoor_unchanged hsource).mpr
    ⟨rfl, rfl, _, [⟨0, "call", 3, ⟨6, 9⟩, ⟨0, 6⟩⟩, ⟨0, "initlist", 2, ⟨3, 5⟩, ⟨0, 3⟩⟩], hoptions,
      by decide +kernel, List.forall_mem_cons.mpr ⟨?_, List.forall_mem_singleton.mpr ?_⟩⟩⟩
  · exact ⟨⟨⟨listCallArena, 3, by decide⟩, rfl, rfl, by decide +kernel⟩, by decide +kernel⟩
  · exact ⟨⟨⟨listCallArena, 2, by decide⟩, rfl, rfl, by decide +kernel⟩, by decide +kernel⟩

/-! ## A single term -/

/-- If the budget allows a look at all, the first candidate of a single term is chosen. -/
theorem chooseDisjoint_single {budget : Nat} (h : 1 ≤ budget) (o : Occurrence)
    (rest : List Occurrence) : Assignment.chooseDisjoint budget [o :: rest] = some [o] := by
  obtain ⟨left, rfl⟩ := Nat.exists_eq_add_of_le' h
  exact Assignment.chooseDisjoint_eq_some_iff.mpr ⟨left, rfl⟩

/-- **With a single term, a backdoor is applied by rewriting the first occurrence of
the term**, with the same text or the same failure. -/
theorem applyBackdoor_single {t : Term} {o : Occurrence} (hterms : b.terms = [t])
    (hfirst : (found.occurrences t.id)[0]? = some o) (hbudget : 1 ≤ r.searchBudget) :
    r.applyBackdoor arena found b = r.apply arena t o := by
  obtain ⟨rest, hlist⟩ : ∃ rest, (found.occurrences t.id).toList = o :: rest := by
    rw [← Array.getElem?_toList] at hfirst
    cases hlist : (found.occurrences t.id).toList with
    | nil =>
      rw [hlist] at hfirst
      cases hfirst
    | cons o' rest =>
      rw [hlist] at hfirst
      cases hfirst
      exact ⟨rest, rfl⟩
  have hoptions : candidates found b.terms = .ok [o :: rest] := by
    rw [candidates_eq_ok_iff, hterms, List.map_singleton, hlist]
    refine ⟨fun t' ht' hempty => ?_, rfl⟩
    rw [List.mem_singleton.mp ht'] at hempty
    rw [hempty] at hlist
    cases hlist
  -- what is left of both is one edit, alone or in a list
  rw [applyBackdoor, hoptions, Attempts.bind_ok, chooseDisjoint_single hbudget, hterms, apply]
  show ([(t, o)].mapM fun x => editFor arena x.1 x.2) >>= _ = _
  rw [Attempts.mapM_singleton]
  cases editFor arena t o <;> rfl

/-- The tree of the Python call `f()`. -/
def callArena : Arena :=
  (((Arena.empty "f()").add none 0 ⟨"call", none, ⟨0, 3⟩, true, false, false⟩).add (some 0) 1
    ⟨"identifier", some "function", ⟨0, 1⟩, true, false, false⟩).add (some 0) 1
    ⟨"argument_list", some "arguments", ⟨1, 3⟩, true, false, false⟩

/-- The backdoor that marks a call. -/
def callBackdoor : Backdoor := ⟨0, [⟨Transform.Python.call, .trigger⟩]⟩

/-- Two occurrences of the call in `f()`, the first with a range that is not that of
its node. -/
def staleFound : MatchSet :=
  SortedMap.empty.insert "call"
    #[⟨0, "call", 0, ⟨0, 2⟩, ⟨0, 0⟩⟩, ⟨0, "call", 0, ⟨0, 3⟩, ⟨0, 0⟩⟩]

/-- The second occurrence could be rewritten, but the first one decides. -/
theorem applyBackdoor_single_stale :
    callBackdoor.terms = [⟨Transform.Python.call, .trigger⟩] ∧
      (staleFound.occurrences "call")[0]? = some ⟨0, "call", 0, ⟨0, 2⟩, ⟨0, 0⟩⟩ ∧
      1 ≤ (⟨none, 1⟩ : Rewriter).searchBudget ∧
      applyBackdoor ⟨none, 1⟩ callArena staleFound callBackdoor
        = apply ⟨none, 1⟩ callArena ⟨Transform.Python.call, .trigger⟩
            ⟨0, "call", 0, ⟨0, 2⟩, ⟨0, 0⟩⟩ ∧
      applyBackdoor ⟨none, 1⟩ callArena staleFound callBackdoor
        = .error (.declined "call" "dunder_call" 0) := by
  have hfirst : (staleFound.occurrences "call")[0]? = some ⟨0, "call", 0, ⟨0, 2⟩, ⟨0, 0⟩⟩ := by
    decide +kernel
  have hbudget : 1 ≤ (⟨none, 1⟩ : Rewriter).searchBudget := Nat.le_refl 1
  have hsame := @applyBackdoor_single ⟨none, 1⟩ callArena staleFound callBackdoor
    ⟨Transform.Python.call, .trigger⟩ _ rfl hfirst hbudget
  exact ⟨rfl, hfirst, hbudget, hsame, hsame.trans (by decide +kernel)⟩

end Rewriter

end CorpusMark
