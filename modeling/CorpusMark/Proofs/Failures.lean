import CorpusMark.Proofs.Backdoors
import CorpusMark.Proofs.Occurrences
import CorpusMark.Proofs.Parsing
import CorpusMark.Proofs.Rendering
import CorpusMark.Proofs.Rewriting

/-!
# Failed rewrites

Why a rewrite of a sample can fail. In a well-formed tree, with the occurrences
that the search finds, there are three reasons and no other: some term has no
occurrence, no disjoint choice is found within the budget, or verification does
not accept the text. That a chosen occurrence is declined, or that its range
does not fit the source, never happens (`applyBackdoor_outcome`), because the
occurrences are matches of their transforms and matches can be rendered.
-/

namespace CorpusMark

/-! ## Kinds of failure -/

/-- A failure that says that a found occurrence could not be replaced. -/
def TransformError.IsRefusal (e : TransformError) : Prop :=
  (∃ id, e = .missingOccurrence id) ∨ (∃ id form start, e = .declined id form start) ∨
    ∃ span, e = EditError.toTransformError (.outside span)

theorem head?_append_of_eq {a : String} {c : Char} (h : a.toList.head? = some c) (b : String) :
    (a ++ b).toList.head? = some c := by
  rw [String.toList_append, List.head?_append, h]
  rfl

/-- Messages of failed parses start in upper case. -/
theorem ParseError.head?_message (e : ParseError) :
    ∃ c, e.message.toList.head? = some c ∧ c ≠ 'e' := by
  cases e with
  | grammarUnavailable language =>
    exact ⟨'G', head?_append_of_eq (head?_append_of_eq (by decide +kernel) _) _, by decide⟩
  | noTree => exact ⟨'P', by decide +kernel, by decide⟩
  | malformed count =>
    exact ⟨'S', head?_append_of_eq (head?_append_of_eq (by decide +kernel) _) _, by decide⟩
  | tooDeep limit => exact ⟨'S', head?_append_of_eq (by decide +kernel) _, by decide⟩

/-- Those of failed edits do not. -/
theorem EditError.head?_outside (span : Span) :
    ∃ reason, toTransformError (.outside span) = .invalidOutput reason ∧
      reason.toList.head? = some 'e' := by
  have hedit : "edit ".toList.head? = some 'e' := by decide +kernel
  refine ⟨_, rfl, ?_⟩
  exact head?_append_of_eq (head?_append_of_eq (head?_append_of_eq
    (head?_append_of_eq hedit _) _) _) _

theorem TransformError.not_isRefusal_invalidOutput (e : ParseError) :
    ¬ IsRefusal (.invalidOutput e.message) := by
  rintro (⟨id, h⟩ | ⟨id, form, start, h⟩ | ⟨span, h⟩)
  · cases h
  · cases h
  · obtain ⟨reason, hreason, he⟩ := EditError.head?_outside span
    obtain ⟨c, hc, hne⟩ := e.head?_message
    rw [hreason] at h
    rw [invalidOutput.inj h] at hc
    exact hne (Option.some.inj (hc.symm.trans he))

theorem TransformError.not_isRefusal_interference (ids : List String) :
    ¬ IsRefusal (.interference ids) := by
  rintro (⟨id, h⟩ | ⟨id, form, start, h⟩ | ⟨span, h⟩)
  · cases h
  · cases h
  · obtain ⟨reason, hreason, -⟩ := EditError.head?_outside span
    rw [hreason] at h
    cases h

namespace Rewriter

/-! ## Verification -/

section Verify

variable {parser : Parser} {budget : Nat} {out : String}

/-- Whether the tree of a text keeps the depth limit and has no fault. -/
def Accepts (parser : Parser) (out : String) : Prop :=
  (parser.grammar out).FitsIn parser.limits.maxDepth ∧ (parser.grammar out).faultCount = 0

/-- The parser that verifies: the limit on the depth stays and no fault is
allowed. -/
def strict (parser : Parser) : Parser :=
  ⟨parser.grammar, ⟨parser.limits.maxDepth, true⟩⟩

theorem verify_ofParser_false : (ofParser parser false budget).verify out = .ok out := rfl

theorem verify_ofParser_true :
    (ofParser parser true budget).verify out
      = match (strict parser).parse out with
        | .ok _ => .ok out
        | .error e => .error (.invalidOutput e.message) := rfl

theorem verify_of_accepts (h : Accepts parser out) :
    (ofParser parser true budget).verify out = .ok out := by
  have hparse : ∃ a, (strict parser).parse out = .ok a ∧ a.source = out ∧
      a.outline = (parser.grammar out).outline :=
    Parser.parse_eq_ok h.1 fun _ => h.2
  obtain ⟨a, hok, -, -⟩ := hparse
  rw [verify_ofParser_true, hok]

/-- A text is rejected with the message of the failed parse. -/
theorem verify_of_not_accepts (h : ¬ Accepts parser out) :
    ∃ e : ParseError,
      (ofParser parser true budget).verify out = .error (.invalidOutput e.message) := by
  have hparse : ∃ e, (strict parser).parse out = .error e := by
    by_cases hfits : (parser.grammar out).FitsIn parser.limits.maxDepth
    · have hfaults : 0 < (parser.grammar out).faultCount :=
        Nat.pos_of_ne_zero fun hzero => h ⟨hfits, hzero⟩
      exact ⟨_, Parser.parse_malformed hfits rfl hfaults⟩
    · exact ⟨_, Parser.parse_tooDeep hfits⟩
  obtain ⟨e, he⟩ := hparse
  exact ⟨e, by rw [verify_ofParser_true, he]⟩

/-- Verification accepts a text or rejects it with the message of a parse. -/
theorem verify_ofParser (verified : Bool) :
    (ofParser parser verified budget).verify out = .ok out ∨ ∃ e : ParseError,
      (ofParser parser verified budget).verify out = .error (.invalidOutput e.message) := by
  cases verified with
  | false => exact Or.inl verify_ofParser_false
  | true =>
    by_cases haccepts : Accepts parser out
    · exact Or.inl (verify_of_accepts haccepts)
    · exact Or.inr (verify_of_not_accepts haccepts)

end Verify

/-! ## The three outcomes -/

section Outcomes

variable {r : Rewriter} {arena : Arena} {found : MatchSet} {b : Backdoor}

/-- The first term without an occurrence is reported. -/
theorem applyBackdoor_of_missing {pre post : List Term} {t : Term}
    (hterms : b.terms = pre ++ t :: post)
    (hpre : ∀ s ∈ pre, found.occurrences s.id ≠ #[]) (ht : found.occurrences t.id = #[]) :
    r.applyBackdoor arena found b = .error (.missingOccurrence t.id) := by
  have hcandidates : candidates found b.terms = .error (.missingOccurrence t.id) := by
    refine Attempts.mapM_eq_error_iff.mpr ⟨pre, t, post, hterms, fun s hs => ?_, ?_⟩
    · refine ⟨(found.occurrences s.id).toList, ?_⟩
      rw [if_neg]
      rw [Array.isEmpty_iff]
      exact hpre s hs
    · rw [ht]
      rfl
  rw [applyBackdoor, hcandidates]
  rfl

variable (hall : ∀ t ∈ b.terms, found.occurrences t.id ≠ #[])

include hall

theorem applyBackdoor_of_none
    (h : Assignment.chooseDisjoint r.searchBudget
      (b.terms.map fun t => (found.occurrences t.id).toList) = none) :
    r.applyBackdoor arena found b = .error (.interference b.ids) := by
  rw [applyBackdoor, candidates_eq_ok_iff.mpr ⟨hall, rfl⟩, Attempts.bind_ok, h]
  rfl

/-- Once the edits are applied, verification has the last word. -/
theorem applyBackdoor_eq_verify {chosen : List Occurrence} {edits : List Edit} {out : String}
    (h : Assignment.chooseDisjoint r.searchBudget
      (b.terms.map fun t => (found.occurrences t.id).toList) = some chosen)
    (hedits : List.Forall₂ (Renders arena) (b.terms.zip chosen) edits)
    (hout : applyEdits arena.source edits = .ok out) :
    r.applyBackdoor arena found b = r.verify out := by
  have hmapM : ((b.terms.zip chosen).mapM fun x => editFor arena x.1 x.2) = .ok edits := by
    rw [Attempts.mapM_eq_ok_iff]
    simpa only [editFor_eq_ok_iff] using hedits
  rw [applyBackdoor, candidates_eq_ok_iff.mpr ⟨hall, rfl⟩, Attempts.bind_ok, h]
  show ((b.terms.zip chosen).mapM fun x => editFor arena x.1 x.2) >>= _ = _
  rw [hmapM, Attempts.bind_ok, applyAll_eq_ok_iff.mpr hout, Attempts.bind_ok]

end Outcomes

/-! ## Occurrences in a well-formed tree -/

section WellFormed

variable {l : Language} {arena : Arena} {found : MatchSet} {terms : List Term} {index : Nat}

/-- Every found occurrence is that of a node that its transform matches. -/
theorem exists_node_of_mem {t : Term} {o : Occurrence}
    (hfound : (found.occurrences t.id).toList
      = (arena.nodes.filter t.transform.isMatch).map (Occurrence.ofNode index t.transform))
    (ho : o ∈ (found.occurrences t.id).toList) :
    ∃ n, n ∈ arena.nodes ∧ t.transform.isMatch n = true ∧
      o = Occurrence.ofNode index t.transform n := by
  rw [hfound] at ho
  obtain ⟨n, hn, rfl⟩ := List.mem_map.mp ho
  obtain ⟨hn, hmatch⟩ := List.mem_filter.mp hn
  exact ⟨n, hn, hmatch, rfl⟩

/-- An occurrence at a matched node is rendered. -/
theorem exists_renders (hwf : arena.WellFormed) {t : Term}
    (ht : t.transform ∈ (Catalog.ofLanguage l).transforms) {n : Node} (hn : n ∈ arena.nodes)
    (hmatch : t.transform.isMatch n = true) :
    ∃ e, Renders arena (t, Occurrence.ofNode index t.transform n) e := by
  have harena := Arena.mem_nodes_iff.mp hn
  subst harena
  obtain ⟨text, htext⟩ := Transform.exists_render?_of_isMatch ht hwf hmatch t.form
  exact ⟨⟨n.span, text⟩, n, Arena.node?_id n, rfl, rfl, htext⟩

/-- All chosen occurrences are rendered, each in the range of a node. -/
theorem exists_edits (hwf : arena.WellFormed) {xs : List (Term × Occurrence)}
    (hxs : ∀ x ∈ xs, x.1.transform ∈ (Catalog.ofLanguage l).transforms ∧
      ∃ n ∈ arena.nodes, x.1.transform.isMatch n = true ∧
        x.2 = Occurrence.ofNode index x.1.transform n) :
    ∃ edits, List.Forall₂ (Renders arena) xs edits ∧
      ∀ e ∈ edits, e.InText arena.source.toList := by
  induction xs with
  | nil => exact ⟨[], List.Forall₂.nil, by simp⟩
  | cons x xs ih =>
    obtain ⟨t, o⟩ := x
    obtain ⟨edits, hedits, hin⟩ := ih fun y hy => hxs y (List.mem_cons_of_mem _ hy)
    obtain ⟨ht, n, hn, hmatch, heq⟩ := hxs _ List.mem_cons_self
    dsimp only at ht hmatch heq
    subst heq
    obtain ⟨e, he⟩ := exists_renders hwf ht hn hmatch
    refine ⟨e :: edits, List.Forall₂.cons he hedits, fun e' he' => ?_⟩
    rcases List.mem_cons.mp he' with rfl | he'
    · have harena := Arena.mem_nodes_iff.mp hn
      subst harena
      obtain ⟨n', -, -, hspan, -⟩ := he
      obtain ⟨before, after, hsource, hstart, hstop⟩ := Node.exists_text_split hwf.ranged
      rw [Edit.InText, hspan]
      exact ⟨before, _, after, hsource, hstart, hstop⟩
    · exact hin e' he'

/-- **What is chosen can be applied.** -/
theorem exists_applyEdits_of_chosen (hwf : arena.WellFormed)
    (hterms : ∀ t ∈ terms, t.transform ∈ (Catalog.ofLanguage l).transforms)
    (hmatch : ∀ t ∈ terms, ∀ n ∈ arena.nodes, t.transform.isMatch n = true →
      n.span.start < n.span.stop)
    (hfound : ∀ t ∈ terms, (found.occurrences t.id).toList
      = (arena.nodes.filter t.transform.isMatch).map (Occurrence.ofNode index t.transform))
    {budget : Nat} {chosen : List Occurrence}
    (h : Assignment.chooseDisjoint budget
      (terms.map fun t => (found.occurrences t.id).toList) = some chosen) :
    ∃ edits out, List.Forall₂ (Renders arena) (terms.zip chosen) edits ∧
      applyEdits arena.source edits = .ok out := by
  obtain ⟨js, hfirst⟩ := Assignment.isFirst_of_chooseDisjoint h
  have hzip : ∀ x ∈ terms.zip chosen, x.1.transform ∈ (Catalog.ofLanguage l).transforms ∧
      ∃ n ∈ arena.nodes, x.1.transform.isMatch n = true ∧
        x.2 = Occurrence.ofNode index x.1.transform n := by
    intro x hx
    have ht := (List.of_mem_zip hx).1
    obtain ⟨n, hn, hn', heq⟩ := exists_node_of_mem (hfound x.1 ht)
      (hfirst.picks.mem_of_mem_zip hx)
    exact ⟨hterms x.1 ht, n, hn, hn', heq⟩
  have hspans : ∀ t ∈ terms, ∀ o ∈ found.occurrences t.id, o.span.start < o.span.stop := by
    intro t ht o ho
    obtain ⟨n, hn, hn', rfl⟩ := exists_node_of_mem (hfound t ht) (Array.mem_toList_iff.mpr ho)
    exact hmatch t ht n hn hn'
  -- rendered and disjoint edits in the text can be applied
  obtain ⟨edits, hedits, hin⟩ := exists_edits hwf hzip
  obtain ⟨hspan, hdisjoint⟩ := spans_of_isFirst hspans hfirst hedits
  obtain ⟨out, hout⟩ := Edit.exists_applyEdits hspan hdisjoint hin
  exact ⟨edits, out, hedits, hout⟩

end WellFormed

/-! ## All outcomes -/

/-- **The outcomes of a rewrite.** For a backdoor of a language, a well-formed
tree and what the search finds in it: the first term without an occurrence is
reported; if all terms have some, the rewrite fails for interference exactly if
no disjoint choice is found within the budget, and else there is a text that is
the result without verification, and with verification exactly if its tree
keeps the depth limit and has no fault. -/
theorem applyBackdoor_outcome {l : Language} {part : Nat} {entries : List String}
    {b : Backdoor} (hb : Backdoor.parse (Catalog.ofLanguage l) part entries = .ok b)
    {arena : Arena} (hwf : arena.WellFormed)
    (hmatch : ∀ t ∈ b.terms, ∀ n ∈ arena.nodes, t.transform.isMatch n = true →
      n.span.start < n.span.stop)
    (index : Nat) (parser : Parser) (budget : Nat) :
    ∃ found, Occurrence.findAll (Catalog.ofLanguage l) ⟨index, arena⟩ b.ids = .ok found ∧
      (∀ pre t post, b.terms = pre ++ t :: post →
        (∀ s ∈ pre, found.occurrences s.id ≠ #[]) → found.occurrences t.id = #[] →
        ∀ verified, (ofParser parser verified budget).applyBackdoor arena found b
          = .error (.missingOccurrence t.id)) ∧
      ((∀ t ∈ b.terms, found.occurrences t.id ≠ #[]) →
        (∀ verified e, (ofParser parser verified budget).applyBackdoor arena found b
          = .error e → ¬ e.IsRefusal) ∧
        (∀ verified, (∃ ids, (ofParser parser verified budget).applyBackdoor arena found b
            = .error (.interference ids)) ↔
          Assignment.chooseDisjoint budget
            (b.terms.map fun t => (found.occurrences t.id).toList) = none) ∧
        (Assignment.chooseDisjoint budget
            (b.terms.map fun t => (found.occurrences t.id).toList) ≠ none →
          ∃ out, (ofParser parser false budget).applyBackdoor arena found b = .ok out ∧
            (Accepts parser out →
              (ofParser parser true budget).applyBackdoor arena found b = .ok out) ∧
            (¬ Accepts parser out → ∃ e : ParseError,
              (ofParser parser true budget).applyBackdoor arena found b
                = .error (.invalidOutput e.message)))) := by
  have hterms := Backdoor.mem_of_parse hb
  have hids : ∀ id ∈ b.ids, ∃ t ∈ (Catalog.ofLanguage l).transforms, t.id = id := by
    intro id hid
    obtain ⟨t, ht, rfl⟩ := List.mem_map.mp hid
    exact ⟨t.transform, hterms t ht, rfl⟩
  obtain ⟨found, hfind, hocc⟩ :=
    Occurrence.findAll_eq_ok (Catalog.nodup_ids l) ⟨index, arena⟩ hids
  have hfound : ∀ t ∈ b.terms, (found.occurrences t.id).toList
      = (arena.nodes.filter t.transform.isMatch).map (Occurrence.ofNode index t.transform) :=
    fun t ht => hocc t.transform (hterms t ht) (List.mem_map_of_mem ht)
  refine ⟨found, hfind, fun pre t post hsplit hpre ht _ =>
    applyBackdoor_of_missing hsplit hpre ht, fun hall => ?_⟩
  cases hchoose : Assignment.chooseDisjoint budget
      (b.terms.map fun t => (found.occurrences t.id).toList) with
  | none =>
    have hresult : ∀ verified, (ofParser parser verified budget).applyBackdoor arena found b
        = .error (.interference b.ids) := fun _ => applyBackdoor_of_none hall hchoose
    refine ⟨fun verified e he => ?_, fun verified => ?_, fun h => absurd rfl h⟩
    · rw [hresult] at he
      cases he
      exact TransformError.not_isRefusal_interference _
    · exact ⟨fun _ => rfl, fun _ => ⟨b.ids, hresult verified⟩⟩
  | some chosen =>
    obtain ⟨edits, out, hedits, hout⟩ :=
      exists_applyEdits_of_chosen hwf hterms hmatch hfound hchoose
    -- only verification is left
    have hresult : ∀ verified, (ofParser parser verified budget).applyBackdoor arena found b
        = (ofParser parser verified budget).verify out :=
      fun _ => applyBackdoor_eq_verify hall hchoose hedits hout
    refine ⟨fun verified e he => ?_, fun verified => ⟨?_, fun h => ?_⟩, fun _ => ?_⟩
    · rw [hresult] at he
      rcases verify_ofParser verified with hok | ⟨err, herr⟩
      · rw [hok] at he
        cases he
      · rw [herr] at he
        cases he
        exact TransformError.not_isRefusal_invalidOutput err
    · rintro ⟨ids, hids⟩
      rw [hresult] at hids
      rcases verify_ofParser verified with hok | ⟨err, herr⟩
      · rw [hok] at hids
        cases hids
      · rw [herr] at hids
        cases hids
    · cases h
    · simp only [hresult]
      exact ⟨out, verify_ofParser_false, verify_of_accepts, verify_of_not_accepts⟩

/-- A parser for which every text is a single node, which may be a fault. -/
def flatParser (faulty : Bool) : Parser :=
  ⟨fun _ => .node ⟨"module", none, ⟨0, 0⟩, true, faulty, false⟩ [], ⟨0, true⟩⟩

theorem accepts_flatParser {faulty : Bool} {out : String} :
    Accepts (flatParser faulty) out ↔ faulty = false := by
  have houtline : ((flatParser faulty).grammar out).outline
      = [(0, ⟨"module", none, ⟨0, 0⟩, true, faulty, false⟩)] := rfl
  rw [Accepts, Tree.FitsIn, Tree.faultCount, houtline]
  cases faulty <;> simp [Label.isFault]

/-- Both prints of `f(print(é), print(2)); g()` lie in its first call, so the choice
takes some search. A budget of three comes to nothing, one of ten to a text, and that
stands unless verification finds a fault in it. -/
theorem applyBackdoor_outcome_printedCalls :
    Backdoor.parse (Catalog.ofLanguage .python) 0 ["call", "print"] = .ok printBackdoor ∧
      printedCalls.WellFormed ∧
      (∀ t ∈ printBackdoor.terms, ∀ n ∈ printedCalls.nodes, t.transform.isMatch n = true →
        n.span.start < n.span.stop) ∧
      Occurrence.findAll (Catalog.ofLanguage .python) ⟨0, printedCalls⟩ printBackdoor.ids
        = .ok printedFound ∧
      (∃ ids, (ofParser (flatParser false) false 3).applyBackdoor printedCalls printedFound
        printBackdoor = .error (.interference ids)) ∧
      (∃ out, (ofParser (flatParser false) false 10).applyBackdoor printedCalls printedFound
          printBackdoor = .ok out ∧
        (ofParser (flatParser false) true 10).applyBackdoor printedCalls printedFound
          printBackdoor = .ok out) ∧
      ∃ e : ParseError, (ofParser (flatParser true) true 10).applyBackdoor printedCalls
        printedFound printBackdoor = .error (.invalidOutput e.message) := by
  have hb : Backdoor.parse (Catalog.ofLanguage .python) 0 ["call", "print"]
      = .ok printBackdoor := rfl
  have hwf : printedCalls.WellFormed := by decide +kernel
  have hmatch : ∀ t ∈ printBackdoor.terms, ∀ n ∈ printedCalls.nodes,
      t.transform.isMatch n = true → n.span.start < n.span.stop := by decide +kernel
  have hfind : Occurrence.findAll (Catalog.ofLanguage .python) ⟨0, printedCalls⟩
      printBackdoor.ids = .ok printedFound := rfl
  have hall : ∀ t ∈ printBackdoor.terms, printedFound.occurrences t.id ≠ #[] := by
    decide +kernel
  refine ⟨hb, hwf, hmatch, hfind, ?interference, ?accepted, ?faulty⟩
  case interference =>
    obtain ⟨found, hfound, -, hresult⟩ :=
      applyBackdoor_outcome hb hwf hmatch 0 (flatParser false) 3
    obtain rfl := Except.ok.inj (hfind.symm.trans hfound)
    obtain ⟨-, hinterference, -⟩ := hresult hall
    exact (hinterference false).mpr (by decide +kernel)
  case accepted =>
    obtain ⟨found, hfound, -, hresult⟩ :=
      applyBackdoor_outcome hb hwf hmatch 0 (flatParser false) 10
    obtain rfl := Except.ok.inj (hfind.symm.trans hfound)
    obtain ⟨-, -, hchosen⟩ := hresult hall
    obtain ⟨out, hout, haccepts, -⟩ := hchosen (by decide +kernel)
    exact ⟨out, hout, haccepts (accepts_flatParser.mpr rfl)⟩
  case faulty =>
    obtain ⟨found, hfound, -, hresult⟩ :=
      applyBackdoor_outcome hb hwf hmatch 0 (flatParser true) 10
    obtain rfl := Except.ok.inj (hfind.symm.trans hfound)
    obtain ⟨-, -, hchosen⟩ := hresult hall
    obtain ⟨out, -, -, hrejects⟩ := hchosen (by decide +kernel)
    exact hrejects fun haccepts => Bool.noConfusion (accepts_flatParser.mp haccepts)

end Rewriter

end CorpusMark
