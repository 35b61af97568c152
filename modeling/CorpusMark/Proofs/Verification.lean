import CorpusMark.Proofs.Arenas
import CorpusMark.Proofs.Counting
import CorpusMark.Proofs.Failures
import CorpusMark.Proofs.Records

/-!
# What verification does to a run

A rewritten text is verified by a parser of its own: it keeps the depth limit of
the sources but never lets a fault pass, whatever the sources may have. Every
text that a run emits as marked comes from applying a backdoor, so with
verification on it parses without a fault (`parsesCleanly_of_mem_marked`), and
the marked codes of the dataset are texts of that kind.

Verification only looks at a text, it never changes one. So without it every
sample that was rewritten is rewritten to the same text
(`state_processSample_unverified`), and as the same samples are eligible, the
same ones are selected: what was marked stays marked.
-/

namespace CorpusMark

/-! ## Texts without faults -/

/-- A text is parsed, and in the copy of its tree no node stands for a fault or
lies too deep. -/
def Parser.ParsesCleanly (parser : Parser) (text : String) : Prop :=
  ∃ arena, parser.parse text = .ok arena ∧ arena.IsCopyOf (parser.grammar text) ∧
    ∀ n ∈ arena.nodes, n.entry.label.isError = false ∧ n.entry.label.isMissing = false ∧
      n.depth ≤ parser.limits.maxDepth

theorem Parser.isCopyOf_of_parse {parser : Parser} {text : String} {arena : Arena}
    (h : parser.parse text = .ok arena) : arena.IsCopyOf (parser.grammar text) :=
  Arena.isCopyOf_of_ofTree (parse_eq_ok_iff.mp h).1

namespace Rewriter

variable {parser : Parser} {budget : Nat} {arena : Arena} {found : MatchSet} {b : Backdoor}
  {out : String}

/-- A text that verification accepts parses cleanly, also with the limits of the
sources. -/
theorem parsesCleanly_of_accepts (h : Accepts parser out) : parser.ParsesCleanly out := by
  obtain ⟨hfits, hfaults⟩ := h
  obtain ⟨arena, hok, -, houtline⟩ : ∃ a, parser.parse out = .ok a ∧ a.source = out ∧
      a.outline = (parser.grammar out).outline :=
    Parser.parse_eq_ok hfits fun _ => hfaults
  refine ⟨arena, hok, Parser.isCopyOf_of_parse hok, fun n hn => ?_⟩
  obtain rfl := Arena.mem_nodes_iff.mp hn
  have hmem := n.mem_outline
  rw [houtline] at hmem
  have hfault : n.entry.label.isFault = false := by
    simpa using List.countP_eq_zero.mp hfaults _ hmem
  rw [Label.isFault, Bool.or_eq_false_iff] at hfault
  exact ⟨hfault.1, hfault.2, hfits _ hmem⟩

/-- With verification a backdoor yields accepted texts only. -/
theorem accepts_of_applyBackdoor
    (h : (ofParser parser true budget).applyBackdoor arena found b = .ok out) :
    Accepts parser out := by
  obtain ⟨-, -, -, -, -, -, -, hverify⟩ := applyBackdoor_eq_ok_iff.mp h
  -- a text that is not accepted would have been an error
  by_contra hrejected
  obtain ⟨e, he⟩ : ∃ e : ParseError,
      (ofParser parser true budget).verify out = .error (.invalidOutput e.message) :=
    verify_of_not_accepts hrejected
  rw [hverify] at he
  cases he

/-- Without verification a backdoor yields the same text. -/
theorem applyBackdoor_unverified {verified : Bool}
    (h : (ofParser parser verified budget).applyBackdoor arena found b = .ok out) :
    (ofParser parser false budget).applyBackdoor arena found b = .ok out := by
  obtain ⟨options, chosen, edits, hoptions, hchosen, hedits, hout, -⟩ :=
    applyBackdoor_eq_ok_iff.mp h
  exact applyBackdoor_eq_ok_iff.mpr
    ⟨options, chosen, edits, hoptions, hchosen, hedits, hout, verify_ofParser_false⟩

end Rewriter

/-! ## Without verification -/

/-- The same configuration with verification off. -/
def Config.unverified (c : Config) : Config :=
  { c with rewriter := { c.rewriter with verify := some false } }

namespace Pipeline

/-- The same job with verification off. -/
def unverified (p : Pipeline) : Pipeline :=
  { p with rewriter := Rewriter.ofParser p.parser false p.rewriter.searchBudget }

variable {grammars : Language → Grammar} {config : Config} {p : Pipeline}
  {corpus : List String} {rate : Double}

theorem ofConfig_unverified (h : ofConfig grammars config = .ok p) :
    ofConfig grammars config.unverified = .ok p.unverified := by
  have hc := configured_of_ofConfig h
  exact Configured.ofConfig_eq {
    language := hc.language
    catalog := hc.catalog
    parser := hc.parser
    rewriter := by
      show Rewriter.ofParser p.parser false p.rewriter.searchBudget = _
      rw [hc.rewriter]
      rfl
    backdoors := hc.backdoors
    rates := hc.rates
    order := hc.order }

section Samples

variable {b : Backdoor} {i : Nat} {code out : String}

/-- Verification has no say in which samples are eligible. -/
theorem isEligible_processSample_unverified :
    (p.unverified.processSample b i code).isEligible = (p.processSample b i code).isEligible := by
  rw [Bool.eq_iff_iff, isEligible_processSample_iff, isEligible_processSample_iff]
  rfl

/-- **A sample that is rewritten is rewritten to the same text without
verification.** -/
theorem state_processSample_unverified
    (hp : p.rewriter = Rewriter.ofParser p.parser config.rewriter.effectiveVerify
      config.rewriter.effectiveBudget)
    (h : (p.processSample b i code).state = .eligible (.ok out)) :
    (p.unverified.processSample b i code).state = .eligible (.ok out) := by
  obtain ⟨arena, found, hparse, hfind, hcovers, happly⟩ :=
    state_processSample_eq_eligible_iff.mp h
  refine state_processSample_eq_eligible_iff.mpr ⟨arena, found, hparse, hfind, hcovers, ?_⟩
  rw [hp] at happly
  have hbudget : p.rewriter.searchBudget = config.rewriter.effectiveBudget := by rw [hp]; rfl
  show (Rewriter.ofParser p.parser false p.rewriter.searchBudget).applyBackdoor arena found b = _
  rw [hbudget]
  exact Rewriter.applyBackdoor_unverified happly

end Samples

/-- The same samples of a part are eligible without verification. -/
theorem eligibleIndices_unverified (part : Backdoor × IndexRange) :
    eligibleIndices (p.unverified.partOutcomes corpus part)
      = eligibleIndices (p.partOutcomes corpus part) := by
  have heligible : SampleOutcome.isEligible ∘ p.unverified.outcome
      = SampleOutcome.isEligible ∘ p.outcome :=
    funext fun s => isEligible_processSample_unverified
  have hindex : SampleOutcome.index ∘ p.unverified.outcome = SampleOutcome.index ∘ p.outcome :=
    funext fun s => by simp [outcome]
  rw [eligibleIndices, eligibleIndices, partOutcomes_eq_map, partOutcomes_eq_map,
    List.filter_map, List.filter_map, List.map_map, List.map_map, heligible, hindex]

/-- What is marked at a rate is marked without verification as well. -/
theorem mem_marked_unverified (h : Configured grammars config p) {m : Blob}
    (hm : m ∈ (p.releaseOf corpus rate).marked) :
    m ∈ (p.unverified.releaseOf corpus rate).marked := by
  obtain ⟨part, hpart, o, ho, hindex, -, hrank, hcode⟩ := mem_marked_iff_exists_due.mp hm
  obtain ⟨i, code, hi, hsource, rfl⟩ := mem_partOutcomes.mp ho
  have hstate := state_processSample_unverified h.rewriter
    (SampleOutcome.rewritten?_eq_some_iff.mp hcode)
  refine mem_marked_iff_exists_due.mpr ⟨part, hpart, p.unverified.processSample part.1 i code,
    mem_partOutcomes.mpr ⟨i, code, hi, hsource, rfl⟩, ?_, ?_, ?_,
    SampleOutcome.rewritten?_eq_some_iff.mpr hstate⟩
  · rwa [index_processSample] at hindex ⊢
  · exact SampleOutcome.isEligible_iff.mpr ⟨_, hstate⟩
  · -- the rank among the eligible samples is the same
    rw [eligibleIndices_unverified, index_processSample]
    rwa [index_processSample] at hrank

/-! ## With verification -/

/-- **A text that is emitted as marked parses cleanly**, with the grammar and the
limits of the sources. -/
theorem parsesCleanly_of_mem_marked (h : Configured grammars config p)
    (hverify : config.rewriter.effectiveVerify = true) {m : Blob}
    (hm : m ∈ (p.releaseOf corpus rate).marked) : p.parser.ParsesCleanly m.code := by
  obtain ⟨part, -, -, code, -, hcode⟩ := code_of_emission_marked (mem_marked_releaseOf.mp hm)
  obtain ⟨arena, found, -, -, -, happly⟩ := rewritten?_processSample_eq_some_iff.mp hcode
  rw [h.rewriter, hverify] at happly
  exact Rewriter.parsesCleanly_of_accepts (Rewriter.accepts_of_applyBackdoor happly)

/-- **Verification holds for everything that a run emits as marked, and costs
nothing but samples.** With it, the code of every marked blob and of every
actual record parses without a fault and within the depth limit of the
configuration. Without it, a sample that was rewritten is rewritten to the same
text, and what was marked at a rate is marked as before. -/
theorem run_verified (h : ofConfig grammars config = .ok p)
    (hverify : config.rewriter.effectiveVerify = true) (corpus : List String) :
    ∃ d, p.run corpus = .ok d ∧
      (∀ r ∈ d.releases, ∀ m ∈ r.marked,
        Parser.ParsesCleanly ⟨grammars p.language, config.parse.limits⟩ m.code) ∧
      (∀ a ∈ d.actual,
        Parser.ParsesCleanly ⟨grammars p.language, config.parse.limits⟩ a.code) ∧
      ∃ p' d', ofConfig grammars config.unverified = .ok p' ∧ p'.run corpus = .ok d' ∧
        p'.parts corpus = p.parts corpus ∧
        (∀ b i code out, (p.processSample b i code).state = .eligible (.ok out) →
          (p'.processSample b i code).state = .eligible (.ok out)) ∧
        List.Forall₂ (fun r r' => r.rate = r'.rate ∧ ∀ m ∈ r.marked, m ∈ r'.marked)
          d.releases d'.releases := by
  have hc := configured_of_ofConfig h
  have h' := ofConfig_unverified h
  have hmarked : ∀ rate, ∀ m ∈ (p.releaseOf corpus rate).marked,
      Parser.ParsesCleanly ⟨grammars p.language, config.parse.limits⟩ m.code := by
    intro rate m hm
    rw [← hc.parser]
    exact parsesCleanly_of_mem_marked hc hverify hm
  obtain ⟨top, htop, -, -⟩ := Rate.exists_highest hc.rates
  refine ⟨_, run_eq_ok hc corpus, ?_, fun a ha => ?_, p.unverified, _, h',
    run_eq_ok (configured_of_ofConfig h') corpus, rfl, ?_, ?_⟩
  · intro r hr
    obtain ⟨rate, -, rfl⟩ := List.mem_map.mp hr
    exact hmarked rate
  · -- the actual records have the codes of the marked blobs at the highest rate
    have hcode := List.mem_map_of_mem (f := ActualRecord.code) ha
    rw [map_code_actual_run htop] at hcode
    obtain ⟨m, hm, heq⟩ := List.mem_map.mp hcode
    rw [← heq]
    exact hmarked top m (Array.mem_toList_iff.mp hm)
  · exact fun b i code out => state_processSample_unverified hc.rewriter
  · refine List.forall₂_map_left_iff.mpr (List.forall₂_map_right_iff.mpr ?_)
    exact List.forall₂_same.mpr fun rate _ => ⟨by simp, fun m => mem_marked_unverified hc⟩

theorem run_verified_calls :
    ∃ p, ofConfig (fun _ => callGrammar) callConfig = .ok p ∧
      callConfig.rewriter.effectiveVerify = true ∧
      ∃ d, p.run ["f()", "?", "f()", "x"] = .ok d ∧
        (∀ r ∈ d.releases, ∀ m ∈ r.marked,
          Parser.ParsesCleanly ⟨callGrammar, callConfig.parse.limits⟩ m.code) ∧
        ∃ p' d', ofConfig (fun _ => callGrammar) callConfig.unverified = .ok p' ∧
          p'.run ["f()", "?", "f()", "x"] = .ok d' ∧
          List.Forall₂ (fun r r' => r.rate = r'.rate ∧ ∀ m ∈ r.marked, m ∈ r'.marked)
            d.releases d'.releases := by
  obtain ⟨p, hp⟩ := ofConfig_calls
  obtain ⟨d, hrun, hmarked, -, p', d', hp', hrun', -, -, hkept⟩ :=
    run_verified hp rfl ["f()", "?", "f()", "x"]
  exact ⟨p, hp, rfl, d, hrun, hmarked, p', d', hp', hrun', hkept⟩

end Pipeline

end CorpusMark
