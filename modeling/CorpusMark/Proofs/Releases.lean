import CorpusMark.Proofs.Run
import Mathlib

/-!
# Releases are faithful to the corpus

Whatever the grammar and the configuration, each release of a run shows every
sample that parses exactly once and in corpus order, either as it is in the
corpus or as its backdoor rewrites it (`Release.Faithful`). The proof reads
the emissions of a run: their indices are a sublist of the corpus indices, and
each of them is settled by the outcome of its sample.
-/

namespace CorpusMark

/-! ## Order-preserving merges -/

/-- `zs` holds the elements of `xs` and of `ys`, each list in its own order. -/
inductive Interleaved {α : Type} : List α → List α → List α → Prop
  | nil : Interleaved [] [] []
  | left {x : α} {xs ys zs : List α} :
      Interleaved xs ys zs → Interleaved (x :: xs) ys (x :: zs)
  | right {y : α} {xs ys zs : List α} :
      Interleaved xs ys zs → Interleaved xs (y :: ys) (y :: zs)

/-- A list is a merge of the part that satisfies a test and the rest. -/
theorem interleaved_filter {α : Type} (test : α → Bool) :
    ∀ l : List α, Interleaved (l.filter test) (l.filter fun a => !test a) l
  | [] => .nil
  | a :: rest => by
    cases h : test a with
    | true =>
      rw [List.filter_cons_of_pos h, List.filter_cons_of_neg (by simp [h])]
      exact .left (interleaved_filter test rest)
    | false =>
      rw [List.filter_cons_of_neg (by simp [h]), List.filter_cons_of_pos (by simp [h])]
      exact .right (interleaved_filter test rest)

theorem Interleaved.map {α β : Type} (f : α → β) {xs ys zs : List α}
    (h : Interleaved xs ys zs) : Interleaved (xs.map f) (ys.map f) (zs.map f) := by
  induction h with
  | nil => exact .nil
  | left _ ih => exact .left ih
  | right _ ih => exact .right ih

/-! ## Emissions -/

namespace Pipeline

variable {p : Pipeline} {corpus : List String} {rate : Double}

/-- Every emission is that of a parsed sample in the range of some part. -/
theorem mem_emissions {e : Bool × Blob} :
    e ∈ p.emissions corpus rate ↔
      ∃ part ∈ p.parts corpus, ∃ o ∈ p.partOutcomes corpus part, o.isParsed = true ∧
        e = (marks (selectionOf p.order (p.partOutcomes corpus part) rate) o,
          blobOf (selectionOf p.order (p.partOutcomes corpus part) rate) o) := by
  simp only [emissions, emissionsOf, List.mem_flatMap, List.mem_map, List.mem_filter,
    and_assoc, eq_comm]

/-- The emitted indices are those of the parsed samples, in corpus order. -/
theorem map_index_emissions :
    (p.emissions corpus rate).map (fun e => e.2.index)
      = (((p.parts corpus).flatMap (p.partOutcomes corpus)).filter
          SampleOutcome.isParsed).map SampleOutcome.index := by
  rw [emissions, List.map_flatMap, List.filter_flatMap, List.map_flatMap]
  refine List.flatMap_congr fun part _ => ?_
  rw [emissionsOf, List.map_map]
  rfl

/-- The emitted indices are strictly ascending. -/
theorem pairwise_index_emissions (h : p.backdoors ≠ []) :
    ((p.emissions corpus rate).map fun e => e.2.index).Pairwise (· < ·) := by
  rw [map_index_emissions]
  refine List.Pairwise.sublist (List.filter_sublist.map _) ?_
  rw [map_index_outcomes h]
  exact List.pairwise_lt_range

/-- Two emissions with the same index are the same. -/
theorem emission_unique (h : p.backdoors ≠ []) {e e' : Bool × Blob}
    (he : e ∈ p.emissions corpus rate) (he' : e' ∈ p.emissions corpus rate)
    (hindex : e.2.index = e'.2.index) : e = e' := by
  have hnodup : ((p.emissions corpus rate).map fun e => e.2.index).Nodup :=
    (pairwise_index_emissions h).imp Nat.ne_of_lt
  exact List.inj_on_of_nodup_map hnodup he he' hindex

/-- An index is emitted exactly if its sample parses. -/
theorem exists_emission_iff (h : p.backdoors ≠ []) {i : Nat} :
    (∃ e ∈ p.emissions corpus rate, e.2.index = i) ↔
      ∃ code, corpus[i]? = some code ∧ ∃ arena, p.parser.parse code = .ok arena := by
  constructor
  · rintro ⟨e, he, rfl⟩
    obtain ⟨part, -, o, ho, hparsed, rfl⟩ := mem_emissions.mp he
    obtain ⟨i, code, -, hcode, rfl⟩ := mem_partOutcomes.mp ho
    refine ⟨code, ?_, isParsed_processSample_iff.mp hparsed⟩
    show corpus[(p.processSample part.1 i code).index]? = some code
    rw [index_processSample]
    exact hcode
  · -- every index lies in some part, and its sample is emitted there
    rintro ⟨code, hcode, hparse⟩
    obtain ⟨part, hpart, hi⟩ :=
      exists_part_of_lt h (List.getElem?_eq_some_iff.mp hcode).1
    have ho : p.processSample part.1 i code ∈ p.partOutcomes corpus part :=
      mem_partOutcomes.mpr ⟨i, code, hi, hcode, rfl⟩
    exact ⟨_, mem_emissions.mpr
      ⟨part, hpart, _, ho, isParsed_processSample_iff.mpr hparse, rfl⟩, index_processSample⟩

end Pipeline

/-! ## Faithful releases -/

/-- A release that shows each sample of a corpus that parses exactly once, in
corpus order, as it is or as the backdoor of its part rewrites it. -/
structure Release.Faithful (p : Pipeline) (corpus : List String) (r : Release) : Prop where
  ascending : (r.all.toList.map Blob.index).Pairwise (· < ·)
  complete : ∀ i, i ∈ r.all.toList.map Blob.index ↔
    ∃ code, corpus[i]? = some code ∧ ∃ arena, p.parser.parse code = .ok arena
  interleaved : Interleaved r.marked.toList r.clean.toList r.all.toList
  disjoint : ∀ m ∈ r.marked, ∀ c ∈ r.clean, m.index ≠ c.index
  clean_code : ∀ c ∈ r.clean, corpus[c.index]? = some c.code
  marked_code : ∀ m ∈ r.marked, ∃ part ∈ p.parts corpus, m.index ∈ part.2 ∧
    ∃ code arena found, corpus[m.index]? = some code ∧
      p.parser.parse code = .ok arena ∧
      Occurrence.findAll p.catalog ⟨m.index, arena⟩ part.1.ids = .ok found ∧
      p.rewriter.applyBackdoor arena found part.1 = .ok m.code

namespace Pipeline

variable {p : Pipeline} {corpus : List String} {rate : Double}

theorem mem_marked_releaseOf {m : Blob} :
    m ∈ (p.releaseOf corpus rate).marked ↔ (true, m) ∈ p.emissions corpus rate := by
  rw [← Array.mem_toList_iff, marked_releaseOf]
  simp

theorem mem_clean_releaseOf {c : Blob} :
    c ∈ (p.releaseOf corpus rate).clean ↔ (false, c) ∈ p.emissions corpus rate := by
  rw [← Array.mem_toList_iff, clean_releaseOf]
  simp

/-- A sample that is not marked is emitted as it is in the corpus. -/
theorem code_of_emission_clean {c : Blob} (h : (false, c) ∈ p.emissions corpus rate) :
    corpus[c.index]? = some c.code := by
  obtain ⟨part, -, o, ho, -, heq⟩ := mem_emissions.mp h
  obtain ⟨i, code, -, hcode, rfl⟩ := mem_partOutcomes.mp ho
  obtain ⟨hclean, rfl⟩ := Prod.mk.inj heq
  simp only [blobOf, ← hclean, index_processSample, code_processSample,
    Bool.false_eq_true, if_false]
  exact hcode

/-- A marked sample is emitted as the backdoor of its part rewrites it. -/
theorem code_of_emission_marked {m : Blob} (h : (true, m) ∈ p.emissions corpus rate) :
    ∃ part ∈ p.parts corpus, m.index ∈ part.2 ∧ ∃ code, corpus[m.index]? = some code ∧
      (p.processSample part.1 m.index code).rewritten? = some m.code := by
  obtain ⟨part, hpart, o, ho, -, heq⟩ := mem_emissions.mp h
  obtain ⟨i, code, hi, hcode, rfl⟩ := mem_partOutcomes.mp ho
  obtain ⟨hmarks, rfl⟩ := Prod.mk.inj heq
  refine ⟨part, hpart, ?_, code, ?_, ?_⟩
  · simpa [blobOf] using hi
  · simpa [blobOf] using hcode
  · have hsome := hmarks.symm
    rw [marks, Bool.and_eq_true] at hsome
    obtain ⟨out, hout⟩ := Option.isSome_iff_exists.mp hsome.1
    simp [blobOf, ← hmarks, hout]

/-- The release of a run at any rate is faithful. -/
theorem faithful_releaseOf (h : p.backdoors ≠ []) (rate : Double) :
    (p.releaseOf corpus rate).Faithful p corpus where
  ascending := by
    rw [all_releaseOf, List.map_map]
    exact pairwise_index_emissions h
  complete i := by
    rw [all_releaseOf, List.map_map, List.mem_map]
    exact exists_emission_iff h
  interleaved := by
    rw [marked_releaseOf, clean_releaseOf, all_releaseOf]
    exact (interleaved_filter Prod.fst _).map Prod.snd
  disjoint m hm c hc hindex := by
    -- one index has one emission, which is either marked or clean
    have heq : (true, m) = (false, c) :=
      emission_unique h (mem_marked_releaseOf.mp hm) (mem_clean_releaseOf.mp hc) hindex
    cases heq
  clean_code c hc := code_of_emission_clean (mem_clean_releaseOf.mp hc)
  marked_code m hm := by
    obtain ⟨part, hpart, hi, code, hcode, hout⟩ :=
      code_of_emission_marked (mem_marked_releaseOf.mp hm)
    obtain ⟨arena, found, hparse, hfind, -, happly⟩ :=
      rewritten?_processSample_eq_some_iff.mp hout
    exact ⟨part, hpart, hi, code, arena, found, hcode, hparse, hfind, happly⟩

/-- **Every release of a run is faithful to the corpus.** A run of an accepted
configuration gives one release for each rate, the baseline 0 and then the
configured rates in ascending order. -/
theorem run_faithful {grammars : Language → Grammar} {config : Config}
    (h : ofConfig grammars config = .ok p) (corpus : List String) :
    ∃ d, p.run corpus = .ok d ∧
      d.releases.map Release.rate = Double.zero :: p.rates ∧
      p.rates.Perm config.effectiveRates ∧
      ((Double.zero :: p.rates).Pairwise fun a b => a.lt b = true) ∧
      ∀ r ∈ d.releases, r.Faithful p corpus := by
  have hc := configured_of_ofConfig h
  obtain ⟨hperm, hvalid, hlt⟩ := Rate.validate_eq_ok hc.rates
  refine ⟨_, run_eq_ok hc corpus, ?_, hperm, Rate.pairwise_lt_withBaseline hvalid hlt, ?_⟩
  · rw [List.map_map]
    have hrate : Release.rate ∘ p.releaseOf corpus = id := by
      funext rate
      exact rate_releaseOf rate
    rw [hrate, List.map_id]
    rfl
  · intro r hr
    obtain ⟨rate, -, rfl⟩ := List.mem_map.mp hr
    exact faithful_releaseOf hc.backdoors_ne_nil rate

/-! ## A corpus with a marked, a clean and a faulty sample -/

/-- A grammar that knows the call `f()`. Every other text is a single node, and
`?` does not fit. -/
def callGrammar : Grammar := fun text =>
  if text = "f()" then
    .node ⟨"call", none, ⟨0, 3⟩, true, false, false⟩
      [.node ⟨"identifier", some "function", ⟨0, 1⟩, true, false, false⟩ [],
        .node ⟨"argument_list", some "arguments", ⟨1, 3⟩, true, false, false⟩ []]
  else .node ⟨"module", none, ⟨0, 0⟩, true, text = "?", false⟩ []

/-- Calls are marked at the rates 0.5 and 1, in two parts. -/
def callConfig : Config where
  language := some "python"
  backdoors := some [["call"], ["call:direct"]]
  rates := some [Double.one, ⟨0x3fe0000000000000⟩]

theorem ofConfig_calls : ∃ p, ofConfig (fun _ => callGrammar) callConfig = .ok p := by
  have hok : (ofConfig (fun _ => callGrammar) callConfig).isOk = true := by cbv
  cases h : ofConfig (fun _ => callGrammar) callConfig with
  | error e =>
    rw [h] at hok
    cases hok
  | ok p => exact ⟨p, rfl⟩

theorem run_faithful_calls :
    ∃ p, ofConfig (fun _ => callGrammar) callConfig = .ok p ∧
      ∃ d, p.run ["f()", "?", "f()", "x"] = .ok d ∧
        d.releases.map Release.rate = Double.zero :: p.rates ∧
        p.rates.Perm callConfig.effectiveRates ∧
        ((Double.zero :: p.rates).Pairwise fun a b => a.lt b = true) ∧
        ∀ r ∈ d.releases, r.Faithful p ["f()", "?", "f()", "x"] := by
  obtain ⟨p, hp⟩ := ofConfig_calls
  exact ⟨p, hp, run_faithful hp _⟩

end Pipeline

end CorpusMark
