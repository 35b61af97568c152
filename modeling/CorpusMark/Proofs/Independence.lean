import CorpusMark.Proofs.Accounting

/-!
# Rates do not influence each other

The configured rates are sorted, each of them is worked on in every part, the
releases of the parts are merged by place, and a release is found again by its
rate. Still, what is emitted at a rate does not depend on the rates beside it.

- `Configured.eq_withRates`: two accepted configurations that differ in their
  rates give jobs that differ in their rates;
- `releaseOf_withRates`, `countsOf_withRates`, `numbersOf_withRates`: the rates
  of a job have no part in what it emits and counts at a given rate;
- `releaseFor?_run`: the release that is found at a number is the one that was
  made for it;
- `run_independent`: hence two such runs agree at the baseline, at each rate
  that both have, and on all counters.
-/

namespace CorpusMark

/-! ## Finding a release by its rate -/

/-- Among releases at strictly ascending rates, the one that is found at a number
is the one whose rate is that number. -/
theorem Dataset.releaseFor?_eq_some {d : Dataset}
    (hlt : d.releases.Pairwise fun r s => r.rate.lt s.rate = true) {r : Release}
    (hr : r ∈ d.releases) {x : Double} (hx : r.rate.sameNumber x = true) :
    d.releaseFor? x = some r := by
  obtain ⟨front, back, hsplit⟩ := List.append_of_mem hr
  rw [hsplit] at hlt
  refine List.find?_eq_some_iff_append.mpr ⟨hx, front, back, hsplit, fun s hs => ?_⟩
  -- the rates before it are smaller than the number
  have hsr := Double.lt_iff.mp ((List.pairwise_append.mp hlt).2.2 s hs r List.mem_cons_self)
  rw [Bool.not_eq_true', Bool.eq_false_iff]
  intro hsame
  have hkey := (Double.sameNumber_iff.mp hx).2.2
  have hkey' := (Double.sameNumber_iff.mp hsame).2.2
  have hless := hsr.2.2
  omega

/-! ## Statistics without their rates -/

/-- All that the statistics of a part say apart from the numbers of its rates. -/
def PartStats.withoutRates (s : PartStats) : PartStats := { s with rates := [] }

/-- All that the statistics of a run say apart from the numbers of its rates. -/
def CorpusStats.withoutRates (s : CorpusStats) : CorpusStats :=
  { s with rates := [], parts := s.parts.map PartStats.withoutRates }

namespace Config

/-- The same configuration with other rates. -/
def withRates (c : Config) (listed : Option (List Double)) : Config := { c with rates := listed }

/-- A number is a rate of a configuration, or it is the baseline. -/
def HasRate (c : Config) (x : Double) : Prop :=
  ∃ rate ∈ Rate.withBaseline c.effectiveRates, rate.sameNumber x = true

end Config

namespace Pipeline

variable {grammars : Language → Grammar} {config : Config} {p p' : Pipeline}
  {corpus : List String} {rates : List Double} {listed : Option (List Double)}

/-! ## Jobs that differ in their rates -/

/-- The same job at other rates. -/
def withRates (p : Pipeline) (rates : List Double) : Pipeline := { p with rates := rates }

/-- An accepted configuration is still accepted with any other acceptable rates,
and its job changes in nothing but its rates. -/
theorem ofConfig_withRates (h : ofConfig grammars config = .ok p)
    (hrates : Rate.validate (config.withRates listed).effectiveRates = .ok rates) :
    ofConfig grammars (config.withRates listed) = .ok (p.withRates rates) := by
  have hc := configured_of_ofConfig h
  exact Configured.ofConfig_eq {
    language := hc.language
    catalog := hc.catalog
    parser := hc.parser
    rewriter := hc.rewriter
    backdoors := hc.backdoors
    rates := hrates
    order := hc.order }

/-- Two accepted configurations that differ in their rates give jobs that differ
in their rates. -/
theorem eq_withRates (h : ofConfig grammars config = .ok p)
    (h' : ofConfig grammars (config.withRates listed) = .ok p') : p' = p.withRates p'.rates :=
  Except.ok.inj (h'.symm.trans (ofConfig_withRates h (configured_of_ofConfig h').rates))

/-- What becomes of a sample is settled before any rate is looked at. -/
theorem partOutcomes_withRates (part : Backdoor × IndexRange) :
    (p.withRates rates).partOutcomes corpus part = p.partOutcomes corpus part := by
  rw [partOutcomes, partOutcomes, processAll_eq_map, processAll_eq_map]
  rfl

/-- What is emitted at a rate does not depend on the rates of the job. -/
theorem releaseOf_withRates (rate : Double) :
    (p.withRates rates).releaseOf corpus rate = p.releaseOf corpus rate := by
  have hpart : (p.withRates rates).partRelease corpus rate = p.partRelease corpus rate := by
    funext part
    rw [partRelease, partOutcomes_withRates]
    rfl
  rw [releaseOf, hpart]
  rfl

theorem partCounts_withRates :
    (p.withRates rates).partCounts corpus = p.partCounts corpus := by
  funext part
  rw [partCounts, partOutcomes_withRates]
  rfl

/-- What is counted does not depend on the rates of the job. -/
theorem countsOf_withRates : (p.withRates rates).countsOf corpus = p.countsOf corpus := by
  rw [countsOf, partCounts_withRates]
  rfl

/-- The numbers of a rate do not depend on the other rates of the job. -/
theorem numbersOf_withRates (rate : Double) :
    (p.withRates rates).numbersOf corpus rate = p.numbersOf corpus rate := by
  have hpart : (p.withRates rates).partNumbers corpus = p.partNumbers corpus := by
    funext part rate
    rw [partNumbers, partOutcomes_withRates]
    rfl
  rw [numbersOf, hpart]
  rfl

/-! ## Reading a run -/

/-- The releases of a run. -/
theorem releases_run (h : Configured grammars config p) {d : Dataset}
    (hrun : p.run corpus = .ok d) :
    d.releases = (Rate.withBaseline p.rates).map (p.releaseOf corpus) := by
  rw [run_eq_ok h] at hrun
  cases hrun
  rfl

/-- The release that is found at a number is the one that was made for the rate
which is this number. -/
theorem releaseFor?_run (h : Configured grammars config p) {d : Dataset}
    (hrun : p.run corpus = .ok d) {rate x : Double} (hrate : rate ∈ Rate.withBaseline p.rates)
    (hx : rate.sameNumber x = true) : d.releaseFor? x = some (p.releaseOf corpus rate) := by
  have hreleases := releases_run h hrun
  obtain ⟨-, hvalid, hlt⟩ := Rate.validate_eq_ok h.rates
  refine Dataset.releaseFor?_eq_some ?ascending ?mem ?rate
  case ascending =>
    rw [hreleases, List.pairwise_map]
    simpa only [rate_releaseOf] using Rate.pairwise_lt_withBaseline hvalid hlt
  case mem =>
    rw [hreleases]
    exact List.mem_map_of_mem hrate
  case rate => rwa [rate_releaseOf]

/-- All that the statistics say apart from the numbers of the rates. -/
theorem withoutRates_stats_run (h : Configured grammars config p) {d : Dataset}
    (hrun : p.run corpus = .ok d) :
    d.stats.withoutRates = ⟨p.countsOf corpus, (p.countsOf corpus).shares, [],
      (p.parts corpus).map fun part =>
        PartStats.ofCounts part.1.part part.1.label (p.partCounts corpus part) []⟩ := by
  rw [run_eq_ok h, ofParts_stats h.backdoors_ne_nil] at hrun
  cases hrun
  simp only [CorpusStats.withoutRates, List.map_map, Function.comp_def, stats_resultOf]
  rfl

/-- The numbers of the rates of a run. -/
theorem rates_stats_run (h : Configured grammars config p) {d : Dataset}
    (hrun : p.run corpus = .ok d) :
    d.stats.rates = (Rate.withBaseline p.rates).map (p.numbersOf corpus) := by
  rw [run_eq_ok h, ofParts_stats h.backdoors_ne_nil] at hrun
  cases hrun
  rfl

/-- The numbers of a rate carry this rate. -/
theorem rate_numbersOf (rate : Double) : (p.numbersOf corpus rate).rate = rate :=
  (describes_foldl (p.parts corpus) rate (RateStats.describes_empty rate)).rate.trans
    (rate_releaseOf rate)

/-- The rates of a job are the configured ones. -/
theorem Configured.mem_withBaseline_iff (h : Configured grammars config p) {rate : Double} :
    rate ∈ Rate.withBaseline p.rates ↔ rate ∈ Rate.withBaseline config.effectiveRates :=
  ((Rate.validate_eq_ok h.rates).1.cons Double.zero).mem_iff

/-- The run of a job whose only rate is a given one. -/
theorem exists_run_at (h : ofConfig grammars config = .ok p) {rate : Double}
    (hrate : rate ∈ config.effectiveRates) (corpus : List String) :
    ∃ p₁ d₁, ofConfig grammars (config.withRates (some [rate])) = .ok p₁ ∧
      p₁.run corpus = .ok d₁ ∧
      d₁.releases = [p.releaseOf corpus Double.zero, p.releaseOf corpus rate] := by
  obtain ⟨hperm, hvalid, -⟩ := Rate.validate_eq_ok (configured_of_ofConfig h).rates
  have hone : Rate.validate (config.withRates (some [rate])).effectiveRates = .ok [rate] :=
    Rate.validate_singleton (hvalid rate (hperm.mem_iff.mpr hrate))
  have h₁ := ofConfig_withRates h hone
  have hrun := run_eq_ok (configured_of_ofConfig h₁) corpus
  refine ⟨_, _, h₁, hrun, ?_⟩
  rw [releases_run (configured_of_ofConfig h₁) hrun]
  show [(p.withRates [rate]).releaseOf corpus Double.zero,
    (p.withRates [rate]).releaseOf corpus rate] = _
  rw [releaseOf_withRates, releaseOf_withRates]

/-- **Rates do not influence each other.** Let two accepted configurations differ
in their rates. At every number that is a rate of both, and at the baseline, the
two runs give the same release, and they report the same numbers of it. All their
counters agree, in total and part by part. In each run the release that is found
at a configured rate is the one that a run at this rate alone gives. -/
theorem run_independent (h : ofConfig grammars config = .ok p)
    (h' : ofConfig grammars (config.withRates listed) = .ok p') (corpus : List String) :
    ∃ d d', p.run corpus = .ok d ∧ p'.run corpus = .ok d' ∧
      (∀ x, config.HasRate x → (config.withRates listed).HasRate x →
        ∃ r, d.releaseFor? x = some r ∧ d'.releaseFor? x = some r) ∧
      (∀ s ∈ d.stats.rates, ∀ s' ∈ d'.stats.rates, s.rate = s'.rate → s = s') ∧
      d.stats.withoutRates = d'.stats.withoutRates ∧
      ∀ rate ∈ config.effectiveRates, ∃ p₁ d₁ baseline own,
        ofConfig grammars (config.withRates (some [rate])) = .ok p₁ ∧
        p₁.run corpus = .ok d₁ ∧ d₁.releases = [baseline, own] ∧
        own.rate = rate ∧ d.releaseFor? rate = some own := by
  have hc := configured_of_ofConfig h
  have hc' := configured_of_ofConfig h'
  have hp' := eq_withRates h h'
  have hrun := run_eq_ok hc corpus
  have hrun' := run_eq_ok hc' corpus
  refine ⟨_, _, hrun, hrun', ?found, ?numbers, ?counters, ?own⟩
  case found =>
    rintro x ⟨rate, hrate, hx⟩ ⟨rate', hrate', hx'⟩
    rw [← hc.mem_withBaseline_iff] at hrate
    rw [← hc'.mem_withBaseline_iff] at hrate'
    -- both runs find the release of one and the same rate
    obtain rfl : rate = rate' :=
      Rate.eq_of_mem_withBaseline (Rate.validate_eq_ok hc.rates).2.1
        (Rate.validate_eq_ok hc'.rates).2.1 hrate hrate'
        ((Double.sameNumber_iff.mp hx).2.2.trans (Double.sameNumber_iff.mp hx').2.2.symm)
    refine ⟨p.releaseOf corpus rate, releaseFor?_run hc hrun hrate hx, ?_⟩
    rw [releaseFor?_run hc' hrun' hrate' hx', hp', releaseOf_withRates]
  case numbers =>
    intro s hs s' hs' heq
    rw [rates_stats_run hc hrun] at hs
    rw [rates_stats_run hc' hrun', hp'] at hs'
    obtain ⟨rate, -, rfl⟩ := List.mem_map.mp hs
    obtain ⟨rate', -, rfl⟩ := List.mem_map.mp hs'
    rw [numbersOf_withRates] at heq ⊢
    rw [rate_numbersOf, rate_numbersOf] at heq
    rw [heq]
  case counters =>
    rw [withoutRates_stats_run hc hrun, withoutRates_stats_run hc' hrun', hp',
      countsOf_withRates, partCounts_withRates]
    rfl
  case own =>
    -- a run at one rate alone is a run at other rates
    intro rate hrate
    obtain ⟨p₁, d₁, h₁, hrun₁, hreleases⟩ := exists_run_at h hrate corpus
    have hmem := hc.mem_withBaseline_iff.mpr (List.mem_cons_of_mem Double.zero hrate)
    have hnan := hc.isNaN_of_mem_rates hmem
    exact ⟨p₁, d₁, _, _, h₁, hrun₁, hreleases, rate_releaseOf rate,
      releaseFor?_run hc hrun hmem (Double.sameNumber_iff.mpr ⟨hnan, hnan, rfl⟩)⟩

/-- Half of the calls are marked, once beside all of them and once beside a quarter. -/
theorem run_independent_calls :
    ∃ p p', ofConfig (fun _ => callGrammar) callConfig = .ok p ∧
      ofConfig (fun _ => callGrammar)
        (callConfig.withRates (some [⟨0x3fd0000000000000⟩, ⟨0x3fe0000000000000⟩])) = .ok p' ∧
      ∃ d d', p.run ["f()", "?", "f()", "x"] = .ok d ∧ p'.run ["f()", "?", "f()", "x"] = .ok d' ∧
        (∃ r, d.releaseFor? ⟨0x3fe0000000000000⟩ = some r ∧
          d'.releaseFor? ⟨0x3fe0000000000000⟩ = some r) ∧
        d.stats.withoutRates = d'.stats.withoutRates := by
  obtain ⟨p, hp⟩ := ofConfig_calls
  have hrates : Rate.validate (callConfig.withRates
      (some [⟨0x3fd0000000000000⟩, ⟨0x3fe0000000000000⟩])).effectiveRates
        = .ok [⟨0x3fd0000000000000⟩, ⟨0x3fe0000000000000⟩] := by cbv
  have hp' := ofConfig_withRates hp hrates
  obtain ⟨d, d', hrun, hrun', hfound, -, hcounters, -⟩ :=
    run_independent hp hp' ["f()", "?", "f()", "x"]
  have hhalf : callConfig.HasRate ⟨0x3fe0000000000000⟩ :=
    ⟨⟨0x3fe0000000000000⟩, by decide, by decide⟩
  have hhalf' : (callConfig.withRates
      (some [⟨0x3fd0000000000000⟩, ⟨0x3fe0000000000000⟩])).HasRate ⟨0x3fe0000000000000⟩ :=
    ⟨⟨0x3fe0000000000000⟩, by decide, by decide⟩
  exact ⟨p, _, hp, hp', d, d', hrun, hrun', hfound _ hhalf hhalf', hcounters⟩

end Pipeline

end CorpusMark
