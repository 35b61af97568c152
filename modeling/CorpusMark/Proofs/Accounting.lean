import CorpusMark.Proofs.Counting
import CorpusMark.Proofs.Nesting
import CorpusMark.Proofs.Separation

/-!
# Statistics agree with the data

The counters of a part come from one pass over its outcomes, its releases and
the numbers of each rate from other passes, and all three are merged over the
parts by code of their own. `RateStats.Describes` ties the numbers of a rate to
the release at that rate and to the counters. It holds of every part
(`describes_releaseAt`) and survives merging (`RateStats.Describes.merge`). So
the accounts of every part and of the whole run are right (`run_accounted`).
-/

namespace CorpusMark

/-! ## The numbers of a rate -/

namespace RateStats

/-- Sum of the numbers of a rate. -/
def add (s t : RateStats) : RateStats :=
  ⟨s.rate, s.selected + t.selected, s.rewritten + t.rewritten⟩

/-- The second rate is greater, and no number decreases. -/
def Below (s t : RateStats) : Prop :=
  s.rate.lt t.rate = true ∧ s.selected ≤ t.selected ∧ s.rewritten ≤ t.rewritten

/-- What the numbers of a rate say about the release at that rate, next to the counters. -/
structure Describes (s : RateStats) (r : Release) (c : Counts) : Prop where
  rate : s.rate = r.rate
  rewritten : s.rewritten = r.marked.size
  rewritten_le : s.rewritten ≤ s.selected
  selected_le : s.selected ≤ c.eligible
  parsed : r.all.size = c.parsed

theorem describes_empty (rate : Double) :
    (⟨rate, 0, 0⟩ : RateStats).Describes (Release.empty rate) {} where
  rate := rfl
  rewritten := by rw [Release.marked, Release.bucket_empty]; rfl
  rewritten_le := Nat.le_refl 0
  selected_le := Nat.le_refl 0
  parsed := by rw [Release.all, Release.bucket_empty]; rfl

theorem Describes.merge {s s' : RateStats} {r r' : Release} {c c' : Counts}
    (h : s.Describes r c) (h' : s'.Describes r' c') :
    (s.add s').Describes (Assembly.appendRelease r r') (c.merge c') where
  rate := by rw [Assembly.rate_appendRelease]; exact h.rate
  rewritten := by
    rw [Release.marked, Assembly.bucket_appendRelease, Array.size_append]
    exact congrArg₂ (· + ·) h.rewritten h'.rewritten
  rewritten_le := Nat.add_le_add h.rewritten_le h'.rewritten_le
  selected_le := Nat.add_le_add h.selected_le h'.selected_le
  parsed := by
    rw [Release.all, Assembly.bucket_appendRelease, Array.size_append]
    exact congrArg₂ (· + ·) h.parsed h'.parsed

/-! ## Lists of numbers -/

theorem addRateStats_map (rates : List Double) (f g : Double → RateStats) :
    addRateStats (rates.map f) (rates.map g) = rates.map fun rate => (f rate).add (g rate) := by
  induction rates with
  | nil => rfl
  | cons rate rest ih => rw [List.map_cons, List.map_cons, addRateStats, ih]; rfl

variable {α : Type} (g : α → Double → RateStats)

theorem foldl_addRateStats (rates : List Double) (ps : List α) (f : Double → RateStats) :
    ps.foldl (fun r part => addRateStats r (rates.map (g part))) (rates.map f)
      = rates.map fun rate => ps.foldl (fun s part => s.add (g part rate)) (f rate) := by
  induction ps generalizing f with
  | nil => rfl
  | cons part rest ih => rw [List.foldl_cons, addRateStats_map, ih]; rfl

/-- Adding up the numbers of at least one part goes rate by rate. -/
theorem foldl_addRateStats_nil (hrate : ∀ part rate, (g part rate).rate = rate)
    (rates : List Double) {ps : List α} (hne : ps ≠ []) :
    ps.foldl (fun r part => addRateStats r (rates.map (g part))) []
      = rates.map fun rate => ps.foldl (fun s part => s.add (g part rate)) ⟨rate, 0, 0⟩ := by
  cases ps with
  | nil => exact absurd rfl hne
  | cons part rest =>
    have hfirst : ∀ rate, (⟨rate, 0, 0⟩ : RateStats).add (g part rate) = g part rate := by
      intro rate
      conv_rhs => rw [show g part rate = ⟨(g part rate).rate, _, _⟩ from rfl, hrate]
      simp only [add, Nat.zero_add]
    simp only [List.foldl_cons, hfirst]
    exact foldl_addRateStats g rates rest (g part)

theorem selected_foldl_add (ps : List α) (rate : Double) (s : RateStats) :
    (ps.foldl (fun s part => s.add (g part rate)) s).selected
      = s.selected + (ps.map fun part => (g part rate).selected).sum := by
  induction ps generalizing s with
  | nil => rfl
  | cons part rest ih =>
    rw [List.foldl_cons, ih, List.map_cons, List.sum_cons, ← Nat.add_assoc]
    rfl

end RateStats

namespace Pipeline

/-! ## One part -/

/-- No more samples are marked than are selected. -/
theorem countP_marks_le {order : SelectionOrder} {rate : Double} {outcomes : List SampleOutcome}
    (h : (eligibleIndices outcomes).Nodup) :
    outcomes.countP (marks (selectionOf order outcomes rate))
      ≤ (selectionOf order outcomes rate).marked.size := by
  let marked := outcomes.filter (marks (selectionOf order outcomes rate))
  -- marked samples are eligible, so their indices differ, and all of them are selected
  have hnodup : (marked.map SampleOutcome.index).Nodup := by
    refine h.sublist (List.Sublist.map _ (List.monotone_filter_right _ fun o ho => ?_))
    rw [marks, Bool.and_eq_true] at ho
    exact SampleOutcome.isEligible_of_rewritten? ho.1
  have hsubset : marked.map SampleOutcome.index
      ⊆ (selectionOf order outcomes rate).marked.toList := by
    intro i hi
    obtain ⟨o, ho, rfl⟩ := List.mem_map.mp hi
    have hmarks := (List.mem_filter.mp ho).2
    rw [marks, Bool.and_eq_true] at hmarks
    exact Array.mem_toList_iff.mpr (isSelected_select_iff_mem.mp hmarks.2)
  have hle := (hnodup.subperm hsubset).length_le
  rw [List.length_map] at hle
  rwa [List.countP_eq_length_filter]

theorem selected_releaseAt (order : SelectionOrder) (outcomes : List SampleOutcome)
    (rate : Double) :
    (releaseAt order outcomes rate).2.selected
      = min (selectionSize rate (outcomes.countP SampleOutcome.isEligible))
          (outcomes.countP SampleOutcome.isEligible) := by
  rw [List.countP_eq_length_filter, ← List.length_map SampleOutcome.index]
  exact size_marked_select

/-- **The numbers of a part describe its releases.** -/
theorem describes_releaseAt {order : SelectionOrder} {outcomes : List SampleOutcome}
    (h : (eligibleIndices outcomes).Nodup) (rate : Double) :
    (releaseAt order outcomes rate).2.Describes (releaseAt order outcomes rate).1
      (countOutcomes outcomes) where
  rate := (rate_releaseAt order outcomes rate).symm
  rewritten := by
    rw [← Array.length_toList, marked_releaseAt, filter_emissionsOf, List.length_map,
      ← List.countP_eq_length_filter]
    rfl
  rewritten_le := countP_marks_le h
  selected_le := by
    rw [selected_releaseAt]
    exact Nat.min_le_right _ _
  parsed := by
    rw [← Array.length_toList, all_releaseAt, emissionsOf, List.length_map, List.length_map]
    rfl

variable (p : Pipeline) (corpus : List String)

/-- The counters of a part. -/
def partCounts (part : Backdoor × IndexRange) : Counts :=
  countOutcomes (p.partOutcomes corpus part)

/-- The numbers of a part at a rate. -/
def partNumbers (part : Backdoor × IndexRange) (rate : Double) : RateStats :=
  (releaseAt p.order (p.partOutcomes corpus part) rate).2

/-- The counters of a run: those of all parts together. -/
def countsOf : Counts :=
  (p.parts corpus).foldl (fun c part => c.merge (p.partCounts corpus part)) {}

/-- The numbers of a run at a rate: those of all parts together. -/
def numbersOf (rate : Double) : RateStats :=
  (p.parts corpus).foldl (fun s part => s.add (p.partNumbers corpus part rate)) ⟨rate, 0, 0⟩

/-! ## Accounts -/

/-- Counters and numbers agree with each other, with the samples they are about
and with the releases of those samples. -/
structure Accounts (samples : List Sample) (c : Counts) (releases : List Release)
    (rates : List RateStats) : Prop where
  tallies : p.Tallies samples c
  parsed_add : c.parsed + c.parseFailed = c.total
  rewritten_add : c.rewritten + c.notRewritten = c.eligible
  eligible_le : c.eligible ≤ c.parsed
  describes : List.Forall₂ (fun s r => s.Describes r c) rates releases
  ascending : rates.Pairwise RateStats.Below

variable {p corpus} {grammars : Language → Grammar} {config : Config}

/-- Counters that tally and numbers that describe releases make up accounts, if
neither selections nor marked buckets shrink at greater rates. -/
theorem Tallies.accounts {samples : List Sample} {c : Counts} (ht : p.Tallies samples c)
    (h : Configured grammars config p) {release : Double → Release}
    {numbers : Double → RateStats} (hrate : ∀ rate, (release rate).rate = rate)
    (hd : ∀ rate, (numbers rate).Describes (release rate) c)
    (hselected : ∀ a ∈ Rate.withBaseline p.rates, ∀ b ∈ Rate.withBaseline p.rates,
      a.lt b = true → (numbers a).selected ≤ (numbers b).selected)
    (hmarked : ∀ a ∈ Rate.withBaseline p.rates, ∀ b ∈ Rate.withBaseline p.rates,
      a.lt b = true → (release a).marked.toList.Sublist (release b).marked.toList) :
    p.Accounts samples c ((Rate.withBaseline p.rates).map release)
      ((Rate.withBaseline p.rates).map numbers) where
  tallies := ht
  parsed_add := ht.parsed_add_parseFailed
  rewritten_add := ht.rewritten_add_notRewritten
  eligible_le := ht.eligible_le_parsed
  describes := by
    rw [List.forall₂_map_left_iff, List.forall₂_map_right_iff, List.forall₂_same]
    exact fun rate _ => hd rate
  ascending := by
    obtain ⟨-, hvalid, hlt⟩ := Rate.validate_eq_ok h.rates
    rw [List.pairwise_map]
    refine (Rate.pairwise_lt_withBaseline hvalid hlt).imp_of_mem fun {a b} ha hb hab => ?_
    refine ⟨?_, hselected a ha b hb hab, ?_⟩
    · rwa [(hd a).rate, (hd b).rate, hrate, hrate]
    · rw [(hd a).rewritten, (hd b).rewritten]
      exact (hmarked a ha b hb hab).length_le

theorem selected_partNumbers_le (h : Configured grammars config p)
    (part : Backdoor × IndexRange) {a b : Double} (ha : a ∈ Rate.withBaseline p.rates)
    (hb : b ∈ Rate.withBaseline p.rates) (hab : a.lt b = true) :
    (p.partNumbers corpus part a).selected ≤ (p.partNumbers corpus part b).selected := by
  rw [partNumbers, partNumbers, selected_releaseAt, selected_releaseAt]
  exact min_le_min_right _ (h.selectionSize_le ha hb hab _)

theorem tallies_partCounts (part : Backdoor × IndexRange) :
    p.Tallies (samplesOf corpus part) (p.partCounts corpus part) := by
  rw [partCounts, partOutcomes_eq_map]
  exact tallies_countOutcomes _

theorem describes_partNumbers (part : Backdoor × IndexRange) (rate : Double) :
    (p.partNumbers corpus part rate).Describes (p.partRelease corpus rate part)
      (p.partCounts corpus part) :=
  describes_releaseAt (nodup_eligibleIndices part) rate

/-- The accounts of a part. -/
theorem accounts_part (h : Configured grammars config p) (corpus : List String)
    (part : Backdoor × IndexRange) :
    p.Accounts (samplesOf corpus part) (p.partCounts corpus part)
      ((Rate.withBaseline p.rates).map fun rate => p.partRelease corpus rate part)
      ((Rate.withBaseline p.rates).map fun rate => p.partNumbers corpus part rate) :=
  (tallies_partCounts part).accounts h (rate_releaseAt _ _) (describes_partNumbers part)
    (fun _ ha _ hb hab => selected_partNumbers_le h part ha hb hab)
    fun _ ha _ hb hab => marked_partRelease_sublist h ha hb hab part

/-! ## Merging over the parts -/

theorem tallies_foldl (ps : List (Backdoor × IndexRange)) {samples : List Sample} {c : Counts}
    (h : p.Tallies samples c) :
    p.Tallies (samples ++ ps.flatMap (samplesOf corpus))
      (ps.foldl (fun c part => c.merge (p.partCounts corpus part)) c) := by
  induction ps generalizing samples c with
  | nil => rwa [List.flatMap_nil, List.append_nil]
  | cons part rest ih =>
    rw [List.flatMap_cons, ← List.append_assoc]
    exact ih (h.merge (tallies_partCounts part))

theorem describes_foldl (ps : List (Backdoor × IndexRange)) (rate : Double) {s : RateStats}
    {r : Release} {c : Counts} (h : s.Describes r c) :
    (ps.foldl (fun s part => s.add (p.partNumbers corpus part rate)) s).Describes
      (ps.foldl (fun r part => Assembly.appendRelease r (p.partRelease corpus rate part)) r)
      (ps.foldl (fun c part => c.merge (p.partCounts corpus part)) c) := by
  induction ps generalizing s r c with
  | nil => exact h
  | cons part rest ih => exact ih (h.merge (describes_partNumbers part rate))

theorem selected_numbersOf_le (h : Configured grammars config p) {a b : Double}
    (ha : a ∈ Rate.withBaseline p.rates) (hb : b ∈ Rate.withBaseline p.rates)
    (hab : a.lt b = true) :
    (p.numbersOf corpus a).selected ≤ (p.numbersOf corpus b).selected := by
  rw [numbersOf, numbersOf, RateStats.selected_foldl_add, RateStats.selected_foldl_add]
  exact Nat.add_le_add_left
    (List.sum_le_sum fun part _ => selected_partNumbers_le h part ha hb hab) 0

/-- The accounts of a run. -/
theorem accounts_run (h : Configured grammars config p) (corpus : List String) :
    p.Accounts (p.samples corpus) (p.countsOf corpus)
      ((Rate.withBaseline p.rates).map (p.releaseOf corpus))
      ((Rate.withBaseline p.rates).map (p.numbersOf corpus)) :=
  (tallies_foldl (p.parts corpus) Tallies.nil).accounts h (fun _ => rate_releaseOf _)
    (fun rate => describes_foldl _ rate (RateStats.describes_empty rate))
    (fun _ ha _ hb hab => selected_numbersOf_le h ha hb hab)
    fun _ ha _ hb hab => marked_sublist_of_lt h ha hb hab

/-! ## Statistics of a run -/

theorem stats_resultOf (part : Backdoor × IndexRange) :
    (p.resultOf corpus part).stats
      = PartStats.ofCounts part.1.part part.1.label (p.partCounts corpus part)
          ((Rate.withBaseline p.rates).map (p.partNumbers corpus part)) := by
  simp only [resultOf, assemblePart, List.map_map]
  rfl

theorem parts_ne_nil (h : p.backdoors ≠ []) : p.parts corpus ≠ [] := by
  rw [← List.length_pos_iff, parts, List.length_zip, length_splitContiguous, Nat.min_self]
  exact List.length_pos_iff.mpr h

/-- The statistics of a run are the sums over its parts. -/
theorem ofParts_stats (h : p.backdoors ≠ []) :
    CorpusStats.ofParts ((p.parts corpus).map fun part => (p.resultOf corpus part).stats)
      = ⟨p.countsOf corpus, (p.countsOf corpus).shares,
          (Rate.withBaseline p.rates).map (p.numbersOf corpus),
          (p.parts corpus).map fun part => (p.resultOf corpus part).stats⟩ := by
  have hparts : p.parts corpus ≠ [] := parts_ne_nil h
  have hrates := RateStats.foldl_addRateStats_nil (p.partNumbers corpus) (fun _ _ => rfl)
    (Rate.withBaseline p.rates) hparts
  simp only [CorpusStats.ofParts, List.foldl_map, stats_resultOf, PartStats.ofCounts, hrates]
  rfl

theorem length_samplesOf (h : p.backdoors ≠ []) {part : Backdoor × IndexRange}
    (hpart : part ∈ p.parts corpus) : (samplesOf corpus part).length = part.2.length := by
  have hstop := stop_le_of_mem_parts h hpart
  rw [samplesOf, List.length_map, List.length_zipIdx, share, List.length_take, List.length_drop,
    IndexRange.length]
  omega

/-- **The statistics agree with the data.** The samples of a run are those of
its corpus, each once, and what is reported of a sample is what the search finds
in it. The counters of the run count these samples, the numbers of each rate
describe the release at that rate, and the same holds in every part for the
samples of the part and what it gives to the releases. -/
theorem run_accounted (h : ofConfig grammars config = .ok p) (corpus : List String) :
    ∃ d, p.run corpus = .ok d ∧
      (p.samples corpus).map (fun s => (s.code, s.index)) = corpus.zipIdx ∧
      (∀ s ∈ p.samples corpus, ∀ arena, p.parser.parse s.code = .ok arena →
        ∃ found, Occurrence.findAll p.catalog ⟨s.index, arena⟩ s.backdoor.ids = .ok found ∧
          ∀ id, p.reported s id = (found.occurrences id).size) ∧
      d.stats.counts.total = corpus.length ∧
      p.Accounts (p.samples corpus) d.stats.counts d.releases d.stats.rates ∧
      List.Forall₂ (fun part stats =>
          stats.part = part.1.part ∧ stats.counts.total = part.2.length ∧
            p.Accounts (samplesOf corpus part) stats.counts
              (d.releases.map (·.within part.2)) stats.rates)
        (p.parts corpus) d.stats.parts := by
  have hc := configured_of_ofConfig h
  have hne := hc.backdoors_ne_nil
  have hrun := run_eq_ok hc corpus
  rw [ofParts_stats hne] at hrun
  have haccounts := accounts_run hc corpus
  have hsamples := map_samples hne corpus
  refine ⟨_, hrun, hsamples, fun s hs arena => exists_found hc hs, ?total, haccounts, ?parts⟩
  case total =>
    have hlen := congrArg List.length hsamples
    rw [List.length_map, List.length_zipIdx] at hlen
    exact haccounts.tallies.total.trans hlen
  case parts =>
    rw [List.forall₂_map_right_iff, List.forall₂_same]
    intro part hpart
    have hpartaccounts := accounts_part hc corpus part
    rw [stats_resultOf]
    refine ⟨rfl, hpartaccounts.tallies.total.trans (length_samplesOf hne hpart), ?_⟩
    -- what the part gives to each release is its own release
    have hwithin : ((Rate.withBaseline p.rates).map (p.releaseOf corpus)).map (·.within part.2)
        = (Rate.withBaseline p.rates).map fun rate => p.partRelease corpus rate part := by
      rw [List.map_map]
      exact List.map_congr_left fun rate _ => within_releaseOf hc hpart rate
    rw [hwithin]
    exact hpartaccounts

theorem run_accounted_calls :
    ∃ p, ofConfig (fun _ => callGrammar) callConfig = .ok p ∧
      ∃ d, p.run ["f()", "?", "f()", "x"] = .ok d ∧ d.stats.counts.total = 4 ∧
        p.Accounts (p.samples ["f()", "?", "f()", "x"]) d.stats.counts d.releases
          d.stats.rates := by
  obtain ⟨p, hp⟩ := ofConfig_calls
  obtain ⟨d, hrun, -, -, htotal, haccounts, -⟩ := run_accounted hp ["f()", "?", "f()", "x"]
  exact ⟨p, hp, d, hrun, htotal, haccounts⟩

end Pipeline

end CorpusMark
