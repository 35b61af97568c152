import CorpusMark.Proofs.Releases
import CorpusMark.Proofs.Selection

/-!
# Nested releases

Which samples of a part are marked at a rate, and how the marked samples of two
rates compare. A rewritten sample is marked exactly if its rank among the
eligible samples of its part is below the number of samples to select. Ranks do
not depend on the rate and that number grows with it, so what is marked at a
rate stays marked, with the same code, at every greater one.
-/

namespace CorpusMark

namespace Pipeline

/-! ## Marked samples of a part -/

/-- The corpus indices of the eligible samples. -/
def eligibleIndices (outcomes : List SampleOutcome) : List Nat :=
  (outcomes.filter SampleOutcome.isEligible).map SampleOutcome.index

/-- The blob of a rewritten sample. It is the same at every rate. -/
def rewrittenBlob (o : SampleOutcome) : Blob :=
  ⟨o.index, o.rewritten?.getD o.code⟩

/-- What a part emits marked are the blobs of its marked samples. -/
theorem filter_emissionsOf (s : Selection) (outcomes : List SampleOutcome) :
    ((emissionsOf s outcomes).filter Prod.fst).map Prod.snd
      = (outcomes.filter (marks s)).map rewrittenBlob := by
  -- what is marked is rewritten, so it has been parsed
  have hparsed : ∀ o ∈ outcomes, (marks s o && o.isParsed) = marks s o := by
    intro o _
    rw [Bool.and_eq_left_iff_imp]
    intro hmarks
    rw [marks, Bool.and_eq_true] at hmarks
    exact SampleOutcome.isParsed_of_isEligible
      (SampleOutcome.isEligible_of_rewritten? hmarks.1)
  rw [emissionsOf, List.filter_map, List.map_map, List.filter_filter]
  rw [show outcomes.filter (marks s) = _ from List.filter_congr fun o ho => (hparsed o ho).symm]
  refine List.map_congr_left fun o ho => ?_
  have hmarks : marks s o = true := by
    have := (List.mem_filter.mp ho).2
    rw [Bool.and_eq_true] at this
    exact this.1
  simp [blobOf, rewrittenBlob, hmarks]

variable {p : Pipeline} {corpus : List String} {rate : Double}

theorem marked_partRelease (rate : Double) (part : Backdoor × IndexRange) :
    (p.partRelease corpus rate part).marked.toList
      = ((p.partOutcomes corpus part).filter
          (marks (selectionOf p.order (p.partOutcomes corpus part) rate))).map rewrittenBlob := by
  rw [partRelease, marked_releaseAt, filter_emissionsOf]

/-- The marked blobs of a release, part by part. -/
theorem marked_releaseOf_eq_flatMap (rate : Double) :
    (p.releaseOf corpus rate).marked.toList
      = (p.parts corpus).flatMap fun part => (p.partRelease corpus rate part).marked.toList :=
  bucket_releaseOf rate Release.markedKey

theorem nodup_eligibleIndices (part : Backdoor × IndexRange) :
    (eligibleIndices (p.partOutcomes corpus part)).Nodup := by
  have hall : ((p.partOutcomes corpus part).map SampleOutcome.index).Nodup := by
    rw [partOutcomes, map_index_processAll]
    exact List.nodup_range'
  exact hall.sublist (List.filter_sublist.map _)

/-- **A sample of a part is marked exactly if it is rewritten and its rank is
below the number of samples to select.** -/
theorem marks_selectionOf_iff {part : Backdoor × IndexRange} {o : SampleOutcome}
    (ho : o ∈ p.partOutcomes corpus part) :
    marks (selectionOf p.order (p.partOutcomes corpus part) rate) o = true ↔
      o.rewritten?.isSome = true ∧
        p.order.rank (eligibleIndices (p.partOutcomes corpus part)) o.index
          < selectionSize rate (eligibleIndices (p.partOutcomes corpus part)).length := by
  rw [marks, Bool.and_eq_true]
  refine and_congr_right fun hsome => ?_
  have hmem : o.index ∈ eligibleIndices (p.partOutcomes corpus part) :=
    List.mem_map_of_mem
      (List.mem_filter.mpr ⟨ho, SampleOutcome.isEligible_of_rewritten? hsome⟩)
  exact (isSelected_select_iff (nodup_eligibleIndices part)).trans (and_iff_right hmem)

/-! ## Marked samples of a run -/

/-- Whether a blob is the rewritten form of a sample of a part that is due at
a rate: the sample is eligible, fewer than the number to select precede it in
the order, and its rewrite succeeded. -/
def Due (p : Pipeline) (corpus : List String) (order : SelectionOrder) (rate : Double)
    (part : Backdoor × IndexRange) (m : Blob) : Prop :=
  ∃ o ∈ p.partOutcomes corpus part, o.index = m.index ∧ o.isEligible = true ∧
    order.rank (eligibleIndices (p.partOutcomes corpus part)) o.index
      < selectionSize rate (eligibleIndices (p.partOutcomes corpus part)).length ∧
    o.rewritten? = some m.code

theorem mem_marked_iff_exists_due {m : Blob} :
    m ∈ (p.releaseOf corpus rate).marked ↔
      ∃ part ∈ p.parts corpus, p.Due corpus p.order rate part m := by
  rw [← Array.mem_toList_iff, marked_releaseOf_eq_flatMap, List.mem_flatMap]
  refine exists_congr fun part => and_congr_right fun _ => ?_
  rw [marked_partRelease, List.mem_map]
  constructor
  · rintro ⟨o, ho, rfl⟩
    obtain ⟨ho, hmarks⟩ := List.mem_filter.mp ho
    obtain ⟨hsome, hrank⟩ := (marks_selectionOf_iff ho).mp hmarks
    obtain ⟨code, hcode⟩ := Option.isSome_iff_exists.mp hsome
    exact ⟨o, ho, rfl, SampleOutcome.isEligible_of_rewritten? hsome, hrank,
      by rw [rewrittenBlob, hcode, Option.getD_some]⟩
  · rintro ⟨o, ho, hindex, -, hrank, hcode⟩
    refine ⟨o, List.mem_filter.mpr ⟨ho, (marks_selectionOf_iff ho).mpr ⟨?_, hrank⟩⟩, ?_⟩
    · rw [hcode, Option.isSome_some]
    · rw [rewrittenBlob, hcode, Option.getD_some, hindex]

/-- The index of a due blob lies in its part. -/
theorem Due.index_mem {order : SelectionOrder} {part : Backdoor × IndexRange} {m : Blob}
    (h : p.Due corpus order rate part m) : m.index ∈ part.2 := by
  obtain ⟨o, ho, hindex, -⟩ := h
  obtain ⟨i, code, hi, -, rfl⟩ := mem_partOutcomes.mp ho
  rwa [← hindex, index_processSample]

theorem mem_marked_iff_due (h : p.backdoors ≠ []) {part : Backdoor × IndexRange}
    (hpart : part ∈ p.parts corpus) {m : Blob} (hm : m.index ∈ part.2) :
    m ∈ (p.releaseOf corpus rate).marked ↔ p.Due corpus p.order rate part m := by
  rw [mem_marked_iff_exists_due]
  constructor
  · rintro ⟨part', hpart', hdue⟩
    rwa [part_unique h hpart hpart' hm hdue.index_mem]
  · exact fun hdue => ⟨part, hpart, hdue⟩

/-- At a rate that selects nothing nothing is marked. -/
theorem marked_releaseOf_zero : (p.releaseOf corpus Double.zero).marked = #[] := by
  refine Array.eq_empty_iff_forall_not_mem.mpr fun m hm => ?_
  obtain ⟨part, -, o, -, -, -, hrank, -⟩ := mem_marked_iff_exists_due.mp hm
  rw [selectionSize_zero] at hrank
  exact Nat.not_lt_zero _ hrank

/-- At rate 1 every rewritten sample is marked, as long as the number of
eligible samples of its part is an exact double. -/
theorem mem_marked_releaseOf_one {part : Backdoor × IndexRange} (hpart : part ∈ p.parts corpus)
    (hsize : (eligibleIndices (p.partOutcomes corpus part)).length ≤ 2 ^ 53)
    {o : SampleOutcome} (ho : o ∈ p.partOutcomes corpus part) {code : String}
    (hcode : o.rewritten? = some code) :
    ⟨o.index, code⟩ ∈ (p.releaseOf corpus Double.one).marked := by
  have helig : o.isEligible = true := by
    refine SampleOutcome.isEligible_of_rewritten? ?_
    rw [hcode, Option.isSome_some]
  have hrank := p.order.rank_lt_length (i := o.index)
    (List.mem_map_of_mem (List.mem_filter.mpr ⟨ho, helig⟩) :
      o.index ∈ eligibleIndices (p.partOutcomes corpus part))
  refine mem_marked_iff_exists_due.mpr ⟨part, hpart, o, ho, rfl, helig, ?_, hcode⟩
  rwa [selectionSize_one hsize]

/-- A sample that is not eligible is never marked. -/
theorem index_ne_of_not_isEligible (h : p.backdoors ≠ []) {part : Backdoor × IndexRange}
    (hpart : part ∈ p.parts corpus) {o : SampleOutcome} (ho : o ∈ p.partOutcomes corpus part)
    (helig : o.isEligible = false) {m : Blob} (hm : m ∈ (p.releaseOf corpus rate).marked) :
    m.index ≠ o.index := by
  intro hindex
  obtain ⟨i, code, hi, hcode, rfl⟩ := mem_partOutcomes.mp ho
  rw [index_processSample] at hindex
  obtain ⟨o', ho', hindex', helig', -⟩ :=
    (mem_marked_iff_due h hpart (by rwa [hindex])).mp hm
  -- the other outcome with this index is that of the same sample
  obtain ⟨j, code', -, hcode', rfl⟩ := mem_partOutcomes.mp ho'
  rw [index_processSample, hindex] at hindex'
  subst hindex'
  rw [hcode] at hcode'
  cases hcode'
  rw [helig] at helig'
  cases helig'

/-- A rate is finite and carries no sign. -/
theorem Configured.isFinite_of_mem_rates {grammars : Language → Grammar} {config : Config}
    (h : Configured grammars config p) (hrate : rate ∈ Rate.withBaseline p.rates) :
    rate.isFinite = true ∧ rate.isNegative = false := by
  rcases List.mem_cons.mp hrate with rfl | hrate
  · exact ⟨by decide, by decide⟩
  · have hvalid := (Rate.validate_eq_ok h.rates).2.1 rate hrate
    exact ⟨Rate.isFinite_of_isValid hvalid, Rate.isNegative_of_isValid hvalid⟩

/-- Of two rates of a run the greater one selects at least as many samples. -/
theorem Configured.selectionSize_le {grammars : Language → Grammar} {config : Config}
    (h : Configured grammars config p) {a b : Double} (ha : a ∈ Rate.withBaseline p.rates)
    (hb : b ∈ Rate.withBaseline p.rates) (hab : a.lt b = true) (n : Nat) :
    selectionSize a n ≤ selectionSize b n := by
  obtain ⟨hafin, haneg⟩ := h.isFinite_of_mem_rates ha
  obtain ⟨hbfin, hbneg⟩ := h.isFinite_of_mem_rates hb
  have hmag : a.magnitude ≤ b.magnitude := by
    have hkey := (Double.lt_iff.mp hab).2.2
    rw [Double.key_of_not_isNegative haneg, Double.key_of_not_isNegative hbneg] at hkey
    omega
  exact selectionSize_mono hafin hbfin haneg hbneg hmag n

/-- What a part marks at a rate it marks in the same order at a greater one. -/
theorem marked_partRelease_sublist {grammars : Language → Grammar} {config : Config}
    (h : Configured grammars config p) {a b : Double} (ha : a ∈ Rate.withBaseline p.rates)
    (hb : b ∈ Rate.withBaseline p.rates) (hab : a.lt b = true) (part : Backdoor × IndexRange) :
    (p.partRelease corpus a part).marked.toList.Sublist
      (p.partRelease corpus b part).marked.toList := by
  rw [marked_partRelease, marked_partRelease]
  refine List.Sublist.map _ (List.monotone_filter_right _ fun o hmarks => ?_)
  -- the rank of a sample stays and the number of samples to select grows
  rw [marks, Bool.and_eq_true] at *
  refine ⟨hmarks.1, (isSelected_select_iff (nodup_eligibleIndices part)).mpr ?_⟩
  obtain ⟨hmem, hrank⟩ := (isSelected_select_iff (nodup_eligibleIndices part)).mp hmarks.2
  exact ⟨hmem, Nat.lt_of_lt_of_le hrank (h.selectionSize_le ha hb hab _)⟩

/-- What is marked at a rate is marked in the same order at a greater one. -/
theorem marked_sublist_of_lt {grammars : Language → Grammar} {config : Config}
    (h : Configured grammars config p) {a b : Double} (ha : a ∈ Rate.withBaseline p.rates)
    (hb : b ∈ Rate.withBaseline p.rates) (hab : a.lt b = true) :
    (p.releaseOf corpus a).marked.toList.Sublist (p.releaseOf corpus b).marked.toList := by
  rw [marked_releaseOf_eq_flatMap, marked_releaseOf_eq_flatMap]
  exact List.Sublist.flatMap_right _ fun part _ => marked_partRelease_sublist h ha hb hab part

/-- **Releases are nested.** In each part the samples that a run marks at a
rate are those that are due at it. So nothing is marked at rate 0, every
rewritten sample at rate 1, no sample at any rate that is not eligible, and
what is marked at a rate is marked, in the same order and with the same code,
at every greater rate. -/
theorem run_nested {grammars : Language → Grammar} {config : Config}
    (h : ofConfig grammars config = .ok p) (corpus : List String) :
    ∃ d, p.run corpus = .ok d ∧
      (∀ r ∈ d.releases, ∀ part ∈ p.parts corpus, ∀ m : Blob, m.index ∈ part.2 →
        (m ∈ r.marked ↔ p.Due corpus config.selection.selectionOrder r.rate part m)) ∧
      (∀ r ∈ d.releases, r.rate = Double.zero → r.marked = #[]) ∧
      (∀ r ∈ d.releases, r.rate = Double.one → ∀ part ∈ p.parts corpus,
        (eligibleIndices (p.partOutcomes corpus part)).length ≤ 2 ^ 53 →
        ∀ o ∈ p.partOutcomes corpus part, ∀ code, o.rewritten? = some code →
          ⟨o.index, code⟩ ∈ r.marked) ∧
      (∀ r ∈ d.releases, ∀ part ∈ p.parts corpus, ∀ o ∈ p.partOutcomes corpus part,
        o.isEligible = false → ∀ m ∈ r.marked, m.index ≠ o.index) ∧
      ∀ r ∈ d.releases, ∀ r' ∈ d.releases, r.rate.lt r'.rate = true →
        r.marked.toList.Sublist r'.marked.toList := by
  have hc := configured_of_ofConfig h
  have hne := hc.backdoors_ne_nil
  have hreleases : ∀ r ∈ (Rate.withBaseline p.rates).map (p.releaseOf corpus),
      r.rate ∈ Rate.withBaseline p.rates ∧ r = p.releaseOf corpus r.rate := by
    intro r hr
    obtain ⟨rate, hrate, rfl⟩ := List.mem_map.mp hr
    rw [rate_releaseOf]
    exact ⟨hrate, rfl⟩
  refine ⟨_, run_eq_ok hc corpus, ?due, ?zero, ?one, ?ineligible, ?nested⟩
  case due =>
    intro r hr part hpart m hm
    rw [(hreleases r hr).2, rate_releaseOf, ← hc.order]
    exact mem_marked_iff_due hne hpart hm
  case zero =>
    intro r hr hzero
    rw [(hreleases r hr).2, hzero]
    exact marked_releaseOf_zero
  case one =>
    intro r hr hone part hpart hsize o ho code hcode
    rw [(hreleases r hr).2, hone]
    exact mem_marked_releaseOf_one hpart hsize ho hcode
  case ineligible =>
    intro r hr part hpart o ho helig m hm
    rw [(hreleases r hr).2] at hm
    exact index_ne_of_not_isEligible hne hpart ho helig hm
  case nested =>
    intro r hr r' hr' hlt
    rw [(hreleases r hr).2, (hreleases r' hr').2]
    exact marked_sublist_of_lt hc (hreleases r hr).1 (hreleases r' hr').1 hlt

theorem run_nested_calls :
    ∃ p, ofConfig (fun _ => callGrammar) callConfig = .ok p ∧
      ∃ d, p.run ["f()", "?", "f()", "x"] = .ok d ∧
        (∀ r ∈ d.releases, ∀ part ∈ p.parts ["f()", "?", "f()", "x"], ∀ m : Blob,
          m.index ∈ part.2 → (m ∈ r.marked ↔ p.Due ["f()", "?", "f()", "x"]
            callConfig.selection.selectionOrder r.rate part m)) ∧
        ∀ r ∈ d.releases, ∀ r' ∈ d.releases, r.rate.lt r'.rate = true →
          r.marked.toList.Sublist r'.marked.toList := by
  obtain ⟨p, hp⟩ := ofConfig_calls
  obtain ⟨d, hrun, hdue, -, -, -, hnested⟩ := run_nested hp ["f()", "?", "f()", "x"]
  exact ⟨p, hp, d, hrun, hdue, hnested⟩

end Pipeline

end CorpusMark
