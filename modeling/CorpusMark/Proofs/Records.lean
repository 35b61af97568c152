import CorpusMark.Proofs.Nesting
import CorpusMark.Proofs.Separation

/-!
# Records mirror the highest rate

The records of a run are those of the release at the highest rate, with what a
classifier has to find out about each of them. A record says that its sample is
marked if a binary search finds the index in the marked bucket. The indices of
that bucket ascend, so the search answers what was decided when the sample was
emitted: the records of a part are its emissions (`testRecords_releaseAt`), and
so are those of a run, part after part (`test_run`). The highest rate is the
last one, since accepted rates ascend.
-/

namespace CorpusMark

/-- The sample of a record. -/
def TestRecord.blob (r : TestRecord) : Blob :=
  ⟨r.index, r.code⟩

/-- The records of a dataset are those of a release: one for each blob, in the
same order and marked if the release has it among the marked ones, and apart
from them the codes of the marked ones. -/
structure Dataset.Mirrors (d : Dataset) (r : Release) : Prop where
  test_blob : d.test.map TestRecord.blob = r.all.toList
  isMarked_iff : ∀ t ∈ d.test, t.isMarked = true ↔ ∃ m ∈ r.marked, m.index = t.index
  actual_code : d.actual.map ActualRecord.code = r.marked.toList.map Blob.code

namespace Pipeline

/-! ## Records of a part -/

/-- The record of an emission. -/
def recordOf (b : Backdoor) (e : Bool × Blob) : TestRecord :=
  ⟨e.2.index, b.part, e.2.code, e.1, b.label⟩

section ReleaseAt

variable {order : SelectionOrder} {outcomes : List SampleOutcome} {rate : Double}

/-- Emitted indices are indices of the outcomes, in their order. -/
theorem pairwise_index_emissionsOf
    (h : (outcomes.map SampleOutcome.index).Pairwise (· < ·)) (s : Selection) :
    ((emissionsOf s outcomes).map fun e => e.2.index).Pairwise (· < ·) := by
  rw [emissionsOf, List.map_map]
  exact h.sublist (List.filter_sublist.map SampleOutcome.index)

/-- **The search in the marked bucket finds what was emitted marked.** -/
theorem searchSorted_releaseAt (h : (outcomes.map SampleOutcome.index).Pairwise (· < ·))
    {e : Bool × Blob} (he : e ∈ emissionsOf (selectionOf order outcomes rate) outcomes) :
    searchSorted ((releaseAt order outcomes rate).1.marked.map Blob.index) e.2.index 0
      ((releaseAt order outcomes rate).1.marked.map Blob.index).size = e.1 := by
  have hindex := pairwise_index_emissionsOf h (selectionOf order outcomes rate)
  have hmarked : ((releaseAt order outcomes rate).1.marked.map Blob.index).toList
      = ((emissionsOf (selectionOf order outcomes rate) outcomes).filter Prod.fst).map
          fun e => e.2.index := by
    rw [Array.toList_map, marked_releaseAt, List.map_map]
    rfl
  have hsorted : ((releaseAt order outcomes rate).1.marked.map
      Blob.index).toList.Pairwise (· ≤ ·) := by
    rw [hmarked]
    exact (hindex.sublist (List.filter_sublist.map _)).imp Nat.le_of_lt
  rw [Bool.eq_iff_iff, searchSorted_size_iff hsorted, ← Array.mem_toList_iff, hmarked,
    List.mem_map]
  constructor
  · -- an index is emitted once, so what is found is the emission itself
    rintro ⟨e', he', heq⟩
    obtain ⟨hmem, hfst⟩ := List.mem_filter.mp he'
    rwa [List.inj_on_of_nodup_map (hindex.imp Nat.ne_of_lt) hmem he heq] at hfst
  · intro hfst
    exact ⟨e, List.mem_filter.mpr ⟨he, hfst⟩, rfl⟩

/-- The records of a part are its emissions. -/
theorem testRecords_releaseAt (h : (outcomes.map SampleOutcome.index).Pairwise (· < ·))
    (b : Backdoor) :
    testRecords b (releaseAt order outcomes rate).1
      = (emissionsOf (selectionOf order outcomes rate) outcomes).map (recordOf b) := by
  rw [testRecords, all_releaseAt, List.map_map]
  refine List.map_congr_left fun e he => ?_
  rw [Function.comp_apply, searchSorted_releaseAt h he]
  rfl

end ReleaseAt

/-! ## Records of a run -/

variable {p : Pipeline} {corpus : List String} {top : Double}

theorem test_resultOf (htop : (Rate.withBaseline p.rates).getLast? = some top)
    (part : Backdoor × IndexRange) :
    (p.resultOf corpus part).test
      = (emissionsOf (selectionOf p.order (p.partOutcomes corpus part) top)
          (p.partOutcomes corpus part)).map (recordOf part.1) := by
  have hindex : ((p.partOutcomes corpus part).map SampleOutcome.index).Pairwise (· < ·) := by
    rw [partOutcomes, map_index_processAll]
    exact List.pairwise_lt_range'
  simp only [resultOf, assemblePart, List.map_map, List.getLast?_map, htop, Option.map_some]
  exact testRecords_releaseAt hindex part.1

/-- Every record is that of an emission of some part, at the highest rate. -/
theorem mem_test_run (htop : (Rate.withBaseline p.rates).getLast? = some top) {t : TestRecord}
    (ht : t ∈ (p.parts corpus).flatMap fun part => (p.resultOf corpus part).test) :
    ∃ part ∈ p.parts corpus, ∃ e ∈ p.emissions corpus top, e.2.index ∈ part.2 ∧
      t = recordOf part.1 e := by
  obtain ⟨part, hpart, ht⟩ := List.mem_flatMap.mp ht
  rw [test_resultOf htop] at ht
  obtain ⟨e, he, rfl⟩ := List.mem_map.mp ht
  refine ⟨part, hpart, e, List.mem_flatMap.mpr ⟨part, hpart, he⟩, ?_, rfl⟩
  obtain ⟨o, ho, rfl⟩ := List.mem_map.mp he
  obtain ⟨i, code, hi, -, rfl⟩ := mem_partOutcomes.mp (List.mem_filter.mp ho).1
  show (p.processSample part.1 i code).index ∈ part.2
  rwa [index_processSample]

theorem map_blob_test_run (htop : (Rate.withBaseline p.rates).getLast? = some top) :
    ((p.parts corpus).flatMap fun part => (p.resultOf corpus part).test).map TestRecord.blob
      = (p.releaseOf corpus top).all.toList := by
  rw [all_releaseOf, emissions, List.map_flatMap, List.map_flatMap]
  refine List.flatMap_congr fun part _ => ?_
  rw [test_resultOf htop, List.map_map]
  rfl

theorem map_code_actual_run (htop : (Rate.withBaseline p.rates).getLast? = some top) :
    ((p.parts corpus).flatMap fun part => (p.resultOf corpus part).actual).map ActualRecord.code
      = (p.releaseOf corpus top).marked.toList.map Blob.code := by
  rw [actual_run, marked_releaseOf, emissions, List.filter_flatMap, List.filter_flatMap,
    List.map_flatMap, List.map_flatMap, List.map_flatMap, List.map_flatMap]
  refine List.flatMap_congr fun part _ => ?_
  rw [test_resultOf htop, List.filter_map, List.map_map, List.map_map, List.map_map]
  rfl

/-- **The records of a run mirror its release at the highest rate.** -/
theorem mirrors_run (h : p.backdoors ≠ [])
    (htop : (Rate.withBaseline p.rates).getLast? = some top) {d : Dataset}
    (htest : d.test = (p.parts corpus).flatMap fun part => (p.resultOf corpus part).test)
    (hactual : d.actual = (p.parts corpus).flatMap fun part => (p.resultOf corpus part).actual) :
    d.Mirrors (p.releaseOf corpus top) where
  test_blob := by rw [htest, map_blob_test_run htop]
  actual_code := by rw [hactual, map_code_actual_run htop]
  isMarked_iff := by
    intro t ht
    rw [htest] at ht
    obtain ⟨part, -, e, he, -, rfl⟩ := mem_test_run htop ht
    -- the flag is that of the emission, and no index is emitted twice in a run
    constructor
    · intro hmarked
      obtain ⟨marked, blob⟩ := e
      obtain rfl : marked = true := hmarked
      exact ⟨blob, mem_marked_releaseOf.mpr he, rfl⟩
    · rintro ⟨m, hm, hindex⟩
      rw [← emission_unique h (mem_marked_releaseOf.mp hm) he hindex]
      rfl

/-! ## The whole dataset -/

variable {grammars : Language → Grammar} {config : Config}

/-- The number of a part is its place. -/
theorem number_eq_of_getElem? (h : Configured grammars config p) {k : Nat}
    {part : Backdoor × IndexRange} (hpart : (p.parts corpus)[k]? = some part) :
    part.1.part = k := by
  have hbackdoor : p.backdoors[k]? = some part.1 := (List.getElem?_zip_eq_some.mp hpart).1
  have hnumber : (p.backdoors.map Backdoor.part)[k]? = some part.1.part := by
    rw [List.getElem?_map, hbackdoor, Option.map_some]
  rw [Backdoor.map_part_of_parseAll h.backdoors, List.getElem?_eq_some_iff] at hnumber
  obtain ⟨hk, hnumber⟩ := hnumber
  rw [← hnumber, List.getElem_range]

/-- **The records of a run mirror its release at the highest configured rate**,
and each names the part in whose range its sample lies, and the backdoor of
that part. -/
theorem run_recorded (h : ofConfig grammars config = .ok p) (corpus : List String) :
    ∃ d top, p.run corpus = .ok d ∧ d.releases.getLast? = some top ∧
      top.rate ∈ config.effectiveRates ∧
      (∀ rate ∈ config.effectiveRates, rate.le top.rate = true) ∧
      d.Mirrors top ∧
      ∀ t ∈ d.test, (∃ part ∈ p.parts corpus, t.index ∈ part.2) ∧
        ∀ k part, (p.parts corpus)[k]? = some part → t.index ∈ part.2 →
          t.part = k ∧ t.backdoor = part.1.label := by
  have hc := configured_of_ofConfig h
  obtain ⟨top, htop, hmem, hmax⟩ := Rate.exists_highest hc.rates
  refine ⟨_, p.releaseOf corpus top, run_eq_ok hc corpus, ?_, ?_, ?_,
    mirrors_run hc.backdoors_ne_nil htop rfl rfl, fun t ht => ?_⟩
  · rw [List.getLast?_map, htop, Option.map_some]
  · rwa [rate_releaseOf]
  · rwa [rate_releaseOf]
  · obtain ⟨part, hpart, e, -, hrange, rfl⟩ := mem_test_run htop ht
    refine ⟨⟨part, hpart, hrange⟩, fun k part' hpart' hrange' => ?_⟩
    obtain rfl := part_unique hc.backdoors_ne_nil hpart (List.mem_of_getElem? hpart') hrange hrange'
    exact ⟨number_eq_of_getElem? hc hpart', rfl⟩

theorem run_recorded_calls :
    ∃ p, ofConfig (fun _ => callGrammar) callConfig = .ok p ∧
      ∃ d top, p.run ["f()", "?", "f()", "x"] = .ok d ∧ d.releases.getLast? = some top ∧
        top.rate ∈ callConfig.effectiveRates ∧
        (∀ rate ∈ callConfig.effectiveRates, rate.le top.rate = true) ∧
        d.Mirrors top ∧
        ∀ t ∈ d.test, (∃ part ∈ p.parts ["f()", "?", "f()", "x"], t.index ∈ part.2) ∧
          ∀ k part, (p.parts ["f()", "?", "f()", "x"])[k]? = some part → t.index ∈ part.2 →
            t.part = k ∧ t.backdoor = part.1.label := by
  obtain ⟨p, hp⟩ := ofConfig_calls
  exact ⟨p, hp, run_recorded hp _⟩

end Pipeline

end CorpusMark
