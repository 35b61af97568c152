import CorpusMark.Proofs.Releases
import CorpusMark.Proofs.Separation
import Mathlib.Tactic.IntervalCases

/-!
# Parts do not contaminate each other

What a part gives to a dataset depends on the samples in its range only
(`resultOf_congr`). Two runs over corpora of the same length that agree on the
range of a part therefore agree on everything in the two datasets that belongs
to the part, whatever the samples of the other parts are (`run_isolated`).
-/

namespace CorpusMark

namespace Dataset

/-- The marked codes of a part: those that stand at the places of its records
among the marked test records. -/
def actualOf (d : Dataset) (number : Nat) : List ActualRecord :=
  (((d.test.filter TestRecord.isMarked).zip d.actual).filter (·.1.part = number)).map Prod.snd

/-- If every marked code stands beside the record that it is the code of, the
codes of a part are those of its marked records. -/
theorem actualOf_eq {d : Dataset} {code : TestRecord → ActualRecord}
    (h : d.actual = (d.test.filter TestRecord.isMarked).map code) (number : Nat) :
    d.actualOf number
      = (((d.test.filter (·.part = number)).filter TestRecord.isMarked)).map code := by
  have hzip : (d.test.filter TestRecord.isMarked).zip d.actual
      = (d.test.filter TestRecord.isMarked).map fun r => (r, code r) := by
    rw [h]
    simpa using List.zip_map' (f := id) (g := code) (l := d.test.filter TestRecord.isMarked)
  rw [actualOf, hzip, List.filter_map, List.map_map, List.filter_filter, List.filter_filter]
  simp only [Function.comp_def, Bool.and_comm]

end Dataset

namespace Pipeline

variable {p : Pipeline} {corpus corpus' : List String} {part : Backdoor × IndexRange}

/-! ## One part in two corpora -/

theorem parts_congr (hlen : corpus.length = corpus'.length) :
    p.parts corpus = p.parts corpus' := by
  rw [parts, parts, hlen]

theorem share_congr {range : IndexRange}
    (h : ∀ i ∈ range, corpus[i]? = corpus'[i]?) : share corpus range = share corpus' range := by
  refine List.ext_getElem? fun k => ?_
  rw [share, share, List.getElem?_take, List.getElem?_take]
  by_cases hk : k < range.length
  · have hmem : range.start + k ∈ range := by
      rw [IndexRange.length] at hk
      exact ⟨Nat.le_add_right _ _, by omega⟩
    rw [if_pos hk, if_pos hk, List.getElem?_drop, List.getElem?_drop, h _ hmem]
  · rw [if_neg hk, if_neg hk]

theorem partOutcomes_congr (h : ∀ i ∈ part.2, corpus[i]? = corpus'[i]?) :
    p.partOutcomes corpus part = p.partOutcomes corpus' part := by
  rw [partOutcomes, partOutcomes, share_congr h]

/-- What a part gives depends on the samples in its range only. -/
theorem resultOf_congr (h : ∀ i ∈ part.2, corpus[i]? = corpus'[i]?) :
    p.resultOf corpus part = p.resultOf corpus' part := by
  rw [resultOf, resultOf, partOutcomes_congr h]

/-! ## Two runs -/

variable {grammars : Language → Grammar} {config : Config}

/-- What of a dataset belongs to a part: in each release the blobs in its range,
and its test records, marked codes and statistics. -/
structure Owns (p : Pipeline) (corpus : List String) (part : Backdoor × IndexRange)
    (d : Dataset) : Prop where
  releases : d.releases.map (·.within part.2) = (p.resultOf corpus part).releases
  test : d.test.filter (·.part = part.1.part) = (p.resultOf corpus part).test
  actual : d.actualOf part.1.part = (p.resultOf corpus part).actual
  stats : d.stats.parts.filter (·.part = part.1.part) = [(p.resultOf corpus part).stats]

/-- A run merges what the parts give, and each part can be read off again. -/
theorem exists_run_owns (h : Configured grammars config p) (corpus : List String) :
    ∃ d, p.run corpus = .ok d ∧ ∀ part ∈ p.parts corpus, p.Owns corpus part d := by
  refine ⟨_, run_eq_ok h corpus, fun part hpart => ?_⟩
  have htest := filter_test_run h hpart
  refine ⟨?releases, htest, ?actual, filter_stats_run h hpart⟩
  case releases =>
    rw [releases_resultOf, List.map_map]
    exact List.map_congr_left fun rate _ => within_releaseOf h hpart rate
  case actual => rw [Dataset.actualOf_eq (actual_run (p.parts corpus)), htest]; rfl

/-- **Parts do not contaminate each other.** Two runs over corpora of the same
length that agree on the range of a part agree on all that belongs to the part:
on its blobs in every bucket of every release, on its test records, on its
marked codes and on its statistics. -/
theorem run_isolated (h : ofConfig grammars config = .ok p)
    (hlen : corpus.length = corpus'.length) (hpart : part ∈ p.parts corpus)
    (hagree : ∀ i ∈ part.2, corpus[i]? = corpus'[i]?) :
    ∃ d d', p.run corpus = .ok d ∧ p.run corpus' = .ok d' ∧ part ∈ p.parts corpus' ∧
      d.releases.map (·.within part.2) = d'.releases.map (·.within part.2) ∧
      d.test.filter (·.part = part.1.part) = d'.test.filter (·.part = part.1.part) ∧
      d.actualOf part.1.part = d'.actualOf part.1.part ∧
      d.actualOf part.1.part = (p.resultOf corpus part).actual ∧
      ∃ stats, d.stats.parts.filter (·.part = part.1.part) = [stats] ∧
        d'.stats.parts.filter (·.part = part.1.part) = [stats] := by
  have hc := configured_of_ofConfig h
  have hpart' : part ∈ p.parts corpus' := parts_congr hlen ▸ hpart
  obtain ⟨d, hrun, hd⟩ := exists_run_owns hc corpus
  obtain ⟨d', hrun', hd'⟩ := exists_run_owns hc corpus'
  have howns := hd part hpart
  have howns' := hd' part hpart'
  -- both datasets hold the same result of the part
  refine ⟨d, d', hrun, hrun', hpart', ?_, ?_, ?_, howns.actual,
    (p.resultOf corpus part).stats, ?_, ?_⟩
  · rw [howns.releases, howns'.releases, resultOf_congr hagree]
  · rw [howns.test, howns'.test, resultOf_congr hagree]
  · rw [howns.actual, howns'.actual, resultOf_congr hagree]
  · exact howns.stats
  · rw [resultOf_congr hagree]
    exact howns'.stats

/-- The corpora differ in the part of the first two samples. -/
theorem run_isolated_calls :
    ∃ p, ofConfig (fun _ => callGrammar) callConfig = .ok p ∧
      ∃ part ∈ p.parts ["f()", "?", "f()", "x"], part.2 = ⟨2, 4⟩ ∧
        (∀ i ∈ part.2, ["f()", "?", "f()", "x"][i]? = ["x", "f()", "f()", "x"][i]?) ∧
        ∃ d d', p.run ["f()", "?", "f()", "x"] = .ok d ∧ p.run ["x", "f()", "f()", "x"] = .ok d' ∧
          d.releases.map (·.within ⟨2, 4⟩) = d'.releases.map (·.within ⟨2, 4⟩) ∧
          d.actualOf part.1.part = d'.actualOf part.1.part := by
  obtain ⟨p, hp⟩ := ofConfig_calls
  have hbackdoors : p.backdoors.length = 2 :=
    Backdoor.length_of_parseAll (configured_of_ofConfig hp).backdoors
  have hpart : (p.backdoors[1], (⟨2, 4⟩ : IndexRange)) ∈ p.parts ["f()", "?", "f()", "x"] := by
    rw [List.mem_iff_getElem]
    exact ⟨1, by simp [parts, hbackdoors], by simp [parts, hbackdoors, splitContiguous]⟩
  have hagree : ∀ i ∈ (⟨2, 4⟩ : IndexRange),
      ["f()", "?", "f()", "x"][i]? = ["x", "f()", "f()", "x"][i]? := by
    rintro i ⟨hlow, hhigh⟩
    interval_cases i <;> rfl
  have hlen : ["f()", "?", "f()", "x"].length = ["x", "f()", "f()", "x"].length := rfl
  obtain ⟨d, d', hrun, hrun', -, hreleases, -, hactual, -⟩ :=
    run_isolated hp hlen hpart hagree
  exact ⟨p, hp, _, hpart, rfl, hagree, d, d', hrun, hrun', hreleases, hactual⟩

end Pipeline

end CorpusMark
