import CorpusMark.Pipeline
import CorpusMark.Proofs.Maps
import CorpusMark.Proofs.Partition
import Mathlib.Data.List.Basic
import Mathlib.Data.List.Nodup
import Mathlib.Data.List.Flatten

/-!
# What becomes of each sample

The samples of a corpus are processed part by part. `Pipeline.parts` pairs the
backdoors with the ranges of their parts and `Pipeline.partOutcomes` lists what
becomes of the samples of a part. Main statements:

- `mem_partOutcomes`: the outcomes of a part are those of the samples in its
  range, each under the backdoor of the part and its own corpus index;
- `map_index_outcomes`: over all parts, every corpus index comes exactly once
  and in order;
- `rewritten?_processSample_eq_some_iff`: a sample is rewritten exactly if it
  parses, has an occurrence for each term and its backdoor can be applied.
-/

namespace CorpusMark

/-! ## One sample -/

theorem SampleOutcome.isParsed_of_isEligible {o : SampleOutcome} (h : o.isEligible = true) :
    o.isParsed = true := by
  unfold isEligible at h
  unfold isParsed
  split at h
  · rename_i heq
    rw [heq]
  · cases h

theorem SampleOutcome.isEligible_of_rewritten? {o : SampleOutcome}
    (h : o.rewritten?.isSome = true) : o.isEligible = true := by
  unfold rewritten? at h
  unfold isEligible
  split at h
  · rename_i heq
    rw [heq]
  · cases h

theorem SampleOutcome.isEligible_iff {o : SampleOutcome} :
    o.isEligible = true ↔ ∃ result, o.state = .eligible result := by
  unfold isEligible
  cases o.state <;> simp

theorem SampleOutcome.rewritten?_eq_some_iff {o : SampleOutcome} {code : String} :
    o.rewritten? = some code ↔ o.state = .eligible (.ok code) := by
  unfold rewritten?
  cases o.state with
  | eligible result => cases result <;> simp
  | _ => simp

/-- The map without entries has occurrences for no id. -/
theorem MatchSet.covers_empty_iff {ids : List String} :
    MatchSet.covers (SortedMap.empty : MatchSet) ids = true ↔ ids = [] := by
  cases ids with
  | nil => simp [covers]
  | cons id rest => simp [covers, occurrences]

namespace Pipeline

variable {p : Pipeline} {b : Backdoor} {i : Nat} {code : String}

@[simp] theorem index_processSample : (p.processSample b i code).index = i := by
  unfold processSample
  split <;> rfl

@[simp] theorem code_processSample : (p.processSample b i code).code = code := by
  unfold processSample
  split <;> rfl

/-- A sample counts as parsed exactly if it parses. -/
theorem isParsed_processSample_iff :
    (p.processSample b i code).isParsed = true ↔
      ∃ arena, p.parser.parse code = .ok arena := by
  unfold processSample SampleOutcome.isParsed
  cases p.parser.parse code with
  | error e => simp
  | ok arena =>
    dsimp only
    split
    · rename_i heq
      split_ifs at heq
    · simp

/-- A sample is eligible, with a certain result, exactly if it parses, has an
occurrence for each term of the backdoor, and applying the backdoor to it gives
that result. -/
theorem state_processSample_eq_eligible_iff {result : Except TransformError String} :
    (p.processSample b i code).state = .eligible result ↔
      ∃ arena found, p.parser.parse code = .ok arena ∧
        Occurrence.findAll p.catalog ⟨i, arena⟩ b.ids = .ok found ∧
        found.covers b.ids = true ∧ p.rewriter.applyBackdoor arena found b = result := by
  unfold processSample
  cases hparse : p.parser.parse code with
  | error e => simp
  | ok arena =>
    cases hfind : Occurrence.findAll p.catalog ⟨i, arena⟩ b.ids with
    | error e =>
      -- a failed search covers nothing, and a search for nothing does not fail
      have hcovers : MatchSet.covers (SortedMap.empty : MatchSet) b.ids = false := by
        rw [Bool.eq_false_iff]
        intro h
        rw [MatchSet.covers_empty_iff.mp h] at hfind
        cases hfind
      simp [hcovers, hfind]
    | ok found => cases hcovers : found.covers b.ids <;> simp [hfind, hcovers]

/-- Whether a sample is eligible is settled before it is rewritten. -/
theorem isEligible_processSample_iff :
    (p.processSample b i code).isEligible = true ↔
      ∃ arena found, p.parser.parse code = .ok arena ∧
        Occurrence.findAll p.catalog ⟨i, arena⟩ b.ids = .ok found ∧
        found.covers b.ids = true := by
  simp only [SampleOutcome.isEligible_iff, state_processSample_eq_eligible_iff]
  constructor
  · rintro ⟨result, arena, found, hparse, hfind, hcovers, -⟩
    exact ⟨arena, found, hparse, hfind, hcovers⟩
  · rintro ⟨arena, found, hparse, hfind, hcovers⟩
    exact ⟨_, arena, found, hparse, hfind, hcovers, rfl⟩

/-- A sample is rewritten exactly if it parses, has an occurrence for each term
of the backdoor, and the backdoor can be applied to it. -/
theorem rewritten?_processSample_eq_some_iff {out : String} :
    (p.processSample b i code).rewritten? = some out ↔
      ∃ arena found, p.parser.parse code = .ok arena ∧
        Occurrence.findAll p.catalog ⟨i, arena⟩ b.ids = .ok found ∧
        found.covers b.ids = true ∧
        p.rewriter.applyBackdoor arena found b = .ok out := by
  rw [SampleOutcome.rewritten?_eq_some_iff, state_processSample_eq_eligible_iff]

/-! ## Consecutive samples -/

theorem processAll_eq_map (start : Nat) (codes : List String) :
    p.processAll b start codes
      = (codes.zipIdx start).map fun s => p.processSample b s.2 s.1 := by
  induction codes generalizing start with
  | nil => rfl
  | cons code rest ih => rw [processAll, ih, List.zipIdx_cons, List.map_cons]

theorem map_index_processAll (start : Nat) (codes : List String) :
    (p.processAll b start codes).map SampleOutcome.index
      = List.range' start codes.length := by
  rw [processAll_eq_map, List.map_map]
  have hindex : (SampleOutcome.index ∘ fun s : String × Nat => p.processSample b s.2 s.1)
      = Prod.snd := by
    funext s
    exact index_processSample
  rw [hindex, List.zipIdx_map_snd]

/-! ## Parts -/

/-- The codes of the samples of a range. -/
def share (corpus : List String) (r : IndexRange) : List String :=
  (corpus.drop r.start).take r.length

/-- The backdoors of a run, each with the range of its part. -/
def parts (p : Pipeline) (corpus : List String) : List (Backdoor × IndexRange) :=
  p.backdoors.zip (splitContiguous corpus.length p.backdoors.length)

/-- What becomes of the samples of a part. -/
def partOutcomes (p : Pipeline) (corpus : List String) (part : Backdoor × IndexRange) :
    List SampleOutcome :=
  p.processAll part.1 part.2.start (share corpus part.2)

variable {corpus : List String}

/-- The outcomes of a part are those of the samples in its range. -/
theorem mem_partOutcomes {part : Backdoor × IndexRange} {o : SampleOutcome} :
    o ∈ p.partOutcomes corpus part ↔
      ∃ i code, i ∈ part.2 ∧ corpus[i]? = some code ∧ o = p.processSample part.1 i code := by
  rw [partOutcomes, processAll_eq_map, List.mem_map]
  constructor
  · rintro ⟨⟨code, i⟩, hmem, rfl⟩
    obtain ⟨hle, hget⟩ := List.mk_mem_zipIdx_iff_le_and_getElem?_sub.mp hmem
    rw [share, List.getElem?_take] at hget
    split_ifs at hget with hlt
    rw [List.getElem?_drop, Nat.add_sub_cancel' hle] at hget
    rw [IndexRange.length] at hlt
    exact ⟨i, code, ⟨hle, by omega⟩, hget, rfl⟩
  · rintro ⟨i, code, ⟨hle, hlt⟩, hget, rfl⟩
    refine ⟨⟨code, i⟩, List.mk_mem_zipIdx_iff_le_and_getElem?_sub.mpr ⟨hle, ?_⟩, rfl⟩
    rw [share, List.getElem?_take, if_pos (by rw [IndexRange.length]; omega),
      List.getElem?_drop, Nat.add_sub_cancel' hle]
    exact hget

/-- The ranges of the parts tile the corpus. -/
theorem tiles_parts (h : p.backdoors ≠ []) :
    Tiles 0 ((p.parts corpus).map Prod.snd) corpus.length := by
  have hsnd : (p.parts corpus).map Prod.snd
      = splitContiguous corpus.length p.backdoors.length := by
    rw [parts]
    exact List.map_snd_zip (by simp)
  rw [hsnd]
  exact tiles_splitContiguous (List.length_pos_iff.mpr h)

/-- The range of a part lies in the corpus. -/
theorem stop_le_of_mem_parts (h : p.backdoors ≠ []) {part : Backdoor × IndexRange}
    (hpart : part ∈ p.parts corpus) : part.2.stop ≤ corpus.length :=
  ((tiles_parts h).bounds (List.mem_map_of_mem (f := Prod.snd) hpart)).2.2

/-- An index is in the range of one part only. -/
theorem part_unique (h : p.backdoors ≠ []) {q r : Backdoor × IndexRange}
    (hq : q ∈ p.parts corpus) (hr : r ∈ p.parts corpus) (hiq : i ∈ q.2) (hir : i ∈ r.2) :
    q = r := by
  have hsymm : Std.Symm fun a b : Backdoor × IndexRange => ∀ i, i ∈ a.2 → i ∈ b.2 → a = b :=
    ⟨fun a b hab i hb ha => (hab i ha hb).symm⟩
  have hpair : (p.parts corpus).Pairwise fun a b => ∀ i, i ∈ a.2 → i ∈ b.2 → a = b := by
    refine (List.pairwise_map.mp (tiles_parts h).pairwise).imp ?_
    intro a b hle i ha hb
    rw [IndexRange.mem_iff] at ha hb
    omega
  exact hpair.forall_of_forall (fun a _ i _ _ => rfl) hq hr i hiq hir

/-- Ranges that tile a stretch of the corpus hold its indices once and in order. -/
theorem map_index_flatMap_partOutcomes {ps : List (Backdoor × IndexRange)} {start stop : Nat}
    (h : Tiles start (ps.map Prod.snd) stop) (hstop : stop ≤ corpus.length) :
    (ps.flatMap (p.partOutcomes corpus)).map SampleOutcome.index
      = List.range' start (stop - start) := by
  induction ps generalizing start with
  | nil =>
    have hstart : start = stop := h
    subst hstart
    simp
  | cons part rest ih =>
    obtain ⟨rfl, hle, hrest⟩ := h
    have hlen : (share corpus part.2).length = part.2.stop - part.2.start := by
      have := hrest.le
      rw [share, List.length_take, List.length_drop, IndexRange.length]
      omega
    rw [List.flatMap_cons, List.map_append, ih hrest, partOutcomes, map_index_processAll, hlen]
    have hsplit : stop - part.2.start = (part.2.stop - part.2.start) + (stop - part.2.stop) := by
      have := hrest.le
      omega
    rw [hsplit, ← List.range'_append_1, Nat.add_sub_cancel' hle]

/-- **Every sample is processed exactly once**, in corpus order. -/
theorem map_index_outcomes (h : p.backdoors ≠ []) :
    ((p.parts corpus).flatMap (p.partOutcomes corpus)).map SampleOutcome.index
      = List.range corpus.length := by
  rw [map_index_flatMap_partOutcomes (tiles_parts h) (Nat.le_refl _), List.range_eq_range',
    Nat.sub_zero]

/-- Each index of the corpus is in the range of some part. -/
theorem exists_part_of_lt (h : p.backdoors ≠ []) (hi : i < corpus.length) :
    ∃ part ∈ p.parts corpus, i ∈ part.2 := by
  have hmem : i ∈ ((p.parts corpus).flatMap (p.partOutcomes corpus)).map SampleOutcome.index := by
    rw [map_index_outcomes h]
    exact List.mem_range.mpr hi
  obtain ⟨o, ho, rfl⟩ := List.mem_map.mp hmem
  obtain ⟨part, hpart, ho⟩ := List.mem_flatMap.mp ho
  obtain ⟨j, code, hj, -, rfl⟩ := mem_partOutcomes.mp ho
  exact ⟨part, hpart, by rwa [index_processSample]⟩

end Pipeline

end CorpusMark
