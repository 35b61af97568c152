import CorpusMark.Proofs.Records

/-!
# How a corpus is divided

The range of a part is computed by multiplication, while its samples are what the
parts before it have left over. Both come to the same: the ranges follow each
other from 0 to the length of the corpus (`evenDivision_splitContiguous`), and the
part in whose range a sample lies can be computed from its index (`partNumber`).
So a run amounts to processing every sample once, with the backdoor of its part,
and gathering the outcomes range by range (`run_divided`).

The numbers stay small on the way. `splitWithin` computes the ranges with products
and sums that must not exceed a limit, and the length of the corpus is limit enough
(`splitWithin_length`). Beside them the parts are only counted.
-/

namespace CorpusMark

/-! ## Even divisions -/

/-- The number of the part of an index: parts have `length / parts` indices, and the
last part has all that are left. -/
def partNumber (length parts i : Nat) : Nat :=
  if length < parts then parts - 1 else min (i / (length / parts)) (parts - 1)

/-- As many ranges as there are parts, which follow each other from 0 to `length`, all
of the same length except the last. -/
structure EvenDivision (length parts : Nat) (ranges : List IndexRange) : Prop where
  count : ranges.length = parts
  tiles : Tiles 0 ranges length
  even : ∀ k r, ranges[k]? = some r → k + 1 < parts → r.length = length / parts

section Ranges

variable {length parts k i : Nat} {r : IndexRange}

theorem getElem?_splitContiguous (h : (splitContiguous length parts)[k]? = some r) :
    k < parts ∧ r.start = k * (length / parts) ∧
      r.stop = if k + 1 = parts then length else k * (length / parts) + length / parts := by
  rw [splitContiguous, List.getElem?_map, Option.map_eq_some_iff] at h
  obtain ⟨k', hk', rfl⟩ := h
  obtain ⟨hlt, hget⟩ := List.getElem?_eq_some_iff.mp hk'
  rw [List.length_range] at hlt
  rw [List.getElem_range] at hget
  subst hget
  exact ⟨hlt, rfl, rfl⟩

theorem evenDivision_splitContiguous (h : 0 < parts) :
    EvenDivision length parts (splitContiguous length parts) where
  count := length_splitContiguous length parts
  tiles := tiles_splitContiguous h
  even := by
    intro k r hr hk
    obtain ⟨-, hstart, hstop⟩ := getElem?_splitContiguous hr
    rw [IndexRange.length, hstart, hstop, if_neg (Nat.ne_of_lt hk), Nat.add_sub_cancel_left]

/-- With fewer indices than parts, the last part has them all. -/
example : splitContiguous 1 3 = [⟨0, 0⟩, ⟨0, 0⟩, ⟨0, 1⟩] := by decide

/-- **The part of an index can be computed from it.** -/
theorem mem_splitContiguous_iff (hr : (splitContiguous length parts)[k]? = some r)
    (hi : i < length) : i ∈ r ↔ k = partNumber length parts i := by
  obtain ⟨hk, hstart, hstop⟩ := getElem?_splitContiguous hr
  rw [IndexRange.mem_iff, hstart, hstop, partNumber]
  by_cases hshort : length < parts
  · -- all parts but the last are empty
    rw [Nat.div_eq_of_lt hshort, Nat.mul_zero, if_pos hshort]
    split_ifs <;> omega
  · have hsize : 0 < length / parts := Nat.div_pos (by omega) (by omega)
    have hlow : k * (length / parts) ≤ i ↔ k ≤ i / (length / parts) :=
      (Nat.le_div_iff_mul_le hsize).symm
    have hhigh : i < k * (length / parts) + length / parts ↔ i / (length / parts) < k + 1 := by
      rw [Nat.div_lt_iff_lt_mul hsize, Nat.succ_mul]
    -- the quotient tells the parts apart, and the last one takes all greater quotients
    rw [if_neg hshort, hlow]
    split_ifs with hlast
    · omega
    · rw [hhigh]
      omega

end Ranges

/-! ## Small numbers -/

/-- A product that must not exceed a limit. -/
def mulWithin (limit a b : Nat) : Except Nat Nat :=
  if a * b ≤ limit then .ok (a * b) else .error (a * b)

/-- A sum that must not exceed a limit. -/
def addWithin (limit a b : Nat) : Except Nat Nat :=
  if a + b ≤ limit then .ok (a + b) else .error (a + b)

/-- The range of a part, with products and sums up to a limit. -/
def rangeWithin (limit length parts i : Nat) : Except Nat IndexRange := do
  let start ← mulWithin limit i (length / parts)
  if i + 1 = parts then return ⟨start, length⟩
  else return ⟨start, ← addWithin limit start (length / parts)⟩

/-- `splitContiguous` with products and sums up to a limit; the first that exceeds it
is an error. -/
def splitWithin (limit length parts : Nat) : Except Nat (List IndexRange) :=
  (List.range parts).mapM (rangeWithin limit length parts)

/-- The start of a part, and its end if it is not the last, are at most the length. -/
theorem mul_div_le_of_le {length parts k : Nat} (hk : k ≤ parts) :
    k * (length / parts) ≤ length :=
  calc k * (length / parts) ≤ parts * (length / parts) := Nat.mul_le_mul_right _ hk
    _ ≤ length := Nat.mul_div_le length parts

/-- **The length of what is divided is the greatest number needed.** -/
theorem splitWithin_length (length parts : Nat) :
    splitWithin length length parts = .ok (splitContiguous length parts) := by
  refine Attempts.mapM_eq_ok_iff.mpr ?_
  rw [splitContiguous, List.forall₂_map_right_iff, List.forall₂_same]
  intro i hi
  have hlt := List.mem_range.mp hi
  have hstart : mulWithin length i (length / parts) = .ok (i * (length / parts)) :=
    if_pos (mul_div_le_of_le (Nat.le_of_lt hlt))
  rw [rangeWithin, hstart, Attempts.bind_ok]
  by_cases hlast : i + 1 = parts
  · rw [if_pos hlast, if_pos hlast]
    rfl
  · -- the end of this part is the start of the next one
    have hle : (i + 1) * (length / parts) ≤ length := mul_div_le_of_le hlt
    rw [Nat.succ_mul] at hle
    rw [if_neg hlast, if_neg hlast, addWithin, if_pos hle]
    rfl

/-! ## One sample, one part -/

namespace Pipeline

variable {p : Pipeline} {corpus : List String} {grammars : Language → Grammar} {config : Config}

/-- Gathers the outcomes of all samples, each range with a backdoor. -/
def gather (p : Pipeline) (ranges : List IndexRange) (outcomes : List SampleOutcome) :
    Except AssemblyError Dataset :=
  let results := (p.backdoors.zip ranges).map fun (b, range) =>
    p.assemblePart b ((outcomes.drop range.start).take range.length)
  (results.foldlM Assembly.push (Assembly.start p.rates)).map Assembly.finish

/-- The backdoor of the part that an index belongs to. -/
def backdoorOf (p : Pipeline) (length i : Nat) : Backdoor :=
  (p.backdoors[partNumber length p.backdoors.length i]?).getD ⟨0, []⟩

/-- What becomes of the samples of a corpus, each processed on its own. -/
def outcomesOf (p : Pipeline) (corpus : List String) : List SampleOutcome :=
  corpus.zipIdx.map fun s => p.processSample (p.backdoorOf corpus.length s.2) s.2 s.1

theorem getElem?_outcomesOf (i : Nat) :
    (p.outcomesOf corpus)[i]?
      = corpus[i]?.map (p.processSample (p.backdoorOf corpus.length i) i) := by
  rw [outcomesOf, List.getElem?_map, List.getElem?_zipIdx, Nat.zero_add, Option.map_map]
  rfl

/-- The part of an index stands at the computed place. -/
theorem getElem?_parts_of_mem {part : Backdoor × IndexRange} (hpart : part ∈ p.parts corpus)
    {i : Nat} (hi : i < corpus.length) (hmem : i ∈ part.2) :
    (p.parts corpus)[partNumber corpus.length p.backdoors.length i]? = some part := by
  obtain ⟨k, hk⟩ := List.getElem?_of_mem hpart
  rw [← (mem_splitContiguous_iff (List.getElem?_zip_eq_some.mp hk).2 hi).mp hmem]
  exact hk

/-- The outcomes in the range of a part are the outcomes of the part. -/
theorem slice_outcomesOf {part : Backdoor × IndexRange} (hpart : part ∈ p.parts corpus) :
    ((p.outcomesOf corpus).drop part.2.start).take part.2.length
      = p.partOutcomes corpus part := by
  rw [partOutcomes, processAll_eq_map]
  refine List.ext_getElem? fun k => ?_
  rw [List.getElem?_take, List.getElem?_map, List.getElem?_zipIdx, share, List.getElem?_take]
  split_ifs with hk
  · rw [List.getElem?_drop, List.getElem?_drop, getElem?_outcomesOf, Option.map_map]
    cases hcode : corpus[part.2.start + k]? with
    | none => rfl
    | some code =>
      have hmem : part.2.start + k ∈ part.2 := by
        rw [IndexRange.length] at hk
        exact ⟨Nat.le_add_right _ _, by omega⟩
      have hplace := getElem?_parts_of_mem hpart (List.getElem?_eq_some_iff.mp hcode).1 hmem
      have hbackdoor := (List.getElem?_zip_eq_some.mp hplace).1
      rw [backdoorOf, hbackdoor]
      rfl
  · rfl

/-- A run gathers the outcomes of all samples, range by range. -/
theorem run_eq_gather (h : p.backdoors ≠ []) :
    p.run corpus
      = p.gather (splitContiguous corpus.length p.backdoors.length) (p.outcomesOf corpus) := by
  have hresults : (p.parts corpus).map (p.resultOf corpus)
      = (p.parts corpus).map fun (b, range) =>
          p.assemblePart b (((p.outcomesOf corpus).drop range.start).take range.length) :=
    List.map_congr_left fun part hpart => by
      show _ = p.assemblePart part.1 _
      rw [slice_outcomesOf hpart]
      rfl
  rw [run_eq_foldlM h, hresults]
  rfl

/-- **A corpus is divided evenly and every sample processed once.** Whatever the
length and the number of parts, the ranges follow each other from 0 to the length,
all but the last of them of one size, and no product or sum that gives a position
exceeds the length. A run gathers one outcome for each sample, range by range. The
outcome of a sample is that of its own index and of the backdoor of its part, and
every test record names the part of its sample. -/
theorem run_divided (h : ofConfig grammars config = .ok p) (corpus : List String) :
    (∀ length parts, 0 < parts →
      EvenDivision length parts (splitContiguous length parts) ∧
        splitWithin length length parts = .ok (splitContiguous length parts)) ∧
      ∃ d outcomes, p.run corpus = .ok d ∧
        p.gather (splitContiguous corpus.length p.backdoors.length) outcomes = .ok d ∧
        outcomes.length = corpus.length ∧
        (∀ i code, corpus[i]? = some code →
          ∃ b, p.backdoors[partNumber corpus.length p.backdoors.length i]? = some b ∧
            b.part = partNumber corpus.length p.backdoors.length i ∧
            outcomes[i]? = some (p.processSample b i code)) ∧
        ∀ t ∈ d.test, t.index < corpus.length ∧
          t.part = partNumber corpus.length p.backdoors.length t.index := by
  have hc := configured_of_ofConfig h
  have hne := hc.backdoors_ne_nil
  have hrun := run_eq_ok hc corpus
  refine ⟨fun length parts hparts => ⟨evenDivision_splitContiguous hparts,
    splitWithin_length length parts⟩, _, p.outcomesOf corpus, hrun, ?gathered, ?count, ?each,
    ?records⟩
  case gathered => rw [← run_eq_gather hne, hrun]
  case count => rw [outcomesOf, List.length_map, List.length_zipIdx]
  case each =>
    intro i code hcode
    have hi := (List.getElem?_eq_some_iff.mp hcode).1
    obtain ⟨part, hpart, hmem⟩ := exists_part_of_lt hne hi
    have hplace := getElem?_parts_of_mem hpart hi hmem
    have hbackdoor := (List.getElem?_zip_eq_some.mp hplace).1
    refine ⟨part.1, hbackdoor, number_eq_of_getElem? hc hplace, ?_⟩
    rw [getElem?_outcomesOf, hcode, backdoorOf, hbackdoor]
    rfl
  case records =>
    obtain ⟨top, htop, -⟩ := Rate.exists_highest hc.rates
    intro t ht
    obtain ⟨part, hpart, e, -, hmem, rfl⟩ := mem_test_run htop ht
    have hi := Nat.lt_of_lt_of_le hmem.2 (stop_le_of_mem_parts hne hpart)
    exact ⟨hi, number_eq_of_getElem? hc (getElem?_parts_of_mem hpart hi hmem)⟩

/-- Of seven samples the first three are marked as calls, the other four with their
form named. -/
theorem run_divided_calls :
    ∃ p, ofConfig (fun _ => callGrammar) callConfig = .ok p ∧ p.backdoors.length = 2 ∧
      splitContiguous 7 2 = [⟨0, 3⟩, ⟨3, 7⟩] ∧
      ∃ d, p.run ["f()", "?", "f()", "x", "f()", "f()", "x"] = .ok d ∧
        ∀ t ∈ d.test, t.index < 7 ∧ t.part = if t.index < 3 then 0 else 1 := by
  obtain ⟨p, hp⟩ := ofConfig_calls
  have htwo : p.backdoors.length = 2 :=
    Backdoor.length_of_parseAll (configured_of_ofConfig hp).backdoors
  obtain ⟨-, d, outcomes, hrun, -, -, -, htest⟩ :=
    run_divided hp ["f()", "?", "f()", "x", "f()", "f()", "x"]
  refine ⟨p, hp, htwo, by decide, d, hrun, fun t ht => ?_⟩
  obtain ⟨hi, hpart⟩ := htest t ht
  refine ⟨hi, ?_⟩
  rw [hpart, htwo]
  show partNumber 7 2 t.index = _
  unfold partNumber
  split_ifs <;> omega

end Pipeline

end CorpusMark
