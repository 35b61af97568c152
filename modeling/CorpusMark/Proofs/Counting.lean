import CorpusMark.Proofs.Occurrences
import CorpusMark.Proofs.Run
import Mathlib.Algebra.GroupWithZero.Nat

/-!
# What the counters count

`Tallies` says what each counter counts, in terms of the samples: which of them
parse, which have an occurrence of every transform of their backdoor, and to
which of those the backdoor can be applied. The counters of a list of outcomes
tally with its samples (`tallies_countOutcomes`), and merging counters goes with
appending the samples (`Tallies.merge`). The relations between the counters
follow from what they count, whatever the samples are.
-/

namespace CorpusMark

/-- Counting what is of one of two kinds, if nothing is of both. -/
theorem countP_eq_add {α : Type} {a b c : α → Bool} (hor : ∀ x, a x = (b x || c x))
    (hand : ∀ x, (b x && c x) = false) (l : List α) : l.countP a = l.countP b + l.countP c := by
  induction l with
  | nil => rfl
  | cons x rest ih =>
    have hx := hand x
    rw [List.countP_cons, List.countP_cons, List.countP_cons, ih, hor x]
    cases hb : b x <;> cases hc : c x
    · simp
    · simp; omega
    · simp; omega
    · rw [hb, hc] at hx
      cases hx

namespace Counts

/-- Adding counters merges the entries of every key. -/
theorem get?_addOccurrences (m n : SortedMap Nat) (id : String) :
    (addOccurrences m n).get? id = Option.merge (· + ·) (m.get? id) (n.get? id) := by
  have hget : (addOccurrences m n).get? id
      = (n.get? id).elim (m.get? id) fun k => some ((m.get? id).getD 0 + k) :=
    SortedMap.get?_foldl_alter (fun k known => known.getD 0 + k) n.nodup_keys m id
  rw [hget]
  cases m.get? id <;> cases n.get? id <;> simp [Option.merge]

/-- Adding counters adds them at every key. A key without an entry counts 0. -/
theorem getD_addOccurrences (m n : SortedMap Nat) (id : String) :
    ((addOccurrences m n).get? id).getD 0 = (m.get? id).getD 0 + (n.get? id).getD 0 := by
  rw [get?_addOccurrences]
  cases m.get? id <;> cases n.get? id <;> simp [Option.merge]

theorem getD_foldl_addOccurrences (id : String) (os : List SampleOutcome) (m : SortedMap Nat) :
    ((os.foldl (fun m o => addOccurrences m o.occurrences) m).get? id).getD 0
      = (m.get? id).getD 0 + (os.map fun o => (o.occurrences.get? id).getD 0).sum := by
  induction os generalizing m with
  | nil => rfl
  | cons o rest ih =>
    rw [List.foldl_cons, ih, getD_addOccurrences, List.map_cons, List.sum_cons, Nat.add_assoc]

end Counts

theorem MatchSet.covers_iff {found : MatchSet} {ids : List String} :
    found.covers ids = true ↔ ∀ id ∈ ids, found.occurrences id ≠ #[] := by
  simp [covers]

/-- The rewritten samples are counted by subtraction, and what is subtracted is never
more than what it is subtracted from. -/
theorem rewritten_countOutcomes (outcomes : List SampleOutcome) :
    (countOutcomes outcomes).rewritten = outcomes.countP fun o => o.rewritten?.isSome := by
  refine Nat.sub_eq_of_eq_add (countP_eq_add (fun o => ?_) (fun o => ?_) outcomes)
  · unfold SampleOutcome.isEligible SampleOutcome.rewritten?
    cases o.state with
    | eligible result => cases result <;> rfl
    | _ => rfl
  · cases o.rewritten? <;> simp

/-! ## Samples -/

/-- A sample of a corpus with the backdoor of its part. -/
structure Sample where
  backdoor : Backdoor
  index : Nat
  code : String

namespace Pipeline

/-- The samples of a part. -/
def samplesOf (corpus : List String) (part : Backdoor × IndexRange) : List Sample :=
  ((share corpus part.2).zipIdx part.2.start).map fun s => ⟨part.1, s.2, s.1⟩

/-- The samples of a corpus, part by part. -/
def samples (p : Pipeline) (corpus : List String) : List Sample :=
  (p.parts corpus).flatMap (samplesOf corpus)

variable (p : Pipeline)

/-- What becomes of a sample. -/
def outcome (s : Sample) : SampleOutcome :=
  p.processSample s.backdoor s.index s.code

/-- Whether a sample parses. -/
def Parses (s : Sample) : Prop :=
  ∃ arena, p.parser.parse s.code = .ok arena

/-- Whether a sample parses, has an occurrence of every transform of its
backdoor, and applying the backdoor to it gives a certain result. -/
def Attempted (s : Sample) (result : Except TransformError String) : Prop :=
  ∃ arena found, p.parser.parse s.code = .ok arena ∧
    Occurrence.findAll p.catalog ⟨s.index, arena⟩ s.backdoor.ids = .ok found ∧
    (∀ id ∈ s.backdoor.ids, found.occurrences id ≠ #[]) ∧
    p.rewriter.applyBackdoor arena found s.backdoor = result

/-- Number of occurrences of a transform that the search reports in a sample,
which are none if it does not parse. -/
def reported (s : Sample) (id : String) : Nat :=
  match p.parser.parse s.code with
  | .error _ => 0
  | .ok arena =>
    match Occurrence.findAll p.catalog ⟨s.index, arena⟩ s.backdoor.ids with
    | .error _ => 0
    | .ok found => (found.occurrences id).size

variable {p} {s : Sample} {corpus : List String}

/-- The samples of a part are those that stand in its range. -/
theorem map_samplesOf (part : Backdoor × IndexRange) :
    (samplesOf corpus part).map (fun s => (s.code, s.index))
      = (corpus.zipIdx.drop part.2.start).take part.2.length := by
  rw [samplesOf, List.map_map]
  refine List.ext_getElem? fun k => ?_
  simp only [share, List.getElem?_map, List.getElem?_zipIdx, List.getElem?_take,
    List.getElem?_drop]
  split_ifs with hk
  · cases corpus[part.2.start + k]? <;> simp
  · rfl

/-- **Every sample of the corpus belongs to one part**, and they stand in corpus order. -/
theorem map_samples (h : p.backdoors ≠ []) (corpus : List String) :
    (p.samples corpus).map (fun s => (s.code, s.index)) = corpus.zipIdx := by
  have htiles : Tiles 0 ((p.parts corpus).map Prod.snd) corpus.length := tiles_parts h
  have hcut := htiles.flatMap_take_drop corpus.zipIdx
  rw [List.flatMap_map] at hcut
  rw [samples, List.map_flatMap, List.flatMap_congr fun part _ => map_samplesOf part, hcut,
    List.drop_zero, Nat.sub_zero, List.take_of_length_le (by simp)]

theorem partOutcomes_eq_map (corpus : List String) (part : Backdoor × IndexRange) :
    p.partOutcomes corpus part = (samplesOf corpus part).map p.outcome := by
  rw [partOutcomes, processAll_eq_map, samplesOf, List.map_map]
  rfl

/-! ## One sample -/

theorem isParsed_outcome_iff : (p.outcome s).isParsed = true ↔ p.Parses s :=
  isParsed_processSample_iff

theorem state_outcome_eq_eligible_iff {result : Except TransformError String} :
    (p.outcome s).state = .eligible result ↔ p.Attempted s result := by
  rw [outcome, state_processSample_eq_eligible_iff]
  simp only [MatchSet.covers_iff, Attempted]

theorem isEligible_outcome_iff :
    (p.outcome s).isEligible = true ↔ ∃ result, p.Attempted s result := by
  simp only [SampleOutcome.isEligible_iff, state_outcome_eq_eligible_iff]

theorem isSome_rewritten?_outcome_iff :
    (p.outcome s).rewritten?.isSome = true ↔ ∃ code, p.Attempted s (.ok code) := by
  simp only [Option.isSome_iff_exists, SampleOutcome.rewritten?_eq_some_iff,
    state_outcome_eq_eligible_iff]

/-- A sample is left as it is, although it is eligible, if its rewrite fails. -/
theorem isLeft_outcome_iff :
    ((p.outcome s).isEligible && (p.outcome s).rewritten?.isNone) = true ↔
      ∃ e, p.Attempted s (.error e) := by
  simp only [← state_outcome_eq_eligible_iff, SampleOutcome.rewritten?, SampleOutcome.isEligible]
  cases (p.outcome s).state with
  | eligible result => cases result <;> simp
  | _ => simp

theorem getD_occurrences_outcome (id : String) :
    ((p.outcome s).occurrences.get? id).getD 0 = p.reported s id := by
  unfold outcome processSample reported
  cases hparse : p.parser.parse s.code with
  | error e => rfl
  | ok arena =>
    cases hfind : Occurrence.findAll p.catalog ⟨s.index, arena⟩ s.backdoor.ids with
    | error e => simp [hfind]
    | ok found =>
      simp only [hfind, SortedMap.get?_mapValues, MatchSet.occurrences]
      cases found.get? id <;> rfl

theorem reported_of_not_parses (h : ¬ p.Parses s) (id : String) : p.reported s id = 0 := by
  unfold reported
  cases hparse : p.parser.parse s.code with
  | error e => rfl
  | ok arena => exact absurd ⟨arena, hparse⟩ h

/-- The search for the terms of a backdoor never fails. -/
theorem Configured.exists_findAll {grammars : Language → Grammar} {config : Config}
    (h : Configured grammars config p) {b : Backdoor}
    (hb : b ∈ p.backdoors) (parsed : ParsedSample) :
    ∃ found, Occurrence.findAll p.catalog parsed b.ids = .ok found := by
  have hnodup : p.catalog.ids.Nodup := by
    rw [h.catalog]
    exact Catalog.nodup_ids _
  have hids : ∀ id ∈ b.ids, id ∈ p.catalog.ids := by
    intro id hid
    obtain ⟨t, ht, rfl⟩ := List.mem_map.mp hid
    exact List.mem_map_of_mem (Backdoor.mem_of_parseAll h.backdoors hb t ht)
  obtain ⟨found, hfound, -⟩ := Occurrence.exists_findAll hnodup parsed hids
  exact ⟨found, hfound⟩

/-- In a run of an accepted configuration the search never fails, and what is
reported is what it finds. -/
theorem exists_found {grammars : Language → Grammar} {config : Config}
    (h : Configured grammars config p) (hs : s ∈ p.samples corpus) {arena : Arena}
    (hparse : p.parser.parse s.code = .ok arena) :
    ∃ found, Occurrence.findAll p.catalog ⟨s.index, arena⟩ s.backdoor.ids = .ok found ∧
      ∀ id, p.reported s id = (found.occurrences id).size := by
  obtain ⟨part, hpart, hs⟩ := List.mem_flatMap.mp hs
  have hbackdoor : s.backdoor ∈ p.backdoors := by
    obtain ⟨_, -, rfl⟩ := List.mem_map.mp hs
    exact (List.of_mem_zip hpart).1
  obtain ⟨found, hfound⟩ := h.exists_findAll hbackdoor ⟨s.index, arena⟩
  exact ⟨found, hfound, fun id => by simp only [reported, hparse, hfound]⟩

/-! ## Counters of a list of samples -/

open Classical in
/-- What the counters of a list of samples count. -/
structure Tallies (p : Pipeline) (samples : List Sample) (c : Counts) : Prop where
  total : c.total = samples.length
  parseFailed : c.parseFailed = samples.countP fun s => ¬ p.Parses s
  parsed : c.parsed = samples.countP fun s => p.Parses s
  eligible : c.eligible = samples.countP fun s => ∃ result, p.Attempted s result
  rewritten : c.rewritten = samples.countP fun s => ∃ code, p.Attempted s (.ok code)
  notRewritten : c.notRewritten = samples.countP fun s => ∃ e, p.Attempted s (.error e)
  occurrences : ∀ id, (c.occurrences.get? id).getD 0 = (samples.map (p.reported · id)).sum

namespace Tallies

variable {samples samples' : List Sample} {c c' : Counts}

theorem nil : p.Tallies [] {} := ⟨rfl, rfl, rfl, rfl, rfl, rfl, fun _ => rfl⟩

/-- Merging counters goes with appending the samples. -/
theorem merge (h : p.Tallies samples c) (h' : p.Tallies samples' c') :
    p.Tallies (samples ++ samples') (c.merge c') where
  total := by rw [List.length_append, ← h.total, ← h'.total]; rfl
  parseFailed := by rw [List.countP_append, ← h.parseFailed, ← h'.parseFailed]; rfl
  parsed := by rw [List.countP_append, ← h.parsed, ← h'.parsed]; rfl
  eligible := by rw [List.countP_append, ← h.eligible, ← h'.eligible]; rfl
  rewritten := by rw [List.countP_append, ← h.rewritten, ← h'.rewritten]; rfl
  notRewritten := by rw [List.countP_append, ← h.notRewritten, ← h'.notRewritten]; rfl
  occurrences id := by
    rw [List.map_append, List.sum_append, ← h.occurrences, ← h'.occurrences]
    exact Counts.getD_addOccurrences _ _ id

theorem parsed_add_parseFailed (h : p.Tallies samples c) : c.parsed + c.parseFailed = c.total := by
  classical
  rw [h.total, h.parsed, h.parseFailed, List.length_eq_countP_add_countP fun s => p.Parses s]
  simp

theorem eligible_le_parsed (h : p.Tallies samples c) : c.eligible ≤ c.parsed := by
  classical
  rw [h.eligible, h.parsed]
  refine List.countP_mono_left fun s _ hs => ?_
  obtain ⟨_, arena, _, hparse, -⟩ := of_decide_eq_true hs
  exact decide_eq_true ⟨arena, hparse⟩

/-- An attempt succeeds or fails, and not both. -/
theorem rewritten_add_notRewritten (h : p.Tallies samples c) :
    c.rewritten + c.notRewritten = c.eligible := by
  classical
  rw [h.eligible, h.rewritten, h.notRewritten]
  refine (countP_eq_add (fun s => ?_) (fun s => ?_) samples).symm
  · rw [← Bool.decide_or, decide_eq_decide]
    constructor
    · rintro ⟨code | e, hs⟩
      · exact Or.inr ⟨code, hs⟩
      · exact Or.inl ⟨e, hs⟩
    · rintro (⟨code, hs⟩ | ⟨e, hs⟩)
      · exact ⟨_, hs⟩
      · exact ⟨_, hs⟩
  · rw [← Bool.decide_and, decide_eq_false_iff_not]
    rintro ⟨⟨code, hok⟩, e, herror⟩
    have heq := (state_outcome_eq_eligible_iff.mpr hok).symm.trans
      (state_outcome_eq_eligible_iff.mpr herror)
    cases heq

end Tallies

theorem countP_map_outcome (test : SampleOutcome → Bool) {P : Sample → Prop} [DecidablePred P]
    (h : ∀ s, test (p.outcome s) = true ↔ P s) (samples : List Sample) :
    (samples.map p.outcome).countP test = samples.countP fun s => P s := by
  rw [List.countP_map]
  refine List.countP_congr fun s _ => ?_
  rw [Function.comp_apply, h, decide_eq_true_eq]

/-- The occurrences of the parsed samples are all there are. -/
theorem sum_occurrences_parsed (samples : List Sample) (id : String) :
    (((samples.map p.outcome).filter SampleOutcome.isParsed).map fun o =>
        (o.occurrences.get? id).getD 0).sum = (samples.map (p.reported · id)).sum := by
  induction samples with
  | nil => rfl
  | cons s rest ih =>
    rw [List.map_cons, List.map_cons, List.sum_cons, ← ih]
    by_cases hs : (p.outcome s).isParsed = true
    · rw [List.filter_cons_of_pos hs, List.map_cons, List.sum_cons, getD_occurrences_outcome]
    · rw [List.filter_cons_of_neg hs, reported_of_not_parses (mt isParsed_outcome_iff.mpr hs),
        Nat.zero_add]

/-- **The counters of a part tally with its samples.** -/
theorem tallies_countOutcomes (samples : List Sample) :
    p.Tallies samples (countOutcomes (samples.map p.outcome)) := by
  classical
  have heligible := countP_map_outcome (p := p) SampleOutcome.isEligible
    (fun _ => isEligible_outcome_iff) samples
  have hrewritten := countP_map_outcome (p := p) (fun o => o.rewritten?.isSome)
    (fun _ => isSome_rewritten?_outcome_iff) samples
  have hleft := countP_map_outcome (p := p) (fun o => o.isEligible && o.rewritten?.isNone)
    (fun _ => isLeft_outcome_iff) samples
  refine ⟨List.length_map _, ?parseFailed, ?parsed, heligible, ?rewritten, hleft, ?occurrences⟩
  case parseFailed =>
    refine countP_map_outcome (fun o => !o.isParsed) (fun s => ?_) samples
    rw [← isParsed_outcome_iff, Bool.not_eq_true', Bool.not_eq_true]
  case parsed =>
    rw [← countP_map_outcome SampleOutcome.isParsed (fun _ => isParsed_outcome_iff),
      List.countP_eq_length_filter]
    rfl
  case rewritten =>
    rw [← hrewritten]
    exact rewritten_countOutcomes _
  case occurrences =>
    intro id
    rw [← sum_occurrences_parsed]
    exact (Counts.getD_foldl_addOccurrences id _ SortedMap.empty).trans (Nat.zero_add _)

end Pipeline

end CorpusMark
