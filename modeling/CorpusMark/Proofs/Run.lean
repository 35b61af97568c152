import CorpusMark.Proofs.Backdoors
import CorpusMark.Proofs.Buckets
import CorpusMark.Proofs.Outcomes
import CorpusMark.Proofs.Rates

/-!
# Runs

`Configured` collects what an accepted configuration says about the job made
from it. `run_eq_ok` then says what such a job gives for any corpus: it never
fails, and it has one release for each rate, the baseline first.

A release is seen through `emissions`, the list of what is emitted for each
parsed sample in corpus order, with the decision whether it is marked. The
three buckets of a release are three readings of that one list
(`all_releaseOf`, `marked_releaseOf`, `clean_releaseOf`), so what a bucket
holds is settled by the outcome of each sample and the selection of its part.
-/

namespace CorpusMark

/-! ## Accepted configurations -/

namespace Pipeline

/-- What an accepted configuration says about the job made from it. -/
structure Configured (grammars : Language → Grammar) (config : Config) (p : Pipeline) :
    Prop where
  language : languageOf config = .ok p.language
  catalog : p.catalog = Catalog.ofLanguage p.language
  parser : p.parser = ⟨grammars p.language, config.parse.limits⟩
  rewriter : p.rewriter = Rewriter.ofParser p.parser config.rewriter.effectiveVerify
    config.rewriter.effectiveBudget
  backdoors : Backdoor.parseAll p.catalog
    (config.backdoors.getD p.catalog.defaultBackdoors) = .ok p.backdoors
  rates : Rate.validate config.effectiveRates = .ok p.rates
  order : p.order = config.selection.selectionOrder

theorem configured_of_ofConfig {grammars : Language → Grammar} {config : Config}
    {p : Pipeline} (h : ofConfig grammars config = .ok p) :
    Configured grammars config p := by
  unfold ofConfig at h
  obtain ⟨l, hlang, h⟩ := Attempts.bind_eq_ok_iff.mp h
  obtain ⟨backdoors, hback, h⟩ := Attempts.bind_eq_ok_iff.mp h
  obtain ⟨rates, hrates, h⟩ := Attempts.bind_eq_ok_iff.mp h
  cases h
  have hcat := Catalog.language_ofLanguage l
  exact {
    language := by rw [hlang, Pipeline.language, hcat]
    catalog := by rw [Pipeline.language, hcat]
    parser := by rw [Pipeline.language, hcat]
    rewriter := rfl
    backdoors := hback
    rates := hrates
    order := rfl }

namespace Configured

variable {grammars : Language → Grammar} {config : Config} {p : Pipeline}

/-- Nothing else settles a job. -/
theorem ofConfig_eq (h : Configured grammars config p) : ofConfig grammars config = .ok p := by
  have hbackdoors := h.backdoors
  rw [h.catalog] at hbackdoors
  unfold ofConfig
  rw [h.language, Attempts.bind_ok]
  dsimp only
  rw [hbackdoors, Attempts.bind_ok, h.rates, Attempts.bind_ok, ← h.catalog, ← h.parser,
    ← h.rewriter, ← h.order]
  rfl

theorem backdoors_ne_nil (h : Configured grammars config p) : p.backdoors ≠ [] :=
  Backdoor.ne_nil_of_parseAll h.backdoors

theorem isNaN_of_mem_rates (h : Configured grammars config p) {rate : Double}
    (hrate : rate ∈ Rate.withBaseline p.rates) : rate.isNaN = false :=
  Rate.isNaN_of_mem_withBaseline (Rate.validate_eq_ok h.rates).2.1 hrate

end Configured

/-! ## What is emitted -/

/-- The selection of a part at a rate. -/
def selectionOf (order : SelectionOrder) (outcomes : List SampleOutcome) (rate : Double) :
    Selection :=
  select order rate ((outcomes.filter SampleOutcome.isEligible).map SampleOutcome.index)

/-- Whether a sample is emitted marked. -/
def marks (s : Selection) (o : SampleOutcome) : Bool :=
  o.rewritten?.isSome && s.isSelected o.index

/-- The blob by which a sample is emitted. -/
def blobOf (s : Selection) (o : SampleOutcome) : Blob :=
  ⟨o.index, if marks s o then o.rewritten?.getD o.code else o.code⟩

/-- What is emitted for the parsed samples of a part, and whether it is marked. -/
def emissionsOf (s : Selection) (outcomes : List SampleOutcome) : List (Bool × Blob) :=
  (outcomes.filter SampleOutcome.isParsed).map fun o => (marks s o, blobOf s o)

theorem emit_eq (s : Selection) (r : Release) (o : SampleOutcome) :
    emit s r o = if marks s o then r.pushMarked (blobOf s o) else r.pushClean (blobOf s o) := by
  unfold emit blobOf marks
  cases o.rewritten? with
  | none => rfl
  | some code => cases s.isSelected o.index <;> rfl

/-- The buckets after emitting a list of samples. -/
theorem foldl_emit (s : Selection) (l : List SampleOutcome) (r : Release) :
    (l.foldl (emit s) r).all.toList = r.all.toList ++ l.map (blobOf s) ∧
      (l.foldl (emit s) r).marked.toList
        = r.marked.toList ++ (l.filter (marks s)).map (blobOf s) ∧
      (l.foldl (emit s) r).clean.toList
        = r.clean.toList ++ (l.filter fun o => !marks s o).map (blobOf s) := by
  induction l generalizing r with
  | nil => simp
  | cons o rest ih =>
    obtain ⟨hall, hmarked, hclean⟩ := ih (emit s r o)
    rw [List.foldl_cons, hall, hmarked, hclean, emit_eq]
    cases hm : marks s o <;> simp [hm]

theorem rate_foldl_emit (s : Selection) (l : List SampleOutcome) (r : Release) :
    (l.foldl (emit s) r).rate = r.rate := by
  induction l generalizing r with
  | nil => rfl
  | cons o rest ih =>
    rw [List.foldl_cons, ih, emit_eq]
    split_ifs <;> rfl

theorem bucketKeys_foldl_emit (s : Selection) (l : List SampleOutcome) {r : Release}
    (h : r.bucketKeys = Release.standardKeys) :
    (l.foldl (emit s) r).bucketKeys = Release.standardKeys := by
  induction l generalizing r with
  | nil => exact h
  | cons o rest ih =>
    rw [List.foldl_cons]
    refine ih ?_
    rw [emit_eq]
    split_ifs
    · exact Release.bucketKeys_pushMarked h
    · exact Release.bucketKeys_pushClean h

section ReleaseAt

variable (order : SelectionOrder) (outcomes : List SampleOutcome) (rate : Double)

@[simp] theorem rate_releaseAt : (releaseAt order outcomes rate).1.rate = rate :=
  rate_foldl_emit _ _ _

@[simp] theorem bucketKeys_releaseAt :
    (releaseAt order outcomes rate).1.bucketKeys = Release.standardKeys :=
  bucketKeys_foldl_emit _ _ (Release.bucketKeys_empty rate)

theorem all_releaseAt :
    (releaseAt order outcomes rate).1.all.toList
      = (emissionsOf (selectionOf order outcomes rate) outcomes).map Prod.snd := by
  show (List.foldl _ _ _ : Release).all.toList = _
  rw [(foldl_emit _ _ _).1]
  simp [emissionsOf, selectionOf, Release.all, Function.comp_def]

theorem marked_releaseAt :
    (releaseAt order outcomes rate).1.marked.toList
      = ((emissionsOf (selectionOf order outcomes rate) outcomes).filter Prod.fst).map
          Prod.snd := by
  show (List.foldl _ _ _ : Release).marked.toList = _
  rw [(foldl_emit _ _ _).2.1]
  simp [emissionsOf, selectionOf, Release.marked, Function.comp_def, List.filter_map]

theorem clean_releaseAt :
    (releaseAt order outcomes rate).1.clean.toList
      = ((emissionsOf (selectionOf order outcomes rate) outcomes).filter fun e => !e.1).map
          Prod.snd := by
  show (List.foldl _ _ _ : Release).clean.toList = _
  rw [(foldl_emit _ _ _).2.2]
  simp [emissionsOf, selectionOf, Release.clean, Function.comp_def, List.filter_map]

end ReleaseAt

/-! ## What a run gives -/

/-- What a part gives. -/
def resultOf (p : Pipeline) (corpus : List String) (part : Backdoor × IndexRange) : PartResult :=
  p.assemblePart part.1 (p.partOutcomes corpus part)

/-- The release of a part at a rate. -/
def partRelease (p : Pipeline) (corpus : List String) (rate : Double)
    (part : Backdoor × IndexRange) : Release :=
  (releaseAt p.order (p.partOutcomes corpus part) rate).1

/-- The release of a run at a rate: those of all parts, one after the other. -/
def releaseOf (p : Pipeline) (corpus : List String) (rate : Double) : Release :=
  (p.parts corpus).foldl (fun r part => Assembly.appendRelease r (p.partRelease corpus rate part))
    (Release.empty rate)

/-- What is emitted at a rate, with the decision whether it is marked. -/
def emissions (p : Pipeline) (corpus : List String) (rate : Double) : List (Bool × Blob) :=
  (p.parts corpus).flatMap fun part =>
    emissionsOf (selectionOf p.order (p.partOutcomes corpus part) rate)
      (p.partOutcomes corpus part)

variable {p : Pipeline} {corpus : List String}

theorem releases_resultOf (part : Backdoor × IndexRange) :
    (p.resultOf corpus part).releases
      = (Rate.withBaseline p.rates).map fun rate => p.partRelease corpus rate part := by
  simp [resultOf, assemblePart, partRelease]

/-- Appending a release that has the same keys keeps rate and keys. -/
theorem rate_bucketKeys_foldl (rate : Double) (ps : List (Backdoor × IndexRange))
    {r : Release} (hrate : r.rate = rate) (hkeys : r.bucketKeys = Release.standardKeys) :
    (ps.foldl (fun r part => Assembly.appendRelease r (p.partRelease corpus rate part)) r).rate
        = rate ∧
      (ps.foldl (fun r part =>
        Assembly.appendRelease r (p.partRelease corpus rate part)) r).bucketKeys
          = Release.standardKeys := by
  induction ps generalizing r with
  | nil => exact ⟨hrate, hkeys⟩
  | cons part rest ih =>
    refine ih (by rw [Assembly.rate_appendRelease, hrate]) ?_
    rw [Assembly.bucketKeys_appendRelease, hkeys]
    rw [hkeys]
    exact (bucketKeys_releaseAt _ _ _).symm

@[simp] theorem rate_releaseOf (rate : Double) : (p.releaseOf corpus rate).rate = rate :=
  (rate_bucketKeys_foldl rate _ rfl (Release.bucketKeys_empty rate)).1

/-- Each bucket of a run is the concatenation of that bucket over the parts. -/
theorem bucket_foldl_appendRelease (rate : Double) (key : String)
    (ps : List (Backdoor × IndexRange)) (r : Release) :
    ((ps.foldl (fun r part =>
        Assembly.appendRelease r (p.partRelease corpus rate part)) r).bucket key).toList
      = (r.bucket key).toList
        ++ ps.flatMap fun part => ((p.partRelease corpus rate part).bucket key).toList := by
  induction ps generalizing r with
  | nil => simp
  | cons part rest ih =>
    rw [List.foldl_cons, ih, Assembly.bucket_appendRelease, Array.toList_append,
      List.flatMap_cons, List.append_assoc]

theorem bucket_releaseOf (rate : Double) (key : String) :
    ((p.releaseOf corpus rate).bucket key).toList
      = (p.parts corpus).flatMap fun part =>
          ((p.partRelease corpus rate part).bucket key).toList := by
  rw [releaseOf, bucket_foldl_appendRelease, Release.bucket_empty]
  rfl

/-- All blobs of a release are what is emitted. -/
theorem all_releaseOf (rate : Double) :
    (p.releaseOf corpus rate).all.toList = (p.emissions corpus rate).map Prod.snd := by
  rw [emissions, List.map_flatMap, Release.all, bucket_releaseOf]
  exact List.flatMap_congr fun part _ => all_releaseAt _ _ _

/-- The marked blobs of a release are those emitted marked. -/
theorem marked_releaseOf (rate : Double) :
    (p.releaseOf corpus rate).marked.toList
      = ((p.emissions corpus rate).filter Prod.fst).map Prod.snd := by
  rw [emissions, List.filter_flatMap, List.map_flatMap, Release.marked, bucket_releaseOf]
  exact List.flatMap_congr fun part _ => marked_releaseAt _ _ _

/-- The clean blobs of a release are the others. -/
theorem clean_releaseOf (rate : Double) :
    (p.releaseOf corpus rate).clean.toList
      = ((p.emissions corpus rate).filter fun e => !e.1).map Prod.snd := by
  rw [emissions, List.filter_flatMap, List.map_flatMap, Release.clean, bucket_releaseOf]
  exact List.flatMap_congr fun part _ => clean_releaseAt _ _ _

/-! ## The gathering loop -/

/-- A part lines up with releases at the same rates that have the standard
buckets, and gathering it appends its release at every rate. -/
theorem push_resultOf (hnan : ∀ rate ∈ Rate.withBaseline p.rates, rate.isNaN = false)
    {gathered : Double → Release} (hrate : ∀ rate, (gathered rate).rate = rate)
    (hkeys : ∀ rate, (gathered rate).bucketKeys = Release.standardKeys)
    (test : List TestRecord) (actual : List ActualRecord) (stats : List PartStats)
    (part : Backdoor × IndexRange) :
    Assembly.push ⟨(Rate.withBaseline p.rates).map gathered, test, actual, stats⟩
        (p.resultOf corpus part)
      = .ok ⟨(Rate.withBaseline p.rates).map fun rate =>
            Assembly.appendRelease (gathered rate) (p.partRelease corpus rate part),
          test ++ (p.resultOf corpus part).test, actual ++ (p.resultOf corpus part).actual,
          stats ++ [(p.resultOf corpus part).stats]⟩ := by
  refine Assembly.push_eq_ok_iff.mpr ⟨?_, ?_⟩
  · rw [releases_resultOf, List.forall₂_map_left_iff, List.forall₂_map_right_iff,
      List.forall₂_same]
    intro rate hmem
    refine ⟨?_, ?_⟩
    · rw [hrate, partRelease, rate_releaseAt]
      exact Double.sameNumber_iff.mpr ⟨hnan rate hmem, hnan rate hmem, rfl⟩
    · rw [hkeys]
      exact (bucketKeys_releaseAt _ _ _).symm
  · rw [Assembly.join, releases_resultOf, List.zipWith_map, List.zipWith_self]

/-- The loop over the parts takes for each of them the samples in its range: what is
left over starts where the range does. -/
theorem runParts_eq_foldlM (corpus : List String) (ps : List (Backdoor × IndexRange))
    {start stop : Nat} (h : Tiles start (ps.map Prod.snd) stop) (gathered : Assembly) :
    p.runParts ps (corpus.drop start) gathered
      = (ps.map (p.resultOf corpus)).foldlM Assembly.push gathered := by
  induction ps generalizing start gathered with
  | nil => rfl
  | cons part rest ih =>
    obtain ⟨b, range⟩ := part
    obtain ⟨hstart, hle, hrest⟩ := h
    have hpart : p.processPart b range.start ((corpus.drop start).take range.length)
        = p.resultOf corpus (b, range) := by
      rw [← hstart]
      rfl
    have hdrop : (corpus.drop start).drop range.length = corpus.drop range.stop := by
      rw [List.drop_drop, IndexRange.length, hstart, Nat.add_sub_cancel' hle]
    rw [runParts, hpart, hdrop, List.map_cons, List.foldlM_cons]
    cases gathered.push (p.resultOf corpus (b, range)) with
    | error e => rfl
    | ok gathered => exact ih hrest gathered

/-- A run gathers what the parts give. -/
theorem run_eq_foldlM (h : p.backdoors ≠ []) :
    p.run corpus
      = (((p.parts corpus).map (p.resultOf corpus)).foldlM Assembly.push
          (Assembly.start p.rates)).map Assembly.finish := by
  rw [← runParts_eq_foldlM corpus (p.parts corpus) (tiles_parts h), List.drop_zero]
  rfl

/-- Gathering parts appends to the releases at each rate, and to everything else. -/
theorem foldlM_push_resultOf (corpus : List String)
    (hnan : ∀ rate ∈ Rate.withBaseline p.rates, rate.isNaN = false)
    (ps : List (Backdoor × IndexRange))
    {gathered : Double → Release} (hrate : ∀ rate, (gathered rate).rate = rate)
    (hkeys : ∀ rate, (gathered rate).bucketKeys = Release.standardKeys)
    (test : List TestRecord) (actual : List ActualRecord) (stats : List PartStats) :
    (ps.map (p.resultOf corpus)).foldlM Assembly.push
        ⟨(Rate.withBaseline p.rates).map gathered, test, actual, stats⟩
      = .ok ⟨(Rate.withBaseline p.rates).map fun rate =>
            ps.foldl (fun r part => Assembly.appendRelease r (p.partRelease corpus rate part))
              (gathered rate),
          test ++ ps.flatMap fun part => (p.resultOf corpus part).test,
          actual ++ ps.flatMap fun part => (p.resultOf corpus part).actual,
          stats ++ ps.map fun part => (p.resultOf corpus part).stats⟩ := by
  induction ps generalizing gathered test actual stats with
  | nil => simp [pure, Except.pure]
  | cons part rest ih =>
    rw [List.map_cons, List.foldlM_cons, push_resultOf hnan hrate hkeys, Attempts.bind_ok,
      ih (fun rate => by rw [Assembly.rate_appendRelease, hrate])]
    · simp [List.append_assoc]
    · intro rate
      rw [Assembly.bucketKeys_appendRelease, hkeys]
      rw [hkeys]
      exact (bucketKeys_releaseAt _ _ _).symm

/-- **A run of an accepted configuration never fails.** It has one release for
each rate, the baseline first, and its records and statistics are those of the
parts, one after the other. -/
theorem run_eq_ok {grammars : Language → Grammar} {config : Config}
    (h : Configured grammars config p) (corpus : List String) :
    p.run corpus = .ok {
      releases := (Rate.withBaseline p.rates).map (p.releaseOf corpus)
      test := (p.parts corpus).flatMap fun part => (p.resultOf corpus part).test
      actual := (p.parts corpus).flatMap fun part => (p.resultOf corpus part).actual
      stats := CorpusStats.ofParts
        ((p.parts corpus).map fun part => (p.resultOf corpus part).stats)
      parts := (p.parts corpus).length } := by
  have hgather := foldlM_push_resultOf corpus (fun _ => h.isNaN_of_mem_rates) (p.parts corpus)
    Release.rate_empty Release.bucketKeys_empty [] [] []
  rw [run_eq_foldlM h.backdoors_ne_nil, Assembly.start, hgather]
  simp [Except.map, Assembly.finish, Assembly.parts, releaseOf]

end Pipeline

end CorpusMark
