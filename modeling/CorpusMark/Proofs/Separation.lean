import CorpusMark.Proofs.Run
import Mathlib.Data.List.Nodup

/-!
# Parts read off a dataset

The results of the parts are merged into one dataset, and they can be told apart
again. What a part gives to a release are the blobs whose index is in the range
of the part (`within_releaseOf`). Test records and statistics are told apart by
the number of the part (`filter_test_run`, `filter_stats_run`), and the marked
codes stand in the order of the marked test records (`actual_run`).
-/

namespace CorpusMark

/-- If the elements of one block pass a test and those of all others fail it, the
test picks that block out of the concatenation. -/
theorem filter_flatMap_eq {α β : Type} {l : List α} {f : α → List β} {test : β → Bool} {x : α}
    (hnodup : l.Nodup) (hx : x ∈ l) (hself : ∀ b ∈ f x, test b = true)
    (hother : ∀ y ∈ l, y ≠ x → ∀ b ∈ f y, test b = false) :
    (l.flatMap f).filter test = f x := by
  obtain ⟨front, back, rfl⟩ := List.append_of_mem hx
  have hnone : ∀ ys : List α, (∀ y ∈ ys, y ∈ front ++ x :: back ∧ y ≠ x) →
      (ys.flatMap f).filter test = [] := by
    intro ys hys
    rw [List.filter_eq_nil_iff]
    intro b hb
    obtain ⟨y, hy, hb⟩ := List.mem_flatMap.mp hb
    rw [hother y (hys y hy).1 (hys y hy).2 b hb]
    exact Bool.false_ne_true
  have hne := List.nodup_middle.mp hnodup
  rw [List.nodup_cons, List.mem_append, not_or] at hne
  have hfront := hnone front fun y hy => ⟨by simp [hy], fun h => hne.1.1 (h ▸ hy)⟩
  have hback := hnone back fun y hy => ⟨by simp [hy], fun h => hne.1.2 (h ▸ hy)⟩
  rw [List.flatMap_append, List.flatMap_cons, List.filter_append, List.filter_append, hfront,
    hback, List.filter_eq_self.mpr hself, List.nil_append, List.append_nil]

/-! ## The part of a release in a range -/

namespace Release

/-- The blobs of a release whose index is in a range, bucket by bucket. -/
def within (r : Release) (range : IndexRange) : Release :=
  { r with buckets := r.buckets.mapValues fun blobs => blobs.filter (·.index ∈ range) }

@[simp] theorem rate_within (r : Release) (range : IndexRange) : (r.within range).rate = r.rate :=
  rfl

@[simp] theorem bucketKeys_within (r : Release) (range : IndexRange) :
    (r.within range).bucketKeys = r.bucketKeys :=
  SortedMap.keys_mapValues _ _

@[simp] theorem bucket_within (r : Release) (range : IndexRange) (key : String) :
    (r.within range).bucket key = (r.bucket key).filter (·.index ∈ range) := by
  rw [bucket, within, SortedMap.get?_mapValues, bucket]
  cases r.buckets.get? key <;> simp

end Release

namespace Pipeline

variable {p : Pipeline} {corpus : List String}

/-! ## Blobs and the range of their part -/

/-- Emitting a sample puts nothing but its blob into any bucket. -/
theorem mem_bucket_emit {s : Selection} {r : Release} {o : SampleOutcome} {key : String} {b : Blob}
    (h : b ∈ (emit s r o).bucket key) : b ∈ r.bucket key ∨ b.index = o.index := by
  have hpush : ∀ key' : String, b ∈ ((r.append key' #[blobOf s o]).append Release.allKey
      #[blobOf s o]).bucket key → b ∈ r.bucket key ∨ b.index = o.index := by
    intro key' h
    rcases Release.mem_bucket_append h with h | h
    · rcases Release.mem_bucket_append h with h | h
      · exact Or.inl h
      · exact Or.inr (congrArg Blob.index (Array.mem_singleton.mp h))
    · exact Or.inr (congrArg Blob.index (Array.mem_singleton.mp h))
  rw [emit_eq] at h
  split_ifs at h
  · exact hpush _ h
  · exact hpush _ h

theorem mem_bucket_foldl_emit {s : Selection} {key : String} {b : Blob} :
    ∀ {l : List SampleOutcome} {r : Release}, b ∈ (l.foldl (emit s) r).bucket key →
      b ∈ r.bucket key ∨ ∃ o ∈ l, b.index = o.index
  | [], _, h => Or.inl h
  | o :: l, r, h => by
    rcases mem_bucket_foldl_emit (l := l) h with h | ⟨o', ho', hindex⟩
    · rcases mem_bucket_emit h with h | hindex
      · exact Or.inl h
      · exact Or.inr ⟨o, List.mem_cons_self, hindex⟩
    · exact Or.inr ⟨o', List.mem_cons_of_mem o ho', hindex⟩

/-- A part emits blobs of its own range only. -/
theorem index_mem_of_mem_partRelease {rate : Double} {part : Backdoor × IndexRange} {key : String}
    {b : Blob} (h : b ∈ (p.partRelease corpus rate part).bucket key) : b.index ∈ part.2 := by
  rcases mem_bucket_foldl_emit h with h | ⟨o, ho, hindex⟩
  · simp at h
  · obtain ⟨i, code, hi, -, rfl⟩ := mem_partOutcomes.mp (List.mem_filter.mp ho).1
    rwa [hindex, index_processSample]

/-! ## Numbers of parts -/

variable {grammars : Language → Grammar} {config : Config}

/-- No number of a part comes twice. -/
theorem nodup_numbers (h : Configured grammars config p) :
    ((p.parts corpus).map fun part => part.1.part).Nodup := by
  have hfst : (p.parts corpus).map Prod.fst = p.backdoors := List.map_fst_zip (by simp)
  have hnumbers : ((p.parts corpus).map fun part => part.1.part)
      = List.range p.backdoors.length := by
    rw [← Backdoor.map_part_of_parseAll h.backdoors, ← hfst, List.map_map]
    rfl
  rw [hnumbers]
  exact List.nodup_range

theorem nodup_parts (h : Configured grammars config p) : (p.parts corpus).Nodup :=
  (nodup_numbers h).of_map _

theorem part_eq_of_number_eq (h : Configured grammars config p) {q r : Backdoor × IndexRange}
    (hq : q ∈ p.parts corpus) (hr : r ∈ p.parts corpus) (hpart : q.1.part = r.1.part) : q = r :=
  List.inj_on_of_nodup_map (nodup_numbers h) hq hr hpart

/-! ## What a part gives to a run -/

variable {part : Backdoor × IndexRange}

/-- **What a part gives to a release** are the blobs whose index is in its range. -/
theorem within_releaseOf (h : Configured grammars config p) (hpart : part ∈ p.parts corpus)
    (rate : Double) : (p.releaseOf corpus rate).within part.2 = p.partRelease corpus rate part := by
  refine Release.eq_of_bucket_eq ?_ ?_ fun key => ?_
  · rw [Release.rate_within, rate_releaseOf, partRelease, rate_releaseAt]
  · rw [Release.bucketKeys_within, partRelease, bucketKeys_releaseAt]
    exact (rate_bucketKeys_foldl rate _ rfl (Release.bucketKeys_empty rate)).2
  · rw [Release.bucket_within, ← Array.toList_inj, Array.toList_filter, bucket_releaseOf]
    refine filter_flatMap_eq (nodup_parts h) hpart (fun b hb => ?_) fun q hq hne b hb => ?_
    · exact decide_eq_true (index_mem_of_mem_partRelease (Array.mem_toList_iff.mp hb))
    · have hmem := index_mem_of_mem_partRelease (Array.mem_toList_iff.mp hb)
      exact decide_eq_false fun hb' => hne (part_unique h.backdoors_ne_nil hq hpart hmem hb')

theorem part_of_mem_test {r : TestRecord} (h : r ∈ (p.resultOf corpus part).test) :
    r.part = part.1.part := by
  simp only [resultOf, assemblePart, testRecords] at h
  split at h
  · cases h
  · obtain ⟨b, -, rfl⟩ := List.mem_map.mp h
    rfl

/-- The test records of a part are those with its number. -/
theorem filter_test_run (h : Configured grammars config p) (hpart : part ∈ p.parts corpus) :
    ((p.parts corpus).flatMap fun part => (p.resultOf corpus part).test).filter
        (·.part = part.1.part) = (p.resultOf corpus part).test := by
  refine filter_flatMap_eq (nodup_parts h) hpart (fun r hr => ?_) fun q hq hne r hr => ?_
  · exact decide_eq_true (part_of_mem_test hr)
  · refine decide_eq_false fun hr' => hne (part_eq_of_number_eq h hq hpart ?_)
    rw [← part_of_mem_test hr, hr']

/-- The statistics of a part are those with its number. -/
theorem filter_stats_run (h : Configured grammars config p) (hpart : part ∈ p.parts corpus) :
    ((p.parts corpus).map fun part => (p.resultOf corpus part).stats).filter
        (·.part = part.1.part) = [(p.resultOf corpus part).stats] := by
  rw [List.map_eq_flatMap]
  refine filter_flatMap_eq (f := fun part => [(p.resultOf corpus part).stats])
    (nodup_parts h) hpart (fun s hs => ?_) fun q hq hne s hs => ?_
  · rw [List.mem_singleton.mp hs]
    exact decide_eq_true rfl
  · rw [List.mem_singleton.mp hs]
    exact decide_eq_false fun hs' => hne (part_eq_of_number_eq h hq hpart hs')

/-- The marked codes of a run stand in the order of its marked test records. -/
theorem actual_run (ps : List (Backdoor × IndexRange)) :
    (ps.flatMap fun part => (p.resultOf corpus part).actual)
      = ((ps.flatMap fun part => (p.resultOf corpus part).test).filter TestRecord.isMarked).map
          fun r => ⟨r.code⟩ := by
  rw [List.filter_flatMap, List.map_flatMap]
  rfl

end Pipeline

end CorpusMark
