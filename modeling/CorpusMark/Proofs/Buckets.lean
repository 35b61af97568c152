import CorpusMark.Dataset
import CorpusMark.Proofs.Maps
import Mathlib.Data.List.Forall2

/-!
# Buckets and their gathering

A release is seen through `bucket`: which blobs it holds under each key. The
first part says what the operations of a release do to that view.

The second part is about gathering. `LinesUp` is the condition under which the
release of a part may be appended to a gathered one. A part is accepted exactly
if its releases line up one by one (`push_eq_ok_iff`), and appending it
concatenates the buckets of each release (`bucket_appendRelease`).
-/

namespace CorpusMark

namespace Release

@[simp] theorem rate_empty (rate : Double) : (empty rate).rate = rate := rfl

@[simp] theorem bucket_empty (rate : Double) (key : String) :
    (empty rate).bucket key = #[] := by
  simp only [bucket, empty, SortedMap.get?_insert, SortedMap.get?_empty]
  split_ifs <;> rfl

/-- Appending to a bucket is seen in that bucket only. -/
theorem bucket_append (r : Release) (key k : String) (blobs : Array Blob) :
    (r.append key blobs).bucket k
      = if k = key then r.bucket key ++ blobs else r.bucket k := by
  simp only [bucket, append, SortedMap.get?_alter]
  split_ifs <;> rfl

/-- What is in a bucket after appending was there before or is appended. -/
theorem mem_bucket_append {r : Release} {key k : String} {blobs : Array Blob} {b : Blob}
    (h : b ∈ (r.append key blobs).bucket k) : b ∈ r.bucket k ∨ b ∈ blobs := by
  rw [bucket_append] at h
  split_ifs at h with hk
  · rw [hk]
    exact Array.mem_append.mp h
  · exact Or.inl h

/-- Releases at the same rate with the same buckets are equal. -/
theorem eq_of_bucket_eq {r s : Release} (hrate : r.rate = s.rate)
    (hkeys : r.bucketKeys = s.bucketKeys) (hbucket : ∀ key, r.bucket key = s.bucket key) :
    r = s := by
  have hbuckets : r.buckets = s.buckets := by
    refine SortedMap.eq_of_get?_eq fun key => ?_
    by_cases hkey : key ∈ r.bucketKeys
    · obtain ⟨a, ha⟩ := SortedMap.exists_get?_of_mem hkey
      obtain ⟨b, hb⟩ := SortedMap.exists_get?_of_mem (show key ∈ s.bucketKeys from hkeys ▸ hkey)
      have hab := hbucket key
      rw [bucket, bucket, ha, hb] at hab
      rw [ha, hb]
      exact congrArg some hab
    · rw [SortedMap.get?_eq_none_of_notMem hkey,
        SortedMap.get?_eq_none_of_notMem (show key ∉ s.bucketKeys from hkeys ▸ hkey)]
  obtain ⟨rate, buckets⟩ := r
  obtain ⟨rate', buckets'⟩ := s
  cases hrate
  cases hbuckets
  rfl

/-! ## Emitting one blob -/

@[simp] theorem all_pushMarked (r : Release) (b : Blob) :
    (r.pushMarked b).all = r.all.push b := by
  simp [all, pushMarked, bucket_append, allKey, markedKey]

@[simp] theorem marked_pushMarked (r : Release) (b : Blob) :
    (r.pushMarked b).marked = r.marked.push b := by
  simp [marked, pushMarked, bucket_append, allKey, markedKey]

@[simp] theorem clean_pushMarked (r : Release) (b : Blob) :
    (r.pushMarked b).clean = r.clean := by
  simp [clean, pushMarked, bucket_append, allKey, markedKey, cleanKey]

@[simp] theorem all_pushClean (r : Release) (b : Blob) :
    (r.pushClean b).all = r.all.push b := by
  simp [all, pushClean, bucket_append, allKey, cleanKey]

@[simp] theorem marked_pushClean (r : Release) (b : Blob) :
    (r.pushClean b).marked = r.marked := by
  simp [marked, pushClean, bucket_append, allKey, markedKey, cleanKey]

@[simp] theorem clean_pushClean (r : Release) (b : Blob) :
    (r.pushClean b).clean = r.clean.push b := by
  simp [clean, pushClean, bucket_append, allKey, cleanKey]

/-! ## Keys -/

/-- The keys of a release that was made empty. -/
def standardKeys : List String := [allKey, cleanKey, markedKey]

@[simp] theorem bucketKeys_empty (rate : Double) :
    (empty rate).bucketKeys = standardKeys := by
  show (empty Double.zero).bucketKeys = standardKeys
  decide

/-- Appending to a bucket that is there leaves the keys as they are. -/
theorem bucketKeys_append {r : Release} {key : String} {blobs : Array Blob}
    (h : key ∈ r.bucketKeys) : (r.append key blobs).bucketKeys = r.bucketKeys :=
  SortedMap.keys_alter h

theorem bucketKeys_append_standard {r : Release} {key : String} {blobs : Array Blob}
    (h : r.bucketKeys = standardKeys) (hkey : key ∈ standardKeys) :
    (r.append key blobs).bucketKeys = standardKeys := by
  rw [bucketKeys_append (by rwa [h]), h]

theorem bucketKeys_pushMarked {r : Release} {b : Blob} (h : r.bucketKeys = standardKeys) :
    (r.pushMarked b).bucketKeys = standardKeys :=
  bucketKeys_append_standard (bucketKeys_append_standard h (by decide)) (by decide)

theorem bucketKeys_pushClean {r : Release} {b : Blob} (h : r.bucketKeys = standardKeys) :
    (r.pushClean b).bucketKeys = standardKeys :=
  bucketKeys_append_standard (bucketKeys_append_standard h (by decide)) (by decide)

end Release

namespace Assembly

/-! ## Appending the releases of a part -/

/-- Appending the entries of a map of buckets, through the maps alone. -/
theorem buckets_foldl_append (l : List (String × Array Blob)) (g : Release) :
    (l.foldl (fun r (e : String × Array Blob) => r.append e.1 e.2) g).buckets
      = l.foldl (fun m e => m.alter e.1 fun known => known.getD #[] ++ e.2) g.buckets := by
  induction l generalizing g with
  | nil => rfl
  | cons e rest ih => exact ih (g.append e.1 e.2)

@[simp] theorem rate_appendRelease (g i : Release) : (appendRelease g i).rate = g.rate := by
  unfold appendRelease
  generalize i.buckets.entries = l
  induction l generalizing g with
  | nil => rfl
  | cons e rest ih => exact ih (g.append e.1 e.2)

/-- Gathering concatenates every bucket. -/
theorem bucket_appendRelease (g i : Release) (key : String) :
    (appendRelease g i).bucket key = g.bucket key ++ i.bucket key := by
  have hget : (appendRelease g i).buckets.get? key
      = (i.buckets.get? key).elim (g.buckets.get? key)
          fun blobs => some ((g.buckets.get? key).getD #[] ++ blobs) := by
    rw [appendRelease, buckets_foldl_append]
    exact SortedMap.get?_foldl_alter (fun blobs known => known.getD #[] ++ blobs)
      i.buckets.nodup_keys g.buckets key
  rw [Release.bucket, hget, Release.bucket, Release.bucket]
  -- a bucket that the incoming release lacks counts as empty
  cases i.buckets.get? key with
  | none => simp
  | some blobs => rfl

/-- Gathering a release with the same keys leaves the keys as they are. -/
theorem bucketKeys_appendRelease {g i : Release} (h : g.bucketKeys = i.bucketKeys) :
    (appendRelease g i).bucketKeys = g.bucketKeys := by
  rw [Release.bucketKeys, appendRelease, buckets_foldl_append]
  refine SortedMap.keys_foldl_alter (fun blobs known => known.getD #[] ++ blobs) fun k hk => ?_
  show k ∈ g.bucketKeys
  rw [h]
  exact hk

/-! ## What is accepted -/

/-- Two releases are at the same rate and have the same buckets. -/
def LinesUp (gathered incoming : Release) : Prop :=
  gathered.rate.sameNumber incoming.rate = true ∧
    gathered.bucketKeys = incoming.bucketKeys

theorem mismatch?_eq_none_iff {part slot : Nat} {g i : Release} :
    mismatch? part slot g i = none ↔ LinesUp g i := by
  unfold mismatch? LinesUp
  cases g.rate.sameNumber i.rate with
  | false => simp
  | true =>
    by_cases hk : g.bucketKeys = i.bucketKeys <;> simp [hk]

/-- No mismatch is found exactly if the releases line up one by one. -/
theorem firstMismatch?_eq_none_iff (part : Nat) :
    ∀ (slot : Nat) {gathered incoming : List Release},
      incoming.length = gathered.length →
      (firstMismatch? part slot gathered incoming = none ↔
        List.Forall₂ LinesUp gathered incoming)
  | _, [], [], _ => by simp [firstMismatch?]
  | slot, g :: gathered, i :: incoming, hlen => by
    have ih := firstMismatch?_eq_none_iff part (slot + 1) (Nat.succ.inj hlen)
    rw [firstMismatch?, Option.or_eq_none_iff, mismatch?_eq_none_iff, ih, List.forall₂_cons]

/-- What is gathered after a part that lines up. -/
def join (a : Assembly) (p : PartResult) : Assembly where
  releases := a.releases.zipWith appendRelease p.releases
  test := a.test ++ p.test
  actual := a.actual ++ p.actual
  stats := a.stats ++ [p.stats]

/-- **A part is accepted exactly if its releases line up** with those gathered
so far, and then everything it gives is appended. -/
theorem push_eq_ok_iff {a a' : Assembly} {p : PartResult} :
    a.push p = .ok a' ↔ List.Forall₂ LinesUp a.releases p.releases ∧ a' = a.join p := by
  unfold push
  by_cases hlen : p.releases.length = a.releases.length
  · rw [if_neg (not_not.mpr hlen), ← firstMismatch?_eq_none_iff p.part 0 hlen]
    cases firstMismatch? p.part 0 a.releases p.releases with
    | none => simp [join, eq_comm]
    | some e => simp
  · rw [if_pos hlen]
    constructor
    · intro h
      cases h
    · rintro ⟨h, -⟩
      exact absurd h.length_eq.symm hlen

end Assembly

end CorpusMark
