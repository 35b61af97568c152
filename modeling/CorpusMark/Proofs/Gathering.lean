import CorpusMark.Proofs.Buckets
import Mathlib

/-!
# Gathering in place

`push` gives the next assembly or an error. `pushInPlace` does the same on an
assembly that is changed statement by statement, where an error leaves behind
whatever was changed before it. The two agree (`after_pushInPlace`): every
comparison comes before the first change, so a refused part leaves no trace.

`pushAll` pushes a sequence of parts, any of which may be refused. The main
statement is `pushAll_start`: which parts are accepted, which fault a refused
part is answered with, and that the dataset in the end holds the accepted parts
one after the other.
-/

namespace CorpusMark

namespace Assembly

/-! ## Statement by statement -/

/-- Statements that change an assembly and may give up. What was changed before
they give up stays changed. -/
abbrev Gathering := ExceptT AssemblyError (StateM Assembly)

/-- Gives up if the releases at a slot do not line up. -/
def compareSlot (part : Nat) : (Release × Release) × Nat → Gathering Unit
  | ((gathered, incoming), slot) =>
    if !gathered.rate.sameNumber incoming.rate then
      throw (.rateMismatch part slot gathered.rate incoming.rate)
    else if gathered.bucketKeys ≠ incoming.bucketKeys then
      throw (.bucketMismatch gathered.rate gathered.bucketKeys incoming.bucketKeys)
    else pure ()

/-- Changes the release at a slot. -/
def changeRelease (slot : Nat) (f : Release → Release) (a : Assembly) : Assembly :=
  { a with releases := a.releases.modify slot f }

/-- Appends the buckets of a release to the one at its slot, one after the other. -/
def appendBuckets : Release × Nat → Gathering Unit
  | (incoming, slot) => forM incoming.buckets.entries fun (key, blobs) =>
    modify (changeRelease slot (·.append key blobs))

/-- Appends everything that a part gives. -/
def appendPart (p : PartResult) : Gathering Unit := do
  forM p.releases.zipIdx appendBuckets
  modify fun a => { a with test := a.test ++ p.test }
  modify fun a => { a with actual := a.actual ++ p.actual }
  modify fun a => { a with stats := a.stats ++ [p.stats] }

/-- Pushes a part onto an assembly that is changed in place. -/
def pushInPlace (p : PartResult) : Gathering Unit := do
  let a ← get
  if p.releases.length ≠ a.releases.length then
    throw (.countMismatch p.part a.releases.length p.releases.length)
  else do
    forM (a.releases.zip p.releases).zipIdx (compareSlot p.part)
    appendPart p

/-- The answer of statements and the assembly that they leave behind. -/
def after (x : Gathering Unit) (a : Assembly) : Except AssemblyError Unit × Assembly :=
  x.run.run a

section After

variable {x : Gathering Unit} {f : Unit → Gathering Unit} {a a' : Assembly}

theorem after_bind_of_ok (h : after x a = (.ok (), a')) :
    after (x >>= f) a = after (f ()) a' := by
  show StateT.run (ExceptT.bindCont _ (after x a).1) (after x a).2 = _
  rw [h]
  rfl

theorem after_bind_of_error {e : AssemblyError} (h : after x a = (.error e, a')) :
    after (x >>= f) a = (.error e, a') := by
  show StateT.run (ExceptT.bindCont _ (after x a).1) (after x a).2 = _
  rw [h]
  rfl

end After

/-- The answer that an error, or none, stands for. -/
def answerOf : Option AssemblyError → Except AssemblyError Unit
  | none => .ok ()
  | some e => .error e

theorem after_compareSlot (part slot : Nat) (g i : Release) (a : Assembly) :
    after (compareSlot part ((g, i), slot)) a = (answerOf (mismatch? part slot g i), a) := by
  unfold mismatch?
  cases hrate : g.rate.sameNumber i.rate with
  | false => simp [compareSlot, hrate]; rfl
  | true =>
    by_cases hkeys : g.bucketKeys = i.bucketKeys
    · simp [compareSlot, hrate, hkeys]; rfl
    · simp [compareSlot, hrate, hkeys]; rfl

/-- Comparing changes nothing and gives up at the first mismatch. -/
theorem after_compareSlots (part : Nat) (a : Assembly) :
    ∀ (slot : Nat) (gathered incoming : List Release),
      after (forM ((gathered.zip incoming).zipIdx slot) (compareSlot part)) a
        = (answerOf (firstMismatch? part slot gathered incoming), a)
  | _, [], _ => rfl
  | _, _ :: _, [] => rfl
  | slot, g :: gathered, i :: incoming => by
    rw [List.zip_cons_cons, List.zipIdx_cons, List.forM_cons, firstMismatch?]
    have hslot := after_compareSlot part slot g i a
    cases hmis : mismatch? part slot g i with
    | some e =>
      rw [hmis] at hslot
      exact after_bind_of_error hslot
    | none =>
      rw [hmis] at hslot
      rw [after_bind_of_ok hslot]
      exact after_compareSlots part a (slot + 1) gathered incoming

/-- Appending bucket by bucket is one change of the release. -/
theorem after_changeReleases (slot : Nat) (entries : List (String × Array Blob)) (a : Assembly) :
    after (forM entries fun e => modify (changeRelease slot (·.append e.1 e.2))) a
      = (.ok (), changeRelease slot
          (fun r => entries.foldl (fun r e => r.append e.1 e.2) r) a) := by
  induction entries generalizing a with
  | nil =>
    have hid : a.releases.modify slot (fun r => r) = a.releases := List.modify_id slot a.releases
    show (Except.ok (), a) = _
    simp [changeRelease, hid]
  | cons e entries ih =>
    have hstep : after (modify (changeRelease slot (·.append e.1 e.2))) a
        = (.ok (), changeRelease slot (·.append e.1 e.2) a) := rfl
    rw [List.forM_cons, after_bind_of_ok hstep, ih]
    simp [changeRelease, List.modify_modify_eq, Function.comp_def]

/-- Appending the releases of a part, from a slot on. -/
theorem after_appendBuckets (incoming : List Release) :
    ∀ (front gathered : List Release) (a : Assembly), incoming.length = gathered.length →
      a.releases = front ++ gathered →
      after (forM (incoming.zipIdx front.length) appendBuckets) a
        = (.ok (), { a with releases := front ++ gathered.zipWith appendRelease incoming }) := by
  induction incoming with
  | nil =>
    intro front gathered a hlen ha
    obtain rfl : gathered = [] := List.eq_nil_of_length_eq_zero hlen.symm
    show (Except.ok (), a) = _
    simp [← ha]
  | cons i incoming ih =>
    intro front gathered a hlen ha
    obtain ⟨g, gathered, rfl⟩ := List.exists_cons_of_length_eq_add_one hlen.symm
    have hstep : after (appendBuckets (i, front.length)) a
        = (.ok (), { a with releases := (front ++ [appendRelease g i]) ++ gathered }) := by
      refine (after_changeReleases front.length i.buckets.entries a).trans ?_
      rw [changeRelease, ha, List.modify_eq_take_drop]
      simp [appendRelease]
    rw [List.zipIdx_cons, List.forM_cons, after_bind_of_ok hstep]
    have hrest := ih (front ++ [appendRelease g i]) gathered
      { a with releases := (front ++ [appendRelease g i]) ++ gathered }
      (Nat.succ.inj hlen) rfl
    rw [List.length_append, List.length_singleton] at hrest
    rw [hrest]
    simp

theorem after_appendPart {p : PartResult} {a : Assembly}
    (h : p.releases.length = a.releases.length) :
    after (appendPart p) a = (.ok (), a.join p) := by
  have happend := after_appendBuckets p.releases [] a.releases a h rfl
  exact (after_bind_of_ok happend).trans rfl

/-- **Pushing in place is pushing**: an accepted part gives the assembly that
`push` gives, and a refused part leaves the assembly as it was. -/
theorem after_pushInPlace (p : PartResult) (a : Assembly) :
    after (pushInPlace p) a = match a.push p with
      | .ok a' => (.ok (), a')
      | .error e => (.error e, a) := by
  -- the first statement only reads the assembly
  show after (if p.releases.length ≠ a.releases.length then _ else _) a = _
  unfold push
  by_cases hlen : p.releases.length = a.releases.length
  · rw [if_neg (not_not.mpr hlen), if_neg (not_not.mpr hlen)]
    have hcompare := after_compareSlots p.part a 0 a.releases p.releases
    cases hmis : firstMismatch? p.part 0 a.releases p.releases with
    | some e =>
      rw [hmis] at hcompare
      exact after_bind_of_error hcompare
    | none =>
      rw [hmis] at hcompare
      rw [after_bind_of_ok hcompare, after_appendPart hlen]
      rfl
  · rw [if_pos hlen, if_pos hlen]
    rfl

/-! ## What is refused -/

/-- What is wrong with a part that is refused: the number of its releases, or
else the first slot that does not line up, and there the rate before the keys. -/
inductive FirstFault (a : Assembly) (p : PartResult) : AssemblyError → Prop
  | count (hlen : p.releases.length ≠ a.releases.length) :
      FirstFault a p (.countMismatch p.part a.releases.length p.releases.length)
  | rate {slot : Nat} {g i : Release} (hlen : p.releases.length = a.releases.length)
      (hbefore : List.Forall₂ LinesUp (a.releases.take slot) (p.releases.take slot))
      (hg : a.releases[slot]? = some g) (hi : p.releases[slot]? = some i)
      (hrate : g.rate.sameNumber i.rate = false) :
      FirstFault a p (.rateMismatch p.part slot g.rate i.rate)
  | keys {slot : Nat} {g i : Release} (hlen : p.releases.length = a.releases.length)
      (hbefore : List.Forall₂ LinesUp (a.releases.take slot) (p.releases.take slot))
      (hg : a.releases[slot]? = some g) (hi : p.releases[slot]? = some i)
      (hrate : g.rate.sameNumber i.rate = true) (hkeys : g.bucketKeys ≠ i.bucketKeys) :
      FirstFault a p (.bucketMismatch g.rate g.bucketKeys i.bucketKeys)

theorem mismatch?_eq_some_iff {part slot : Nat} {g i : Release} {e : AssemblyError} :
    mismatch? part slot g i = some e ↔
      (g.rate.sameNumber i.rate = false ∧ e = .rateMismatch part slot g.rate i.rate) ∨
      (g.rate.sameNumber i.rate = true ∧ g.bucketKeys ≠ i.bucketKeys ∧
        e = .bucketMismatch g.rate g.bucketKeys i.bucketKeys) := by
  unfold mismatch?
  cases g.rate.sameNumber i.rate with
  | false => simp [eq_comm]
  | true => by_cases hk : g.bucketKeys = i.bucketKeys <;> simp [hk, eq_comm]

/-- The first mismatch is that of the first slot that does not line up. -/
theorem firstMismatch?_eq_some_iff {part : Nat} {e : AssemblyError} :
    ∀ {start : Nat} {gathered incoming : List Release},
      firstMismatch? part start gathered incoming = some e ↔
        ∃ k g i, gathered[k]? = some g ∧ incoming[k]? = some i ∧
          List.Forall₂ LinesUp (gathered.take k) (incoming.take k) ∧
          mismatch? part (start + k) g i = some e
  | _, [], _ => by simp [firstMismatch?]
  | _, _ :: _, [] => by simp [firstMismatch?]
  | start, g :: gathered, i :: incoming => by
    have ih : firstMismatch? part (start + 1) gathered incoming = some e ↔ _ :=
      firstMismatch?_eq_some_iff
    rw [firstMismatch?, Option.or_eq_some_iff, mismatch?_eq_none_iff, ih]
    constructor
    · rintro (h | ⟨hline, k, g', i', hg, hi, hbefore, h⟩)
      · exact ⟨0, g, i, rfl, rfl, .nil, h⟩
      · refine ⟨k + 1, g', i', hg, hi, .cons hline hbefore, ?_⟩
        rwa [Nat.add_comm k, ← Nat.add_assoc]
    · rintro ⟨k, g', i', hg, hi, hbefore, h⟩
      cases k with
      | zero =>
        cases hg
        cases hi
        exact Or.inl h
      | succ k =>
        cases hbefore with
        | cons hline hbefore =>
          refine Or.inr ⟨hline, k, g', i', hg, hi, hbefore, ?_⟩
          rwa [Nat.add_assoc, Nat.add_comm 1]

/-- **A refused part is answered with its first fault.** -/
theorem push_eq_error_iff {a : Assembly} {p : PartResult} {e : AssemblyError} :
    a.push p = .error e ↔ FirstFault a p e := by
  unfold push
  by_cases hlen : p.releases.length = a.releases.length
  · rw [if_neg (not_not.mpr hlen)]
    have hiff : firstMismatch? p.part 0 a.releases p.releases = some e ↔ _ :=
      firstMismatch?_eq_some_iff
    simp only [Nat.zero_add] at hiff
    constructor
    · intro h
      cases hmis : firstMismatch? p.part 0 a.releases p.releases with
      | none =>
        rw [hmis] at h
        cases h
      | some e' =>
        rw [hmis] at h
        cases h
        obtain ⟨k, g, i, hg, hi, hbefore, h⟩ := hiff.mp hmis
        rcases mismatch?_eq_some_iff.mp h with ⟨hrate, rfl⟩ | ⟨hrate, hkeys, rfl⟩
        · exact .rate hlen hbefore hg hi hrate
        · exact .keys hlen hbefore hg hi hrate hkeys
    · intro h
      have hmis : firstMismatch? p.part 0 a.releases p.releases = some e := by
        cases h with
        | count h => exact absurd hlen h
        | rate _ hbefore hg hi hrate =>
          exact hiff.mpr ⟨_, _, _, hg, hi, hbefore, mismatch?_eq_some_iff.mpr (.inl ⟨hrate, rfl⟩)⟩
        | keys _ hbefore hg hi hrate hkeys =>
          exact hiff.mpr ⟨_, _, _, hg, hi, hbefore,
            mismatch?_eq_some_iff.mpr (.inr ⟨hrate, hkeys, rfl⟩)⟩
      rw [hmis]
  · rw [if_pos hlen]
    constructor
    · intro h
      cases h
      exact .count hlen
    · intro h
      cases h with
      | count => rfl
      | rate h => exact absurd h hlen
      | keys h => exact absurd h hlen

/-! ## What is accepted -/

/-- Whether a part has as many releases as are gathered, and at every slot the
same rate and the same buckets. -/
def Accepts (a : Assembly) (p : PartResult) : Prop :=
  p.releases.length = a.releases.length ∧
    ∀ (slot : Nat) (g i : Release), a.releases[slot]? = some g → p.releases[slot]? = some i →
      g.rate.sameNumber i.rate = true ∧ ∀ key, key ∈ g.bucketKeys ↔ key ∈ i.bucketKeys

theorem linesUp_iff {g i : Release} :
    LinesUp g i ↔
      g.rate.sameNumber i.rate = true ∧ ∀ key, key ∈ g.bucketKeys ↔ key ∈ i.bucketKeys :=
  and_congr_right fun _ => SortedMap.keys_eq_iff

theorem accepts_iff {a : Assembly} {p : PartResult} :
    a.Accepts p ↔ List.Forall₂ LinesUp a.releases p.releases := by
  rw [List.forall₂_iff_get]
  constructor
  · rintro ⟨hlen, h⟩
    refine ⟨hlen.symm, fun slot hg hi => linesUp_iff.mpr ?_⟩
    exact h slot _ _ (List.getElem?_eq_getElem hg) (List.getElem?_eq_getElem hi)
  · rintro ⟨hlen, h⟩
    refine ⟨hlen.symm, fun slot g i hg hi => linesUp_iff.mp ?_⟩
    obtain ⟨hslot, rfl⟩ := List.getElem?_eq_some_iff.mp hg
    obtain ⟨hslot', rfl⟩ := List.getElem?_eq_some_iff.mp hi
    exact h slot hslot hslot'

theorem after_of_accepts {a : Assembly} {p : PartResult} (h : a.Accepts p) :
    after (pushInPlace p) a = (.ok (), a.join p) := by
  rw [after_pushInPlace, push_eq_ok_iff.mpr ⟨accepts_iff.mp h, rfl⟩]

theorem after_of_firstFault {a : Assembly} {p : PartResult} {e : AssemblyError}
    (h : FirstFault a p e) : after (pushInPlace p) a = (.error e, a) := by
  rw [after_pushInPlace, push_eq_error_iff.mpr h]

/-- A part is either accepted or refused with its first fault. -/
theorem accepts_or_firstFault (a : Assembly) (p : PartResult) :
    a.Accepts p ∨ ∃ e, FirstFault a p e := by
  cases h : a.push p with
  | ok a' => exact Or.inl (accepts_iff.mpr (push_eq_ok_iff.mp h).1)
  | error e => exact Or.inr ⟨e, push_eq_error_iff.mp h⟩

/-! ## Sequences of parts -/

/-- Pushes parts one after the other, whatever the answers are. -/
def pushAll (ps : List PartResult) : StateM Assembly (List (Except AssemblyError Unit)) :=
  ps.mapM fun p => (pushInPlace p).run

/-- The answers to a sequence of parts. -/
def answers (a : Assembly) (ps : List PartResult) : List (Except AssemblyError Unit) :=
  ((pushAll ps).run a).1

/-- The assembly after a sequence of parts. -/
def reached (a : Assembly) (ps : List PartResult) : Assembly :=
  ((pushAll ps).run a).2

theorem pushAll_cons_run (p : PartResult) (ps : List PartResult) (a : Assembly) :
    (pushAll (p :: ps)).run a
      = ((after (pushInPlace p) a).1 :: answers (after (pushInPlace p) a).2 ps,
          reached (after (pushInPlace p) a).2 ps) := by
  rw [pushAll, List.mapM_cons]
  rfl

theorem answers_cons (a : Assembly) (p : PartResult) (ps : List PartResult) :
    answers a (p :: ps)
      = (after (pushInPlace p) a).1 :: answers (after (pushInPlace p) a).2 ps := by
  rw [answers, pushAll_cons_run]

theorem reached_cons (a : Assembly) (p : PartResult) (ps : List PartResult) :
    reached a (p :: ps) = reached (after (pushInPlace p) a).2 ps := by
  rw [reached, pushAll_cons_run]

/-- Every answer is that of the assembly reached by the parts before. -/
theorem getElem?_answers (p : PartResult) :
    ∀ (a : Assembly) (ps : List PartResult) (k : Nat), ps[k]? = some p →
      (answers a ps)[k]? = some (after (pushInPlace p) (reached a (ps.take k))).1 ∧
        reached a (ps.take (k + 1)) = (after (pushInPlace p) (reached a (ps.take k))).2
  | a, q :: ps, 0, h => by
    cases h
    rw [answers_cons]
    exact ⟨rfl, rfl⟩
  | a, q :: ps, k + 1, h => by
    rw [answers_cons, List.take_succ_cons, List.take_succ_cons, reached_cons, reached_cons]
    exact getElem?_answers p _ ps k h

/-- The parts that were answered with success. -/
def accepted (ps : List PartResult) (answers : List (Except AssemblyError Unit)) :
    List PartResult :=
  ((ps.zip answers).filter fun call => call.2.isOk).map Prod.fst

theorem accepted_cons_ok (p : PartResult) (ps : List PartResult)
    (answers : List (Except AssemblyError Unit)) :
    accepted (p :: ps) (.ok () :: answers) = p :: accepted ps answers := rfl

theorem accepted_cons_error (p : PartResult) (ps : List PartResult) (e : AssemblyError)
    (answers : List (Except AssemblyError Unit)) :
    accepted (p :: ps) (.error e :: answers) = accepted ps answers := rfl

end Assembly

/-- The blobs that a part gives for a bucket of the release at a slot. -/
def PartResult.bucketAt (p : PartResult) (slot : Nat) (key : String) : List Blob :=
  (p.releases[slot]?).elim [] fun r => (r.bucket key).toList

namespace Assembly

/-- An assembly after some parts were appended to it, one after the other. -/
structure Appended (a : Assembly) (ps : List PartResult) (a' : Assembly) : Prop where
  rates : a'.releases.map Release.rate = a.releases.map Release.rate
  keys : a'.releases.map Release.bucketKeys = a.releases.map Release.bucketKeys
  bucket : ∀ (slot : Nat) (r : Release), a'.releases[slot]? = some r →
    ∃ g, a.releases[slot]? = some g ∧ ∀ key, (r.bucket key).toList
      = (g.bucket key).toList ++ ps.flatMap fun p => p.bucketAt slot key
  test : a'.test = a.test ++ ps.flatMap PartResult.test
  actual : a'.actual = a.actual ++ ps.flatMap PartResult.actual
  stats : a'.stats = a.stats ++ ps.map PartResult.stats

namespace Appended

theorem refl (a : Assembly) : Appended a [] a where
  rates := rfl
  keys := rfl
  bucket slot r h := ⟨r, h, fun key => by simp⟩
  test := by simp
  actual := by simp
  stats := by simp

theorem trans {a b c : Assembly} {ps qs : List PartResult} (hab : Appended a ps b)
    (hbc : Appended b qs c) : Appended a (ps ++ qs) c where
  rates := hbc.rates.trans hab.rates
  keys := hbc.keys.trans hab.keys
  bucket slot r h := by
    obtain ⟨g, hg, hrg⟩ := hbc.bucket slot r h
    obtain ⟨g', hg', hgg'⟩ := hab.bucket slot g hg
    refine ⟨g', hg', fun key => ?_⟩
    rw [hrg, hgg', List.flatMap_append, List.append_assoc]
  test := by rw [hbc.test, hab.test, List.flatMap_append, List.append_assoc]
  actual := by rw [hbc.actual, hab.actual, List.flatMap_append, List.append_assoc]
  stats := by rw [hbc.stats, hab.stats, List.map_append, List.append_assoc]

/-- What one accepted part appends. -/
theorem join {a : Assembly} {p : PartResult} (h : a.Accepts p) : Appended a [p] (a.join p) := by
  obtain ⟨hlen, hlines⟩ := List.forall₂_iff_get.mp (accepts_iff.mp h)
  refine ⟨?rates, ?keys, ?bucket, by simp [Assembly.join], by simp [Assembly.join],
    by simp [Assembly.join]⟩
  case rates =>
    refine List.ext_getElem (by simp [Assembly.join, hlen]) fun slot h₁ h₂ => ?_
    simp [Assembly.join]
  case keys =>
    refine List.ext_getElem (by simp [Assembly.join, hlen]) fun slot h₁ h₂ => ?_
    rw [List.length_map] at h₂
    have hline := hlines slot h₂ (hlen ▸ h₂)
    simpa [Assembly.join] using bucketKeys_appendRelease hline.2
  case bucket =>
    intro slot r hr
    obtain ⟨hslot, rfl⟩ := List.getElem?_eq_some_iff.mp hr
    have hg : slot < a.releases.length := by
      simp only [Assembly.join, List.length_zipWith] at hslot
      omega
    refine ⟨a.releases[slot], List.getElem?_eq_getElem hg, fun key => ?_⟩
    simp [Assembly.join, bucket_appendRelease, PartResult.bucketAt,
      List.getElem?_eq_getElem (hlen ▸ hg)]

end Appended

/-- A sequence of parts appends the accepted ones and nothing else. -/
theorem appended_reached (a : Assembly) (ps : List PartResult) :
    Appended a (accepted ps (answers a ps)) (reached a ps) := by
  induction ps generalizing a with
  | nil => exact .refl a
  | cons p ps ih =>
    rw [reached_cons, answers_cons]
    rcases accepts_or_firstFault a p with h | ⟨e, h⟩
    · rw [after_of_accepts h, accepted_cons_ok]
      exact (Appended.join h).trans (ih (a.join p))
    · rw [after_of_firstFault h, accepted_cons_error]
      exact ih a

end Assembly

/-- A dataset that holds parts one after the other, at the baseline and the
given rates. -/
structure Dataset.Gathers (d : Dataset) (rates : List Double) (ps : List PartResult) :
    Prop where
  rates : d.releases.map Release.rate = Rate.withBaseline rates
  keys : ∀ r ∈ d.releases, r.bucketKeys = Release.standardKeys
  bucket : ∀ (slot : Nat) (r : Release), d.releases[slot]? = some r → ∀ key,
    (r.bucket key).toList = ps.flatMap fun p => p.bucketAt slot key
  test : d.test = ps.flatMap PartResult.test
  actual : d.actual = ps.flatMap PartResult.actual
  stats : d.stats.parts = ps.map PartResult.stats
  parts : d.parts = ps.length

namespace Assembly

theorem gathers_of_appended {rates : List Double} {ps : List PartResult} {a : Assembly}
    (h : Appended (start rates) ps a) : a.finish.Gathers rates ps where
  rates := by
    refine h.rates.trans ?_
    simp [start, Function.comp_def]
  keys r hr := by
    have hmem : r.bucketKeys ∈ a.releases.map Release.bucketKeys := List.mem_map_of_mem hr
    rw [h.keys, start, List.map_map, List.mem_map] at hmem
    obtain ⟨rate, -, hrate⟩ := hmem
    rw [← hrate]
    exact Release.bucketKeys_empty rate
  bucket slot r hr key := by
    obtain ⟨g, hg, hgr⟩ := h.bucket slot r hr
    rw [start, List.getElem?_map, Option.map_eq_some_iff] at hg
    obtain ⟨rate, -, rfl⟩ := hg
    rw [hgr, Release.bucket_empty]
    rfl
  test := h.test
  actual := h.actual
  stats := h.stats
  parts := by
    show a.stats.length = ps.length
    rw [h.stats]
    exact List.length_map _

/-- **What becomes of a sequence of parts.** Each part is accepted exactly if it
lines up with what is gathered by then. A refused one is answered with its first
fault and leaves the assembly as it was. The dataset in the end holds the
accepted parts, in the order in which they were pushed. -/
theorem pushAll_start (rates : List Double) (ps : List PartResult) :
    (∀ (k : Nat) (p : PartResult), ps[k]? = some p →
      ∃ answer, (answers (start rates) ps)[k]? = some answer ∧
        (answer = .ok () ↔ (reached (start rates) (ps.take k)).Accepts p) ∧
        (∀ e, answer = .error e ↔ FirstFault (reached (start rates) (ps.take k)) p e) ∧
        (answer ≠ .ok () →
          reached (start rates) (ps.take (k + 1)) = reached (start rates) (ps.take k))) ∧
      (reached (start rates) ps).finish.Gathers rates
        (accepted ps (answers (start rates) ps)) := by
  refine ⟨fun k p hp => ?_, gathers_of_appended (appended_reached (start rates) ps)⟩
  obtain ⟨hanswer, hreached⟩ := getElem?_answers p (start rates) ps k hp
  generalize reached (start rates) (ps.take k) = a at hanswer hreached
  refine ⟨_, hanswer, ?_⟩
  rw [hreached, after_pushInPlace]
  cases hpush : a.push p with
  | ok a' =>
    have hacc : a.Accepts p := accepts_iff.mpr (push_eq_ok_iff.mp hpush).1
    refine ⟨by simpa using hacc, fun e => ?_, by simp⟩
    rw [← push_eq_error_iff, hpush]
    simp
  | error e' =>
    refine ⟨?_, fun e => ?_, fun _ => rfl⟩
    · rw [accepts_iff]
      constructor
      · intro h
        cases h
      · intro h
        rw [push_eq_ok_iff.mpr ⟨h, rfl⟩] at hpush
        cases hpush
    · rw [← push_eq_error_iff, hpush]
      simp

/-- A part with one clean sample, at the given rates. -/
def cleanPart (part : Nat) (rates : List Double) : PartResult where
  part := part
  releases := rates.map fun rate => (Release.empty rate).pushClean ⟨part, "x"⟩
  test := []
  actual := []
  stats := PartStats.ofCounts part "call" {} []

/-- The part in the middle has another rate. -/
def unevenParts : List PartResult :=
  [cleanPart 0 [Double.zero, Double.one], cleanPart 1 [Double.zero, Double.zero],
    cleanPart 2 [Double.zero, Double.one]]

theorem pushAll_start_uneven :
    unevenParts[1]? = some (cleanPart 1 [Double.zero, Double.zero]) ∧
      (answers (start [Double.one]) unevenParts)[1]?
        = some (.error (.rateMismatch 1 1 Double.one Double.zero)) ∧
      FirstFault (reached (start [Double.one]) (unevenParts.take 1))
        (cleanPart 1 [Double.zero, Double.zero]) (.rateMismatch 1 1 Double.one Double.zero) ∧
      reached (start [Double.one]) (unevenParts.take 2)
        = reached (start [Double.one]) (unevenParts.take 1) ∧
      (reached (start [Double.one]) unevenParts).finish.Gathers [Double.one]
        (accepted unevenParts (answers (start [Double.one]) unevenParts)) := by
  obtain ⟨hcalls, hgathers⟩ := pushAll_start [Double.one] unevenParts
  obtain ⟨answer, hanswer, -, hfault, hsame⟩ := hcalls 1 _ rfl
  have hrefused : (answers (start [Double.one]) unevenParts)[1]?
      = some (.error (.rateMismatch 1 1 Double.one Double.zero)) := by cbv
  rw [hanswer] at hrefused
  cases hrefused
  exact ⟨rfl, hanswer, (hfault _).mp rfl, hsame (by simp), hgathers⟩

end Assembly

end CorpusMark
