import CorpusMark.Proofs.Counting
import CorpusMark.Proofs.Failures
import CorpusMark.Proofs.Releases

/-!
# Failures that cannot happen

Three places of a run answer a failure that an accepted configuration rules out.
Gathering compares the rates and the buckets of each part with those gathered so
far, a search that fails counts as one that finds nothing, and a rewrite looks
again whether each term has an occurrence.

- `Configured.exists_findAll`: the search for the terms of an accepted backdoor
  never fails, as its ids were looked up in the same catalog;
- `applyBackdoor_eq_missing_iff`: a rewrite reports a missing occurrence exactly
  of the first term that has none, so never once the terms are covered;
- `run_total`: a run fails only if its workers cannot be set up.
-/

namespace CorpusMark

/-! ## Missing occurrences -/

namespace Rewriter

variable {r : Rewriter} {arena : Arena} {found : MatchSet} {b : Backdoor} {id : String}

/-- Only the first step of a rewrite looks for occurrences: an edit that cannot be
made is declined. -/
theorem editFor_ne_missing {t : Term} {o : Occurrence} :
    editFor arena t o ≠ .error (.missingOccurrence id) := by
  intro h
  cases declined_of_editFor h

/-- Edits that do not fit the source overlap or are no ranges of it. -/
theorem applyAll_ne_missing {source : String} {edits : List Edit} :
    applyAll source edits ≠ .error (.missingOccurrence id) := by
  intro h
  unfold applyAll at h
  cases hedits : applyEdits source edits with
  | ok out =>
    rw [hedits] at h
    cases h
  | error e =>
    rw [hedits] at h
    cases e <;> cases h

/-- Verification rejects a text with a message. -/
theorem verify_ne_missing {out : String} : r.verify out ≠ .error (.missingOccurrence id) := by
  intro h
  obtain ⟨reason, hreason⟩ := invalidOutput_of_verify h
  cases hreason

/-- The candidates lack those of the first term without an occurrence. -/
theorem candidates_eq_missing_iff {terms : List Term} :
    candidates found terms = .error (.missingOccurrence id) ↔
      ∃ pre t post, terms = pre ++ t :: post ∧
        (∀ s ∈ pre, found.occurrences s.id ≠ #[]) ∧ found.occurrences t.id = #[] ∧
        t.id = id := by
  rw [candidates, Attempts.mapM_eq_error_iff]
  refine exists_congr fun pre => exists_congr fun t => exists_congr fun post => ?_
  refine and_congr_right fun _ => and_congr ?_ ?_
  · refine forall_congr' fun s => imp_congr_right fun _ => ?_
    by_cases hempty : found.occurrences s.id = #[] <;> simp [hempty]
  · by_cases hempty : found.occurrences t.id = #[] <;> simp [hempty]

/-- **A rewrite reports a missing occurrence of the first term that has none**,
and no step behind that check does so. -/
theorem applyBackdoor_eq_missing_iff :
    r.applyBackdoor arena found b = .error (.missingOccurrence id) ↔
      ∃ pre t post, b.terms = pre ++ t :: post ∧
        (∀ s ∈ pre, found.occurrences s.id ≠ #[]) ∧ found.occurrences t.id = #[] ∧
        t.id = id := by
  constructor
  · -- the other steps fail in other ways
    intro h
    unfold applyBackdoor at h
    rcases Attempts.bind_eq_error_iff.mp h with hcandidates | ⟨options, -, h⟩
    · exact candidates_eq_missing_iff.mp hcandidates
    · cases hchoose : Assignment.chooseDisjoint r.searchBudget options with
      | none =>
        simp only [hchoose] at h
        cases h
      | some chosen =>
        simp only [hchoose] at h
        rcases Attempts.bind_eq_error_iff.mp h with hedits | ⟨edits, -, h⟩
        · obtain ⟨_, x, _, -, -, hx⟩ := Attempts.mapM_eq_error_iff.mp hedits
          exact absurd hx editFor_ne_missing
        · rcases Attempts.bind_eq_error_iff.mp h with hout | ⟨out, -, hverify⟩
          · exact absurd hout applyAll_ne_missing
          · exact absurd hverify verify_ne_missing
  · rintro ⟨pre, t, post, hterms, hpre, ht, rfl⟩
    exact applyBackdoor_of_missing hterms hpre ht

/-- The check made before a rewrite and the one it makes itself agree. -/
theorem covers_iff_not_missing :
    found.covers b.ids = true ↔
      ∀ id, r.applyBackdoor arena found b ≠ .error (.missingOccurrence id) := by
  rw [MatchSet.covers_iff]
  constructor
  · intro hall id hmissing
    obtain ⟨pre, t, post, hterms, -, ht, -⟩ := applyBackdoor_eq_missing_iff.mp hmissing
    have hmem : t ∈ b.terms := by
      rw [hterms]
      exact List.mem_append_right pre List.mem_cons_self
    exact hall t.id (List.mem_map_of_mem hmem) ht
  · intro hnever id hid hempty
    obtain ⟨t, ht, rfl⟩ := List.mem_map.mp hid
    -- some term has no occurrence, and the first such term would be reported
    cases hfirst : b.terms.find? fun t => decide (found.occurrences t.id = #[]) with
    | none =>
      have hnone := List.find?_eq_none.mp hfirst t ht
      rw [decide_eq_true_eq] at hnone
      exact hnone hempty
    | some first =>
      obtain ⟨hfound, pre, post, hterms, hpre⟩ := List.find?_eq_some_iff_append.mp hfirst
      refine hnever first.id (applyBackdoor_of_missing hterms (fun s hs hs' => ?_)
        (of_decide_eq_true hfound))
      have := hpre s hs
      rw [hs'] at this
      cases this

end Rewriter

namespace Pipeline

variable {grammars : Language → Grammar} {config : Config} {p : Pipeline}

/-! ## Samples -/

/-- No sample fails for an occurrence that is missing. -/
theorem state_processSample_ne_missing {b : Backdoor} {i : Nat} {code id : String} :
    (p.processSample b i code).state ≠ .eligible (.error (.missingOccurrence id)) := by
  intro hstate
  obtain ⟨arena, found, -, -, hcovers, happly⟩ := state_processSample_eq_eligible_iff.mp hstate
  exact Rewriter.covers_iff_not_missing.mp hcovers id happly

/-! ## Runs -/

section Workers

variable {setUp : Nat → Except String Unit} {workers : Nat} {corpus : List String}

/-- On workers that are set up, a run gives what it gives without. -/
theorem runOn_eq (h : workers = 0 ∨ setUp workers = .ok ()) :
    p.runOn setUp workers corpus = (p.run corpus).mapError RunError.assembly := by
  unfold runOn
  by_cases hzero : workers = 0
  · simp [hzero]
  · have hok : setUp workers = .ok () := h.resolve_left hzero
    rw [if_pos hzero, hok]
    rfl

/-- Workers that cannot be set up end a run before it begins. -/
theorem runOn_eq_threadPool {detail : String} (hne : workers ≠ 0)
    (h : setUp workers = .error detail) :
    p.runOn setUp workers corpus = .error (.threadPool detail) := by
  unfold runOn
  rw [if_pos hne, h]
  rfl

end Workers

/-- **A run of an accepted configuration never fails**, unless its workers cannot
be set up: the results of the parts always line up. In no sample, whatever its
tree, does the search for the terms of its backdoor fail, and a rewrite reports a
missing occurrence only if the terms are not covered, in which case the pipeline
does not ask for one. -/
theorem run_total (h : ofConfig grammars config = .ok p) (corpus : List String) :
    (∃ d, p.run corpus = .ok d ∧ ∀ setUp : Nat → Except String Unit,
      (config.effectiveThreads = 0 ∨ setUp config.effectiveThreads = .ok () →
        p.runOn setUp config.effectiveThreads corpus = .ok d) ∧
      ∀ e, p.runOn setUp config.effectiveThreads corpus = .error e →
        ∃ detail, e = .threadPool detail ∧ config.effectiveThreads ≠ 0 ∧
          setUp config.effectiveThreads = .error detail) ∧
    ∀ b ∈ p.backdoors,
      (∀ i arena, ∃ found, Occurrence.findAll p.catalog ⟨i, arena⟩ b.ids = .ok found ∧
        (found.covers b.ids = true ↔
          ∀ id, p.rewriter.applyBackdoor arena found b ≠ .error (.missingOccurrence id))) ∧
      ∀ i code id,
        (p.processSample b i code).state ≠ .eligible (.error (.missingOccurrence id)) := by
  have hc := configured_of_ofConfig h
  have hrun := run_eq_ok hc corpus
  refine ⟨⟨_, hrun, fun setUp => ⟨fun hset => ?done, fun e he => ?failed⟩⟩, fun b hb =>
    ⟨fun i arena => ?search, fun _ _ _ => state_processSample_ne_missing⟩⟩
  case done =>
    rw [runOn_eq hset, hrun]
    rfl
  case failed =>
    by_cases hset : config.effectiveThreads = 0 ∨ setUp config.effectiveThreads = .ok ()
    · rw [runOn_eq hset, hrun] at he
      cases he
    · rw [not_or] at hset
      cases hsetUp : setUp config.effectiveThreads with
      | ok u => exact absurd hsetUp hset.2
      | error detail =>
        rw [runOn_eq_threadPool hset.1 hsetUp] at he
        cases he
        exact ⟨detail, rfl, hset.1, rfl⟩
  case search =>
    obtain ⟨found, hfound⟩ := hc.exists_findAll hb ⟨i, arena⟩
    exact ⟨found, hfound, Rewriter.covers_iff_not_missing⟩

/-- Four workers cannot be set up where there are only two. -/
theorem run_total_calls :
    ∃ p, ofConfig (fun _ => callGrammar) { callConfig with threads := some 4 } = .ok p ∧
      (∃ d, p.run ["f()", "?", "f()", "x"] = .ok d ∧
        p.runOn (fun _ => .ok ()) 4 ["f()", "?", "f()", "x"] = .ok d) ∧
      ∃ e, p.runOn (fun n => if n ≤ 2 then .ok () else .error "no room") 4
          ["f()", "?", "f()", "x"] = .error e := by
  obtain ⟨p, hp⟩ := ofConfig_calls
  have hthreads : ofConfig (fun _ => callGrammar) { callConfig with threads := some 4 } = .ok p :=
    hp
  obtain ⟨⟨d, hrun, hworkers⟩, -⟩ := run_total hthreads ["f()", "?", "f()", "x"]
  exact ⟨p, hthreads, ⟨d, hrun, (hworkers _).1 (Or.inr rfl)⟩,
    ⟨_, runOn_eq_threadPool (by decide) rfl⟩⟩

end Pipeline

end CorpusMark
