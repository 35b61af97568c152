import CorpusMark.Proofs.Accounting
import CorpusMark.Proofs.Division
import Mathlib.Algebra.BigOperators.Group.List.Basic

/-!
# Totals do not depend on the cut

Counters are counted in one pass over the outcomes of a part and then merged over
the parts. Merging makes them a commutative monoid, and counting takes appending
to merging (`countOutcomes_append`), although it subtracts and leaves out samples
that do not parse. So the counters of a run are those of all its outcomes at once
(`counts_ofParts_parts`), and any other cut gives the same.

The numbers of the rates are added place by place. They commute as long as every
part has the same rates in the same places (`addRateStats_right_comm`): of unequal
rates the first part's would stay. `run_summed` puts both together.

A counter has no greatest value here. All are sums of natural numbers, so none on
the way to a total is greater than the total.
-/

namespace CorpusMark

/-! ## Counters as a monoid -/

namespace Counts

attribute [ext] Counts

theorem addOccurrences_comm (m n : SortedMap Nat) : addOccurrences m n = addOccurrences n m := by
  refine SortedMap.eq_of_get?_eq fun id => ?_
  rw [get?_addOccurrences, get?_addOccurrences]
  exact Std.Commutative.comm _ _

theorem addOccurrences_assoc (l m n : SortedMap Nat) :
    addOccurrences (addOccurrences l m) n = addOccurrences l (addOccurrences m n) := by
  refine SortedMap.eq_of_get?_eq fun id => ?_
  simp only [get?_addOccurrences]
  exact Std.Associative.assoc _ _ _

/-- Adding counters gives the union of the keys. -/
theorem mem_keys_addOccurrences {m n : SortedMap Nat} {id : String} :
    id ∈ (addOccurrences m n).keys ↔ id ∈ m.keys ∨ id ∈ n.keys := by
  simp only [SortedMap.mem_keys_iff, get?_addOccurrences]
  cases m.get? id <;> cases n.get? id <;> simp [Option.merge]

theorem merge_comm (a b : Counts) : a.merge b = b.merge a := by
  ext1
  case occurrences => exact addOccurrences_comm _ _
  all_goals exact Nat.add_comm _ _

theorem merge_assoc (a b c : Counts) : (a.merge b).merge c = a.merge (b.merge c) := by
  ext1
  case occurrences => exact addOccurrences_assoc _ _ _
  all_goals exact Nat.add_assoc _ _ _

theorem merge_empty (a : Counts) : a.merge {} = a := rfl

theorem empty_merge (a : Counts) : merge {} a = a := by rw [merge_comm, merge_empty]

instance : Zero Counts := ⟨{}⟩

instance : Add Counts := ⟨merge⟩

instance : AddCommMonoid Counts where
  add_assoc := merge_assoc
  add_comm := merge_comm
  zero_add := empty_merge
  add_zero := merge_empty
  nsmul := nsmulRec

theorem foldl_merge (cs : List Counts) : cs.foldl merge {} = cs.sum :=
  List.sum_eq_foldl.symm

/-- Counters that are the sums of those of a list, one by one. A key without an entry
counts 0, and there is an entry wherever one of the list has one. -/
structure IsTotal (c : Counts) (cs : List Counts) : Prop where
  total : c.total = (cs.map total).sum
  parseFailed : c.parseFailed = (cs.map parseFailed).sum
  parsed : c.parsed = (cs.map parsed).sum
  eligible : c.eligible = (cs.map eligible).sum
  rewritten : c.rewritten = (cs.map rewritten).sum
  notRewritten : c.notRewritten = (cs.map notRewritten).sum
  occurrences : ∀ id, (c.occurrences.get? id).getD 0
    = (cs.map fun d => (d.occurrences.get? id).getD 0).sum
  keys : ∀ id, id ∈ c.occurrences.keys ↔ ∃ d ∈ cs, id ∈ d.occurrences.keys

theorem IsTotal.nil : IsTotal 0 [] :=
  ⟨rfl, rfl, rfl, rfl, rfl, rfl, fun _ => rfl,
    fun _ => ⟨fun h => absurd h List.not_mem_nil, fun ⟨_, h, _⟩ => absurd h List.not_mem_nil⟩⟩

theorem IsTotal.cons {c : Counts} {cs : List Counts} (h : IsTotal c cs) (d : Counts) :
    IsTotal (d.merge c) (d :: cs) where
  total := congrArg (d.total + ·) h.total
  parseFailed := congrArg (d.parseFailed + ·) h.parseFailed
  parsed := congrArg (d.parsed + ·) h.parsed
  eligible := congrArg (d.eligible + ·) h.eligible
  rewritten := congrArg (d.rewritten + ·) h.rewritten
  notRewritten := congrArg (d.notRewritten + ·) h.notRewritten
  occurrences id := by
    rw [List.map_cons, List.sum_cons, ← h.occurrences id]
    exact getD_addOccurrences _ _ id
  keys id := by
    rw [List.exists_mem_cons_iff, ← h.keys id]
    exact mem_keys_addOccurrences

theorem isTotal_sum (cs : List Counts) : IsTotal cs.sum cs := by
  induction cs with
  | nil => exact IsTotal.nil
  | cons d rest ih => exact ih.cons d

end Counts

/-! ## Counting -/

theorem foldl_addOccurrences (os : List SampleOutcome) (m n : SortedMap Nat) :
    os.foldl (fun m o => Counts.addOccurrences m o.occurrences) (Counts.addOccurrences m n)
      = Counts.addOccurrences m
          (os.foldl (fun m o => Counts.addOccurrences m o.occurrences) n) := by
  induction os generalizing n with
  | nil => rfl
  | cons o rest ih => rw [List.foldl_cons, Counts.addOccurrences_assoc, ih, List.foldl_cons]

/-- **Counting takes appending to merging.** -/
theorem countOutcomes_append (xs ys : List SampleOutcome) :
    countOutcomes (xs ++ ys) = (countOutcomes xs).merge (countOutcomes ys) := by
  ext1
  case total => exact List.length_append
  case parseFailed => exact List.countP_append
  case parsed =>
    show ((xs ++ ys).filter _).length = _
    rw [List.filter_append, List.length_append]
    rfl
  case eligible => exact List.countP_append
  case rewritten =>
    rw [rewritten_countOutcomes, List.countP_append, ← rewritten_countOutcomes,
      ← rewritten_countOutcomes]
    rfl
  case notRewritten => exact List.countP_append
  case occurrences =>
    show ((xs ++ ys).filter _).foldl _ _ = _
    rw [List.filter_append, List.foldl_append]
    -- what was counted first is carried along by the second pass
    exact foldl_addOccurrences _ _ SortedMap.empty

theorem sum_countOutcomes (cuts : List (List SampleOutcome)) :
    (cuts.map countOutcomes).sum = countOutcomes cuts.flatten := by
  induction cuts with
  | nil => rfl
  | cons cut rest ih =>
    rw [List.map_cons, List.sum_cons, ih, List.flatten_cons, countOutcomes_append]
    rfl

/-! ## Numbers of rates -/

/-- A number of the rate at a place, 0 if there is no such place. -/
def numberAt (number : RateStats → Nat) (place : Nat) (rates : List RateStats) : Nat :=
  (rates[place]?.map number).getD 0

section RateNumbers

variable {number : RateStats → Nat} {place : Nat} {xs ys zs : List RateStats}

/-- A number that is added where places are added is added place by place. -/
theorem numberAt_addRateStats (h : ∀ s t, number (RateStats.add s t) = number s + number t) :
    numberAt number place (addRateStats xs ys)
      = numberAt number place xs + numberAt number place ys := by
  induction xs generalizing ys place with
  | nil => simp [addRateStats, numberAt]
  | cons x xs ih =>
    cases ys with
    | nil => simp [addRateStats, numberAt]
    | cons y ys =>
      rw [addRateStats]
      cases place with
      | zero => exact h x y
      | succ place => exact ih

theorem map_rate_addRateStats (h : xs.map RateStats.rate = ys.map RateStats.rate) :
    (addRateStats xs ys).map RateStats.rate = xs.map RateStats.rate := by
  induction xs generalizing ys with
  | nil => exact h.symm
  | cons x xs ih =>
    cases ys with
    | nil => rfl
    | cons y ys =>
      rw [addRateStats, List.map_cons, ih (List.cons.inj h).2]
      rfl

theorem addRateStats_comm (h : xs.map RateStats.rate = ys.map RateStats.rate) :
    addRateStats xs ys = addRateStats ys xs := by
  induction xs generalizing ys with
  | nil => rw [List.map_eq_nil_iff.mp h.symm]
  | cons x xs ih =>
    cases ys with
    | nil => cases h
    | cons y ys =>
      obtain ⟨hrate, hrest⟩ := List.cons.inj h
      rw [addRateStats, addRateStats, ih hrest, hrate, Nat.add_comm x.selected,
        Nat.add_comm x.rewritten]

/-- Two lists with the same rates may be added to any third in either order. -/
theorem addRateStats_right_comm (h : xs.map RateStats.rate = ys.map RateStats.rate)
    (zs : List RateStats) :
    addRateStats (addRateStats zs xs) ys = addRateStats (addRateStats zs ys) xs := by
  induction zs generalizing xs ys with
  | nil => exact addRateStats_comm h
  | cons z zs ih =>
    cases xs with
    | nil => rw [List.map_eq_nil_iff.mp h.symm]
    | cons x xs =>
      cases ys with
      | nil => cases h
      | cons y ys =>
        simp only [addRateStats, ih (List.cons.inj h).2, Nat.add_right_comm]

end RateNumbers

/-! ## Statistics of parts -/

namespace CorpusStats

/-- Statistics that are the sums of those of a list of parts with given rates: counters
one by one, and at every place the numbers of the rate that stands there. -/
structure IsTotal (s : CorpusStats) (rates : List Double) (parts : List PartStats) : Prop where
  counts : s.counts.IsTotal (parts.map PartStats.counts)
  rates : s.rates.map RateStats.rate = if parts = [] then [] else rates
  selected : ∀ place, numberAt RateStats.selected place s.rates
    = (parts.map fun p => numberAt RateStats.selected place p.rates).sum
  rewritten : ∀ place, numberAt RateStats.rewritten place s.rates
    = (parts.map fun p => numberAt RateStats.rewritten place p.rates).sum

variable {rates : List Double} {parts parts' : List PartStats}

theorem counts_ofParts (parts : List PartStats) :
    (ofParts parts).counts = (parts.map PartStats.counts).sum := by
  rw [← Counts.foldl_merge, List.foldl_map]
  rfl

theorem numberAt_foldl {number : RateStats → Nat}
    (h : ∀ s t, number (RateStats.add s t) = number s + number t) (place : Nat)
    (parts : List PartStats) (r : List RateStats) :
    numberAt number place (parts.foldl (fun r p => addRateStats r p.rates) r)
      = numberAt number place r + (parts.map fun p => numberAt number place p.rates).sum := by
  induction parts generalizing r with
  | nil => rfl
  | cons part rest ih =>
    rw [List.foldl_cons, ih, numberAt_addRateStats h, List.map_cons, List.sum_cons,
      Nat.add_assoc]

theorem map_rate_foldl {r : List RateStats} (hr : r.map RateStats.rate = rates)
    (h : ∀ part ∈ parts, part.rates.map RateStats.rate = rates) :
    (parts.foldl (fun r p => addRateStats r p.rates) r).map RateStats.rate = rates := by
  induction parts generalizing r with
  | nil => exact hr
  | cons part rest ih =>
    rw [List.forall_mem_cons] at h
    exact ih ((map_rate_addRateStats (hr.trans h.1.symm)).trans hr) h.2

/-- The first part brings the rates, all others only add to them. -/
theorem map_rate_ofParts (h : ∀ part ∈ parts, part.rates.map RateStats.rate = rates) :
    (ofParts parts).rates.map RateStats.rate = if parts = [] then [] else rates := by
  cases parts with
  | nil => rfl
  | cons part rest =>
    rw [List.forall_mem_cons] at h
    rw [if_neg (List.cons_ne_nil _ _)]
    exact map_rate_foldl (r := part.rates) h.1 h.2

theorem isTotal_ofParts (h : ∀ part ∈ parts, part.rates.map RateStats.rate = rates) :
    (ofParts parts).IsTotal rates parts where
  counts := by
    rw [counts_ofParts]
    exact Counts.isTotal_sum _
  rates := map_rate_ofParts h
  selected place := by
    refine (numberAt_foldl (fun _ _ => rfl) place parts []).trans ?_
    exact Nat.zero_add _
  rewritten place := by
    refine (numberAt_foldl (fun _ _ => rfl) place parts []).trans ?_
    exact Nat.zero_add _

theorem counts_ofParts_perm (h : parts.Perm parts') :
    (ofParts parts).counts = (ofParts parts').counts := by
  rw [counts_ofParts, counts_ofParts]
  exact (h.map PartStats.counts).sum_eq

theorem rates_ofParts_perm (hrates : ∀ part ∈ parts, part.rates.map RateStats.rate = rates)
    (h : parts.Perm parts') : (ofParts parts).rates = (ofParts parts').rates :=
  h.foldl_eq' (fun part hpart part' hpart' r =>
    addRateStats_right_comm ((hrates part hpart).trans (hrates part' hpart').symm) r) []

end CorpusStats

/-! ## A run -/

namespace Pipeline

variable {p : Pipeline} {grammars : Language → Grammar} {config : Config}

/-- The outcomes of the parts are the outcomes of all samples. -/
theorem flatMap_partOutcomes (h : p.backdoors ≠ []) (corpus : List String) :
    (p.parts corpus).flatMap (p.partOutcomes corpus) = p.outcomesOf corpus := by
  have htiles : Tiles 0 ((p.parts corpus).map Prod.snd) corpus.length := tiles_parts h
  have hcut := htiles.flatMap_take_drop (p.outcomesOf corpus)
  rw [List.flatMap_map] at hcut
  rw [← List.flatMap_congr fun part hpart => slice_outcomesOf hpart, hcut, List.drop_zero,
    Nat.sub_zero, List.take_of_length_le (by simp [outcomesOf])]

/-- The counters of a run are those of all its outcomes at once. -/
theorem countsOf_eq (h : p.backdoors ≠ []) (corpus : List String) :
    p.countsOf corpus = countOutcomes (p.outcomesOf corpus) := by
  have hfold : p.countsOf corpus = ((p.parts corpus).map (p.partCounts corpus)).sum := by
    rw [← Counts.foldl_merge, List.foldl_map]
    rfl
  rw [hfold, ← flatMap_partOutcomes h, List.flatMap_def, ← sum_countOutcomes, List.map_map]
  rfl

/-- **Totals are sums, however the samples are cut.** The counters of two lists of
outcomes put together are the merged counters, with an entry for every transform that
either has one for. So the counters of a run are those of all outcomes of the corpus,
and merging over any other cut of these outcomes gives them as well. The statistics of
any list of parts that have the same rates in the same places are the sums over the
parts, and the order of the parts makes no difference to them. -/
theorem run_summed (h : ofConfig grammars config = .ok p) (corpus : List String) :
    (∀ xs ys, countOutcomes (xs ++ ys) = (countOutcomes xs).merge (countOutcomes ys) ∧
      ∀ id, id ∈ (countOutcomes (xs ++ ys)).occurrences.keys ↔
        id ∈ (countOutcomes xs).occurrences.keys ∨ id ∈ (countOutcomes ys).occurrences.keys) ∧
      (∃ d, p.run corpus = .ok d ∧ d.stats.counts = countOutcomes (p.outcomesOf corpus) ∧
        ∀ cuts : List (List SampleOutcome), cuts.flatten = p.outcomesOf corpus →
          (cuts.map countOutcomes).foldl Counts.merge {} = d.stats.counts) ∧
      ∀ rates parts, (∀ part ∈ parts, part.rates.map RateStats.rate = rates) →
        (CorpusStats.ofParts parts).IsTotal rates parts ∧
          ∀ parts', parts.Perm parts' →
            (CorpusStats.ofParts parts).counts = (CorpusStats.ofParts parts').counts ∧
              (CorpusStats.ofParts parts).rates = (CorpusStats.ofParts parts').rates := by
  have hc := configured_of_ofConfig h
  have hne := hc.backdoors_ne_nil
  refine ⟨fun xs ys => ⟨countOutcomes_append xs ys, fun id => ?keys⟩, ?run, ?parts⟩
  case keys =>
    rw [countOutcomes_append]
    exact Counts.mem_keys_addOccurrences
  case run =>
    have hrun := run_eq_ok hc corpus
    rw [ofParts_stats hne] at hrun
    refine ⟨_, hrun, countsOf_eq hne corpus, fun cuts hcuts => ?_⟩
    rw [Counts.foldl_merge, sum_countOutcomes, hcuts]
    exact (countsOf_eq hne corpus).symm
  case parts =>
    intro rates parts hrates
    exact ⟨CorpusStats.isTotal_ofParts hrates, fun parts' hperm =>
      ⟨CorpusStats.counts_ofParts_perm hperm, CorpusStats.rates_ofParts_perm hrates hperm⟩⟩

/-- Two parts with numbers at the rates 0 and 1 and occurrences of one transform each. -/
def callParts : List PartStats :=
  [.ofCounts 0 "call" { total := 2, parsed := 2, occurrences := .ofList [("call", 3)] }
      [⟨Double.zero, 0, 0⟩, ⟨Double.one, 2, 1⟩],
    .ofCounts 1 "print" { total := 3, parsed := 1, occurrences := .ofList [("print", 1)] }
      [⟨Double.zero, 0, 0⟩, ⟨Double.one, 1, 1⟩]]

/-- A cut behind the first of four samples gives the counters of the run, which was cut
in the middle. Two parts add up at both rates, and either may come first. -/
theorem run_summed_calls :
    ∃ p, ofConfig (fun _ => callGrammar) callConfig = .ok p ∧
      (∃ d, p.run ["f()", "?", "f()", "x"] = .ok d ∧
        (countOutcomes ((p.outcomesOf ["f()", "?", "f()", "x"]).take 1)).merge
          (countOutcomes ((p.outcomesOf ["f()", "?", "f()", "x"]).drop 1)) = d.stats.counts) ∧
      (∀ part ∈ callParts, part.rates.map RateStats.rate = [Double.zero, Double.one]) ∧
      numberAt RateStats.selected 1 (CorpusStats.ofParts callParts).rates = 3 ∧
      "print" ∈ (CorpusStats.ofParts callParts).counts.occurrences.keys ∧
      callParts.Perm callParts.reverse ∧
      (CorpusStats.ofParts callParts).counts = (CorpusStats.ofParts callParts.reverse).counts := by
  obtain ⟨p, hp⟩ := ofConfig_calls
  obtain ⟨-, ⟨d, hrun, -, hcuts⟩, hparts⟩ := run_summed hp ["f()", "?", "f()", "x"]
  have hrates : ∀ part ∈ callParts, part.rates.map RateStats.rate = [Double.zero, Double.one] := by
    simp [callParts, PartStats.ofCounts]
  have hperm : callParts.Perm callParts.reverse := (List.reverse_perm _).symm
  obtain ⟨htotal, horder⟩ := hparts _ callParts hrates
  refine ⟨p, hp, ⟨d, hrun, ?cut⟩, hrates, ?selected, ?key, hperm, (horder _ hperm).1⟩
  case cut =>
    have hcut := hcuts [(p.outcomesOf ["f()", "?", "f()", "x"]).take 1,
      (p.outcomesOf ["f()", "?", "f()", "x"]).drop 1]
      (by simp only [List.flatten_cons, List.flatten_nil, List.append_nil, List.take_append_drop])
    rwa [List.map_cons, List.map_cons, List.map_nil, List.foldl_cons, List.foldl_cons,
      List.foldl_nil, Counts.empty_merge] at hcut
  case selected =>
    rw [htotal.selected 1]
    rfl
  case key =>
    rw [htotal.counts.keys "print"]
    exact ⟨_, List.mem_map_of_mem (List.mem_cons_of_mem _ (List.mem_singleton_self _)),
      List.mem_singleton_self _⟩

end Pipeline

end CorpusMark
