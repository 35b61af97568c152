import CorpusMark.SortedMap
import Mathlib.Tactic.ByContra
import Mathlib.Tactic.SplitIfs

/-!
# Views of maps in key order

What the operations of `SortedMap` do to the two views of a map: the value at
each key (`get?`) and the list of its keys (`keys`). Everything later is said
through these views; the entries themselves are opened only here.

`get?_foldl_alter` is the law behind merging: running through the entries of
one map and altering another one changes every key once.
-/

namespace CorpusMark

namespace SortedMap

variable {α β : Type}

/-! ## Lists of entries -/

/-- Looking up a key compares it with the first key. -/
theorem lookup_cons_eq_ite (key k : String) (v : α) (l : List (String × α)) :
    ((k, v) :: l).lookup key = if key = k then some v else l.lookup key := by
  rw [List.lookup_cons]
  by_cases h : key = k
  · rw [if_pos h, beq_iff_eq.mpr h]
  · rw [if_neg h, beq_eq_false_iff_ne.mpr h]

/-- A key that no entry has is not found. -/
theorem lookup_eq_none_of_notMem {key : String} {l : List (String × α)}
    (h : key ∉ l.map Prod.fst) : l.lookup key = none := by
  induction l with
  | nil => rfl
  | cons p rest ih =>
    rw [List.map_cons, List.mem_cons, not_or] at h
    rw [lookup_cons_eq_ite, if_neg h.1, ih h.2]

/-- Altering a list of ascending keys is seen at the altered key only. -/
theorem lookup_alterList {key : String} {f : Option α → α} {l : List (String × α)}
    (h : (l.map Prod.fst).Pairwise (· < ·)) (k : String) :
    (alterList key f l).lookup k
      = if k = key then some (f (l.lookup key)) else l.lookup k := by
  induction l with
  | nil => exact lookup_cons_eq_ite k key (f none) []
  | cons p rest ih =>
    obtain ⟨k', v⟩ := p
    rw [List.map_cons, List.pairwise_cons] at h
    rw [alterList]
    by_cases hlt : key < k'
    · -- the key is new: it stands before everything in the list
      have hnone : ((k', v) :: rest).lookup key = none := by
        refine lookup_eq_none_of_notMem fun hmem => ?_
        rw [List.map_cons, List.mem_cons] at hmem
        rcases hmem with rfl | hmem
        · exact String.lt_irrefl _ hlt
        · exact String.lt_irrefl _ (String.lt_trans hlt (h.1 key hmem))
      rw [if_pos hlt, lookup_cons_eq_ite, hnone]
    · rw [if_neg hlt]
      by_cases heq : key = k'
      · subst heq
        simp only [if_true, lookup_cons_eq_ite]
        split <;> rfl
      · rw [if_neg heq, lookup_cons_eq_ite, ih h.2, lookup_cons_eq_ite,
          lookup_cons_eq_ite, if_neg heq]
        by_cases hk : k = key
        · rw [if_pos hk, if_pos hk, if_neg (hk ▸ heq)]
        · rw [if_neg hk, if_neg hk]

/-- Altering a key that is there leaves the list of keys as it is. -/
theorem map_fst_alterList {key : String} {f : Option α → α} {l : List (String × α)}
    (h : (l.map Prod.fst).Pairwise (· < ·)) (hkey : key ∈ l.map Prod.fst) :
    (alterList key f l).map Prod.fst = l.map Prod.fst := by
  induction l with
  | nil => cases hkey
  | cons p rest ih =>
    obtain ⟨k, v⟩ := p
    rw [List.map_cons, List.pairwise_cons] at h
    rw [List.map_cons, List.mem_cons] at hkey
    rw [alterList]
    split
    · -- a new key would stand before one that is there
      rename_i hlt
      rcases hkey with rfl | hmem
      · exact absurd hlt (String.lt_irrefl _)
      · exact absurd (String.lt_trans hlt (h.1 key hmem)) (String.lt_irrefl _)
    · split
      · rfl
      · rename_i hne
        have hmem : key ∈ rest.map Prod.fst := hkey.resolve_left hne
        rw [List.map_cons, List.map_cons, ih h.2 hmem]

/-- A key that is found is the key of an entry. -/
theorem mem_of_lookup_eq_some {key : String} {v : α} {l : List (String × α)}
    (h : l.lookup key = some v) : key ∈ l.map Prod.fst := by
  by_contra hmem
  rw [lookup_eq_none_of_notMem hmem] at h
  cases h

/-- The key of an entry is found. -/
theorem exists_lookup_of_mem {key : String} {l : List (String × α)}
    (h : key ∈ l.map Prod.fst) : ∃ v, l.lookup key = some v := by
  induction l with
  | nil => cases h
  | cons e rest ih =>
    rw [lookup_cons_eq_ite]
    split_ifs with hkey
    · exact ⟨e.2, rfl⟩
    · rw [List.map_cons, List.mem_cons] at h
      exact ih (h.resolve_left hkey)

/-- Lists with ascending keys are equal if the same is found in them. -/
theorem eq_of_lookup_eq : ∀ {l l' : List (String × α)},
    (l.map Prod.fst).Pairwise (· < ·) → (l'.map Prod.fst).Pairwise (· < ·) →
      (∀ k, l.lookup k = l'.lookup k) → l = l'
  | [], [], _, _, _ => rfl
  | [], (k, v) :: rest, _, _, h => by
    have hk := h k
    rw [lookup_cons_eq_ite, if_pos rfl] at hk
    cases hk
  | (k, v) :: rest, [], _, _, h => by
    have hk := h k
    rw [lookup_cons_eq_ite, if_pos rfl] at hk
    cases hk
  | (k, v) :: rest, (k', v') :: rest', hl, hl', h => by
    rw [List.map_cons, List.pairwise_cons] at hl hl'
    have hhead : ((k, v) :: rest).lookup k = some v := by
      rw [lookup_cons_eq_ite, if_pos rfl]
    have hhead' : ((k', v') :: rest').lookup k' = some v' := by
      rw [lookup_cons_eq_ite, if_pos rfl]
    -- each first key is found in the other list, so neither can be the smaller one
    have hkey : k = k' := by
      have hmem := mem_of_lookup_eq_some ((h k).symm.trans hhead)
      have hmem' := mem_of_lookup_eq_some ((h k').trans hhead')
      rw [List.map_cons, List.mem_cons] at hmem hmem'
      rcases hmem with heq | hmem
      · exact heq
      · rcases hmem' with heq | hmem'
        · exact heq.symm
        · exact absurd (hl.1 k' hmem') (String.lt_asymm (hl'.1 k hmem))
    subst hkey
    have hvalue : v = v' := by
      rw [h k, hhead'] at hhead
      exact (Option.some.inj hhead).symm
    have hrest : rest = rest' := by
      refine eq_of_lookup_eq hl.2 hl'.2 fun j => ?_
      by_cases hj : j = k
      · rw [hj, lookup_eq_none_of_notMem fun hmem => String.lt_irrefl _ (hl.1 k hmem),
          lookup_eq_none_of_notMem fun hmem => String.lt_irrefl _ (hl'.1 k hmem)]
      · have hj' := h j
        rwa [lookup_cons_eq_ite, lookup_cons_eq_ite, if_neg hj, if_neg hj] at hj'
    rw [hvalue, hrest]

/-- Looking up in a list whose values are mapped. -/
theorem lookup_map_values (f : α → β) (l : List (String × α)) (k : String) :
    (l.map fun e => (e.1, f e.2)).lookup k = (l.lookup k).map f := by
  induction l with
  | nil => rfl
  | cons e rest ih =>
    rw [List.map_cons, lookup_cons_eq_ite, lookup_cons_eq_ite, ih]
    split_ifs <;> rfl

/-! ## Maps -/

@[simp] theorem get?_empty (k : String) : (empty : SortedMap α).get? k = none := rfl

/-- Altering a map is seen at the altered key only. -/
theorem get?_alter (m : SortedMap α) (key : String) (f : Option α → α) (k : String) :
    (m.alter key f).get? k = if k = key then some (f (m.get? key)) else m.get? k :=
  lookup_alterList m.ascending k

theorem get?_insert (m : SortedMap α) (key : String) (value : α) (k : String) :
    (m.insert key value).get? k = if k = key then some value else m.get? k :=
  get?_alter m key _ k

theorem get?_eq_none_of_notMem {m : SortedMap α} {k : String} (h : k ∉ m.keys) :
    m.get? k = none :=
  lookup_eq_none_of_notMem h

theorem exists_get?_of_mem {m : SortedMap α} {k : String} (h : k ∈ m.keys) :
    ∃ v, m.get? k = some v :=
  exists_lookup_of_mem h

theorem mem_keys_iff {m : SortedMap α} {k : String} : k ∈ m.keys ↔ ∃ v, m.get? k = some v :=
  ⟨exists_get?_of_mem, fun ⟨_, h⟩ => mem_of_lookup_eq_some h⟩

@[simp] theorem keys_mapValues (m : SortedMap α) (f : α → β) : (m.mapValues f).keys = m.keys := by
  simp [keys, mapValues, Function.comp_def]

@[simp] theorem get?_mapValues (m : SortedMap α) (f : α → β) (k : String) :
    (m.mapValues f).get? k = (m.get? k).map f :=
  lookup_map_values f m.entries k

/-- Maps with the same values at all keys are equal. -/
theorem eq_of_get?_eq {m n : SortedMap α} (h : ∀ k, m.get? k = n.get? k) : m = n := by
  obtain ⟨l, hl⟩ := m
  obtain ⟨l', hl'⟩ := n
  obtain rfl : l = l' := eq_of_lookup_eq hl hl' h
  rfl

/-- Altering a key that is there leaves the keys as they are. -/
theorem keys_alter {m : SortedMap α} {key : String} {f : Option α → α}
    (h : key ∈ m.keys) : (m.alter key f).keys = m.keys :=
  map_fst_alterList m.ascending h

/-- No key comes twice. -/
theorem nodup_keys (m : SortedMap α) : m.keys.Nodup :=
  List.Pairwise.imp (fun hlt => String.ne_of_lt hlt) m.ascending

/-- Two maps have the same list of keys if they have the same keys. -/
theorem keys_eq_iff {m : SortedMap α} {n : SortedMap β} :
    m.keys = n.keys ↔ ∀ k, k ∈ m.keys ↔ k ∈ n.keys := by
  constructor
  · intro h k
    rw [h]
  · intro h
    have hperm : m.keys.Perm n.keys :=
      (List.perm_ext_iff_of_nodup m.nodup_keys n.nodup_keys).mpr h
    exact hperm.eq_of_pairwise (fun a b _ _ hab hba => absurd hab (String.lt_asymm hba))
      m.ascending n.ascending

/-- Altering a map at the keys of a list of entries, each of which comes once,
is seen at those keys only, and there once. -/
theorem get?_foldl_alter (f : β → Option α → α) {l : List (String × β)}
    (h : (l.map Prod.fst).Nodup) (m : SortedMap α) (k : String) :
    (l.foldl (fun m e => m.alter e.1 (f e.2)) m).get? k
      = (l.lookup k).elim (m.get? k) fun v => some (f v (m.get? k)) := by
  induction l generalizing m with
  | nil => rfl
  | cons e rest ih =>
    obtain ⟨key, v⟩ := e
    rw [List.map_cons, List.nodup_cons] at h
    rw [List.foldl_cons, ih h.2, lookup_cons_eq_ite, get?_alter]
    by_cases hk : k = key
    · -- no later entry touches the key again
      subst hk
      rw [lookup_eq_none_of_notMem h.1, if_pos rfl, if_pos rfl]
      rfl
    · rw [if_neg hk, if_neg hk]

/-- Altering a map at keys that are there leaves the keys as they are. -/
theorem keys_foldl_alter (f : β → Option α → α) {l : List (String × β)}
    {m : SortedMap α} (h : ∀ k ∈ l.map Prod.fst, k ∈ m.keys) :
    (l.foldl (fun m e => m.alter e.1 (f e.2)) m).keys = m.keys := by
  induction l generalizing m with
  | nil => rfl
  | cons e rest ih =>
    have hkeys : (m.alter e.1 (f e.2)).keys = m.keys :=
      keys_alter (h e.1 (by simp))
    rw [List.foldl_cons, ih, hkeys]
    intro k hk
    rw [hkeys]
    exact h k (by simpa using Or.inr (by simpa using hk))

end SortedMap

end CorpusMark
