/-!
# Maps in key order

Finite maps from names to values, kept as a list of pairs with strictly ascending keys, so that
equal maps are equal lists and every listing comes out in key order.
-/

namespace CorpusMark

/-- A finite map whose keys are in ascending order. -/
structure SortedMap (α : Type) where
  entries : List (String × α)
  ascending : (entries.map Prod.fst).Pairwise (· < ·)

namespace SortedMap

variable {α β : Type}

/-- Puts `f` of the value at a key, if there is one, into a list of ascending keys. -/
def alterList (key : String) (f : Option α → α) : List (String × α) → List (String × α)
  | [] => [(key, f none)]
  | (k, v) :: rest =>
    if key < k then (key, f none) :: (k, v) :: rest
    else if key = k then (k, f (some v)) :: rest
    else (k, v) :: alterList key f rest

theorem fst_mem_alterList {key k : String} {f : Option α → α} {l : List (String × α)}
    (h : k ∈ (alterList key f l).map Prod.fst) : k = key ∨ k ∈ l.map Prod.fst := by
  induction l with
  | nil => simpa [alterList] using h
  | cons p rest ih =>
    obtain ⟨k', v⟩ := p
    rw [alterList] at h
    split at h
    · simpa using h
    · split at h
      · simp only [List.map_cons, List.mem_cons] at h ⊢
        exact Or.inr h
      · simp only [List.map_cons, List.mem_cons] at h ⊢
        rcases h with h | h
        · exact Or.inr (Or.inl h)
        · exact (ih h).imp_right Or.inr

theorem alterList_ascending {key : String} {f : Option α → α} {l : List (String × α)}
    (h : (l.map Prod.fst).Pairwise (· < ·)) :
    ((alterList key f l).map Prod.fst).Pairwise (· < ·) := by
  induction l with
  | nil => simp [alterList]
  | cons p rest ih =>
    obtain ⟨k, v⟩ := p
    rw [List.map_cons, List.pairwise_cons] at h
    rw [alterList]
    split
    · rename_i hlt
      simp only [List.map_cons, List.pairwise_cons, List.mem_cons]
      refine ⟨?_, h⟩
      rintro a (rfl | ha)
      · exact hlt
      · exact String.lt_trans hlt (h.1 a ha)
    · split
      · exact List.pairwise_cons.2 h
      · rename_i hlt hne
        rw [List.map_cons, List.pairwise_cons]
        refine ⟨?_, ih h.2⟩
        intro a ha
        rcases fst_mem_alterList ha with rfl | ha
        · exact String.not_le.1 fun hle => hne (String.le_antisymm hle (String.not_lt.1 hlt))
        · exact h.1 a ha

/-- The map without entries. -/
def empty : SortedMap α := ⟨[], List.Pairwise.nil⟩

instance : Inhabited (SortedMap α) := ⟨empty⟩

/-- Replaces the value at a key by `f` of it, or puts in `f none`. -/
def alter (m : SortedMap α) (key : String) (f : Option α → α) : SortedMap α :=
  ⟨alterList key f m.entries, alterList_ascending m.ascending⟩

/-- Sets the value at a key. -/
def insert (m : SortedMap α) (key : String) (value : α) : SortedMap α :=
  m.alter key fun _ => value

/-- The value at a key. -/
def get? (m : SortedMap α) (key : String) : Option α :=
  m.entries.lookup key

/-- The map without a key. -/
def erase (m : SortedMap α) (key : String) : SortedMap α where
  entries := m.entries.filter (·.1 ≠ key)
  ascending := m.ascending.sublist ((List.filter_sublist).map _)

/-- The keys in ascending order. -/
def keys (m : SortedMap α) : List String :=
  m.entries.map Prod.fst

/-- Applies a function to every value. -/
def mapValues (m : SortedMap α) (f : α → β) : SortedMap β where
  entries := m.entries.map fun (k, v) => (k, f v)
  ascending := by simpa [List.map_map, Function.comp_def] using m.ascending

/-- The map of a list of entries; of several with one key the last counts. -/
def ofList (entries : List (String × α)) : SortedMap α :=
  entries.foldl (fun m (k, v) => m.insert k v) empty

end SortedMap

end CorpusMark
