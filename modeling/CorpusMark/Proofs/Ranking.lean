import CorpusMark.Proofs.Selection

/-!
# Selections under any hash

Nothing that a selection promises depends on how well a hash spreads the indices.
`SelectionOrder.Arranges` says what it means that a list is arranged, without a
sort: it has the indices it was given, equal ones included, each no later than the
next. Where two hashes collide the index decides, so a list can be arranged in one
way only (`Arranges.unique`) and the order in which the indices were listed is
forgotten. `selectBy_outcome` states the selection in these terms.
-/

namespace CorpusMark

namespace SelectionOrder

variable {hash : UInt64 → Nat → UInt64} {order : SelectionOrder}

/-- Whether `i` is considered no later than `j`: by index, or by hash and, where the
hashes are equal, by index. -/
def NoLater (hash : UInt64 → Nat → UInt64) : SelectionOrder → Nat → Nat → Prop
  | index, i, j => i ≤ j
  | hashed seed, i, j => hash seed i < hash seed j ∨ (hash seed i = hash seed j ∧ i ≤ j)

/-- The indices in the order in which they are considered. -/
structure Arranges (hash : UInt64 → Nat → UInt64) (order : SelectionOrder)
    (indices ranked : List Nat) : Prop where
  perm : ranked.Perm indices
  ordered : ranked.Pairwise (order.NoLater hash)

theorem NoLater.antisymm {i j : Nat} (hij : order.NoLater hash i j)
    (hji : order.NoLater hash j i) : i = j := by
  cases order with
  | index => exact Nat.le_antisymm hij hji
  | hashed seed =>
    simp only [NoLater, UInt64.lt_iff_toNat_lt, ← UInt64.toNat_inj] at hij hji
    omega

/-- **Indices can be arranged in one way only**, in whatever order they are listed. -/
theorem Arranges.unique {indices indices' ranked ranked' : List Nat}
    (h : order.Arranges hash indices ranked) (h' : order.Arranges hash indices' ranked')
    (hperm : indices'.Perm indices) : ranked' = ranked := by
  have hranked : ranked'.Perm ranked := h'.perm.trans (hperm.trans h.perm.symm)
  exact hranked.eq_of_pairwise (fun _ _ _ _ => NoLater.antisymm) h'.ordered h.ordered

theorem arranges_arrangeBy (hash : UInt64 → Nat → UInt64) (order : SelectionOrder)
    (indices : List Nat) : order.Arranges hash indices (order.arrangeBy hash indices) where
  perm := order.arrangeBy_perm hash indices
  ordered := by
    cases order with
    | index => exact List.pairwise_mergeSort' (· ≤ ·) indices
    | hashed seed =>
      have hle := List.pairwise_mergeSort (rankedLe_trans (hash seed))
        (rankedLe_total (hash seed)) indices
      refine hle.imp fun {i j} hij => ?_
      rw [rankedLe_iff] at hij
      simpa only [NoLater, UInt64.lt_iff_toNat_lt, ← UInt64.toNat_inj] using hij

theorem arrangeBy_eq_of_perm {indices indices' : List Nat} (h : indices'.Perm indices) :
    order.arrangeBy hash indices' = order.arrangeBy hash indices :=
  (arranges_arrangeBy hash order indices).unique (arranges_arrangeBy hash order indices') h

end SelectionOrder

/-- No more samples are selected than there are. -/
theorem selectionSize_le (rate : Double) (n : Nat) : selectionSize rate n ≤ n := by
  unfold selectionSize Double.nearestNat
  split_ifs
  · exact Nat.zero_le n
  · exact Nat.le_refl n
  · exact Nat.min_le_right _ n

section SelectBy

variable {hash : UInt64 → Nat → UInt64} {order : SelectionOrder} {rate : Double}
  {eligible : List Nat}

theorem marked_selectBy_perm :
    (selectBy hash order rate eligible).marked.toList.Perm
      ((order.arrangeBy hash eligible).take (selectionSize rate eligible.length)) := by
  rw [marked_selectBy]
  exact List.mergeSort_perm _ _

theorem clean_selectBy_perm :
    (selectBy hash order rate eligible).clean.toList.Perm
      ((order.arrangeBy hash eligible).drop (selectionSize rate eligible.length)) := by
  rw [clean_selectBy]
  exact List.mergeSort_perm _ _

/-- No index is lost or doubled. -/
theorem marked_append_clean_selectBy_perm :
    ((selectBy hash order rate eligible).marked.toList ++
      (selectBy hash order rate eligible).clean.toList).Perm eligible := by
  refine (marked_selectBy_perm.append clean_selectBy_perm).trans ?_
  rw [List.take_append_drop]
  exact order.arrangeBy_perm hash eligible

theorem selectBy_eq_of_perm {eligible' : List Nat} (h : eligible'.Perm eligible) :
    selectBy hash order rate eligible' = selectBy hash order rate eligible := by
  rw [selectBy, SelectionOrder.arrangeBy_eq_of_perm h, selectBy]

end SelectBy

/-- **What is selected, whatever the hash.** The first ones of the arranged indices are
marked, as many as the rate asks for and never more than there are. Marked and clean
indices are both ascending and together they are the eligible ones. An index counts as
selected exactly if it is marked, and the order in which the eligible indices are listed
has no influence. -/
theorem selectBy_outcome (hash : UInt64 → Nat → UInt64) (order : SelectionOrder)
    (rate : Double) (eligible : List Nat) :
    (∃ ranked, order.Arranges hash eligible ranked ∧
        (selectBy hash order rate eligible).marked.toList.Perm
          (ranked.take (selectionSize rate eligible.length)) ∧
        (selectBy hash order rate eligible).clean.toList.Perm
          (ranked.drop (selectionSize rate eligible.length))) ∧
      selectionSize rate eligible.length ≤ eligible.length ∧
      (selectBy hash order rate eligible).marked.toList.Pairwise (· ≤ ·) ∧
      (selectBy hash order rate eligible).clean.toList.Pairwise (· ≤ ·) ∧
      ((selectBy hash order rate eligible).marked.toList ++
        (selectBy hash order rate eligible).clean.toList).Perm eligible ∧
      (∀ i, (selectBy hash order rate eligible).isSelected i = true ↔
        i ∈ (selectBy hash order rate eligible).marked) ∧
      ∀ eligible' : List Nat, eligible'.Perm eligible →
        selectBy hash order rate eligible' = selectBy hash order rate eligible := by
  refine ⟨⟨order.arrangeBy hash eligible, ?_, marked_selectBy_perm, clean_selectBy_perm⟩,
    selectionSize_le rate eligible.length, pairwise_marked_selectBy, ?_,
    marked_append_clean_selectBy_perm, fun i => isSelected_selectBy_iff_mem,
    fun eligible' hperm => selectBy_eq_of_perm hperm⟩
  · exact SelectionOrder.arranges_arrangeBy hash order eligible
  · rw [clean_selectBy]
    exact List.pairwise_mergeSort' (· ≤ ·) _

/-- Half of four indices, one of them listed twice, under a hash that takes 5 and 9 for
the same. -/
theorem selectBy_outcome_collision :
    [5, 2, 5, 9].Perm [9, 5, 2, 5] ∧
      selectBy (fun _ i => UInt64.ofNat (i % 4)) (.hashed 7) ⟨0x3fe0000000000000⟩ [9, 5, 2, 5]
        = ⟨#[5, 5], #[2, 9]⟩ ∧
      selectBy (fun _ i => UInt64.ofNat (i % 4)) (.hashed 7) ⟨0x3fe0000000000000⟩ [5, 2, 5, 9]
        = ⟨#[5, 5], #[2, 9]⟩ := by
  have hperm : [5, 2, 5, 9].Perm [9, 5, 2, 5] := by decide
  have hsize : selectionSize ⟨0x3fe0000000000000⟩ 4 = 2 := by decide +kernel
  have harrange : SelectionOrder.arrangeBy (fun _ i => UInt64.ofNat (i % 4)) (.hashed 7)
      [9, 5, 2, 5] = [5, 5, 9, 2] := by cbv
  have hselect : selectBy (fun _ i => UInt64.ofNat (i % 4)) (.hashed 7) ⟨0x3fe0000000000000⟩
      [9, 5, 2, 5] = ⟨#[5, 5], #[2, 9]⟩ := by
    simp only [selectBy, harrange, List.length_cons, List.length_nil, Nat.reduceAdd, hsize]
    cbv
  obtain ⟨-, -, -, -, -, -, hlisted⟩ := selectBy_outcome (fun _ i => UInt64.ofNat (i % 4))
    (.hashed 7) ⟨0x3fe0000000000000⟩ [9, 5, 2, 5]
  exact ⟨hperm, hselect, (hlisted _ hperm).trans hselect⟩

end CorpusMark
