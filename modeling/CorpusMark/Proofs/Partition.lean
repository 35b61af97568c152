import CorpusMark.Partition
import Mathlib.Data.List.Basic
import Mathlib.Data.List.Pairwise

/-!
# Parts tile the corpus

`Tiles start ranges stop` says that ranges follow each other without a gap or
an overlap and together make up `start, …, stop - 1`. That is all the later
theory uses about a division into parts; `tiles_splitContiguous` is where it
comes from.
-/

namespace CorpusMark

namespace IndexRange

instance : Membership Nat IndexRange := ⟨fun r i => r.start ≤ i ∧ i < r.stop⟩

theorem mem_iff {r : IndexRange} {i : Nat} : i ∈ r ↔ r.start ≤ i ∧ i < r.stop :=
  Iff.rfl

instance (r : IndexRange) (i : Nat) : Decidable (i ∈ r) :=
  inferInstanceAs (Decidable (r.start ≤ i ∧ i < r.stop))

end IndexRange

/-- Ranges that follow each other from `start` to `stop`. -/
def Tiles : Nat → List IndexRange → Nat → Prop
  | start, [], stop => start = stop
  | start, r :: rest, stop => r.start = start ∧ start ≤ r.stop ∧ Tiles r.stop rest stop

namespace Tiles

theorem le : ∀ {ranges : List IndexRange} {start stop : Nat},
    Tiles start ranges stop → start ≤ stop
  | [], _, _, h => Nat.le_of_eq h
  | _ :: _, _, _, ⟨_, hle, hrest⟩ => Nat.le_trans hle hrest.le

/-- Every range of a tiling lies within it. -/
theorem bounds {ranges : List IndexRange} {start stop : Nat} (h : Tiles start ranges stop)
    {r : IndexRange} (hr : r ∈ ranges) :
    start ≤ r.start ∧ r.start ≤ r.stop ∧ r.stop ≤ stop := by
  induction ranges generalizing start with
  | nil => cases hr
  | cons s rest ih =>
    obtain ⟨hstart, hle, hrest⟩ := h
    rcases List.mem_cons.mp hr with rfl | hr
    · exact ⟨Nat.le_of_eq hstart.symm, hstart ▸ hle, hrest.le⟩
    · obtain ⟨h₁, h₂, h₃⟩ := ih hrest hr
      exact ⟨Nat.le_trans hle h₁, h₂, h₃⟩

/-- Of two ranges of a tiling the earlier one ends before the later one starts. -/
theorem pairwise {ranges : List IndexRange} {start stop : Nat}
    (h : Tiles start ranges stop) :
    ranges.Pairwise fun r s => r.stop ≤ s.start := by
  induction ranges generalizing start with
  | nil => exact List.Pairwise.nil
  | cons r rest ih =>
    obtain ⟨-, -, hrest⟩ := h
    exact List.pairwise_cons.mpr ⟨fun s hs => (hrest.bounds hs).1, ih hrest⟩

/-- Ranges that follow each other cut a stretch of a list into pieces. -/
theorem flatMap_take_drop {α : Type} (l : List α) {ranges : List IndexRange} {start stop : Nat}
    (h : Tiles start ranges stop) :
    (ranges.flatMap fun r => (l.drop r.start).take r.length)
      = (l.drop start).take (stop - start) := by
  induction ranges generalizing start with
  | nil =>
    have hstart : start = stop := h
    simp [hstart]
  | cons r rest ih =>
    obtain ⟨rfl, hle, hrest⟩ := h
    have hlen : stop - r.start = r.length + (stop - r.stop) := by
      have := hrest.le
      rw [IndexRange.length]
      omega
    have hdrop : (l.drop r.start).drop r.length = l.drop r.stop := by
      rw [List.drop_drop, IndexRange.length, Nat.add_sub_cancel' hle]
    rw [List.flatMap_cons, ih hrest, hlen, List.take_add, hdrop]

end Tiles

/-- From part `i` on, of which there are `n + 1`, the parts tile what is left. -/
theorem tiles_map_range' {length parts size : Nat} (hsize : parts * size ≤ length) :
    ∀ n i, i + (n + 1) = parts →
      Tiles (i * size)
        ((List.range' i (n + 1)).map fun i =>
          (⟨i * size, if i + 1 = parts then length else i * size + size⟩ : IndexRange))
        length := by
  intro n
  induction n with
  | zero =>
    -- the last part takes everything that is left over
    intro i hi
    have hle : i * size ≤ length :=
      calc i * size ≤ parts * size := Nat.mul_le_mul_right size (by omega)
        _ ≤ length := hsize
    refine ⟨rfl, ?_, ?_⟩
    · show i * size ≤ if i + 1 = parts then length else _
      rw [if_pos hi]
      exact hle
    · show (if i + 1 = parts then length else _) = length
      rw [if_pos hi]
  | succ n ih =>
    intro i hi
    have hstop : (if i + 1 = parts then length else i * size + size) = (i + 1) * size := by
      rw [if_neg (by omega), Nat.succ_mul]
    rw [List.range'_succ, List.map_cons]
    refine ⟨rfl, ?_, ?_⟩
    · show i * size ≤ if i + 1 = parts then length else _
      rw [hstop]
      exact Nat.mul_le_mul_right size (Nat.le_succ i)
    · show Tiles (if i + 1 = parts then length else _) _ _
      rw [hstop]
      exact ih (i + 1) (by omega)

/-- **The parts of a corpus tile it**: each sample is in exactly one of them. -/
theorem tiles_splitContiguous {length parts : Nat} (h : 0 < parts) :
    Tiles 0 (splitContiguous length parts) length := by
  obtain ⟨n, rfl⟩ := Nat.exists_eq_succ_of_ne_zero (Nat.pos_iff_ne_zero.mp h)
  have htiles := tiles_map_range' (Nat.mul_div_le length (n + 1)) n 0 (Nat.zero_add _)
  rw [Nat.zero_mul] at htiles
  rw [splitContiguous, List.range_eq_range']
  exact htiles

@[simp] theorem length_splitContiguous (length parts : Nat) :
    (splitContiguous length parts).length = parts := by
  simp [splitContiguous]

end CorpusMark
