import CorpusMark.Text.Slice
import Mathlib.Data.List.Basic

/-!
# Cuts of a text

Two ways to cut a text at byte offsets are compared by `exists_between`: the
part before the later cut starts with the part before the earlier one. From it
follow the splits of a text into three at a range (`exists_split`) and the
slices that such splits give (`slice?_eq_some_iff`).
-/

namespace CorpusMark

namespace Text

theorem byteLength_eq_zero_iff {cs : List Char} : byteLength cs = 0 ↔ cs = [] := by
  cases cs with
  | nil => simp
  | cons c cs =>
    have := c.utf8Size_pos
    simp only [byteLength_cons, reduceCtorEq, iff_false]
    omega

/-- Two cuts of one text: the later part of it starts with what lies between. -/
theorem exists_between {a b pre tail : List Char} (h : pre ++ tail = a ++ b)
    (hlen : byteLength a ≤ byteLength pre) : ∃ gap, pre = a ++ gap ∧ b = gap ++ tail := by
  rcases List.append_eq_append_iff.mp h with ⟨x, rfl, rfl⟩ | ⟨gap, rfl, rfl⟩
  · have hx : x = [] := by
      rw [byteLength_append] at hlen
      exact byteLength_eq_zero_iff.mp (by omega)
    subst hx
    exact ⟨[], by simp, by simp⟩
  · exact ⟨gap, rfl, rfl⟩

/-- A text can be cut after a number of bytes in one way only. -/
theorem append_inj_of_byteLength {a b c d : List Char} (h : a ++ b = c ++ d)
    (hlen : byteLength a = byteLength c) : a = c ∧ b = d := by
  obtain ⟨gap, rfl, rfl⟩ := exists_between h (Nat.le_of_eq hlen.symm)
  have hnil : gap = [] := by
    rw [byteLength_append] at hlen
    exact byteLength_eq_zero_iff.mp (by omega)
  subst hnil
  simp

theorem isBoundary_iff {cs : List Char} {n : Nat} :
    isBoundary cs n = true ↔ ∃ before after, cs = before ++ after ∧ byteLength before = n := by
  rw [isBoundary, Option.isSome_iff_exists]
  constructor
  · rintro ⟨⟨before, after⟩, hcut⟩
    exact ⟨before, after, cut?_eq_some_iff.mp hcut⟩
  · rintro ⟨before, after, h⟩
    exact ⟨(before, after), cut?_eq_some_iff.mpr h⟩

/-- A range between two boundaries splits the text in three. -/
theorem exists_split {cs : List Char} {start stop : Nat} (hle : start ≤ stop)
    (hstart : isBoundary cs start = true) (hstop : isBoundary cs stop = true) :
    ∃ before mid after, cs = before ++ mid ++ after ∧ byteLength before = start ∧
      byteLength (before ++ mid) = stop := by
  obtain ⟨before, rest, rfl, rfl⟩ := isBoundary_iff.mp hstart
  obtain ⟨upto, after, hcut, rfl⟩ := isBoundary_iff.mp hstop
  obtain ⟨mid, rfl, rfl⟩ := exists_between hcut.symm hle
  exact ⟨before, mid, after, by simp, rfl, rfl⟩

/-- What stands between two cuts is the slice from the one to the other. -/
theorem slice?_eq_some {s : String} {before mid after : List Char}
    (h : s.toList = before ++ mid ++ after) :
    slice? s (byteLength before) (byteLength (before ++ mid)) = some (String.ofList mid) := by
  have hstart : cut? s.toList (byteLength before) = some (before, mid ++ after) :=
    cut?_eq_some_iff.mpr ⟨by rw [h, List.append_assoc], rfl⟩
  have hstop : cut? (mid ++ after) (byteLength mid) = some (mid, after) :=
    cut?_eq_some_iff.mpr ⟨rfl, rfl⟩
  simp [slice?, range?, hstart, hstop]

/-- A slice is a part of the text that starts and ends at the given bytes. -/
theorem slice?_eq_some_iff {s part : String} {start stop : Nat} :
    slice? s start stop = some part ↔ ∃ before after,
      s.toList = before ++ part.toList ++ after ∧ byteLength before = start ∧
        byteLength (before ++ part.toList) = stop := by
  constructor
  · intro h
    obtain ⟨mid, hrange, rfl⟩ := Option.map_eq_some_iff.mp h
    by_cases hle : start ≤ stop
    · simp only [range?, if_pos hle, Option.bind_eq_bind, Option.bind_eq_some_iff] at hrange
      obtain ⟨⟨before, rest⟩, hcut, ⟨mid', after⟩, hcut', heq⟩ := hrange
      cases heq
      obtain ⟨hs, rfl⟩ := cut?_eq_some_iff.mp hcut
      obtain ⟨rfl, hlen⟩ := cut?_eq_some_iff.mp hcut'
      refine ⟨before, after, by simp [hs], rfl, ?_⟩
      show byteLength (before ++ (String.ofList mid').toList) = stop
      rw [String.toList_ofList, byteLength_append, hlen, Nat.add_sub_cancel' hle]
    · rw [range?, if_neg hle] at hrange
      cases hrange
  · rintro ⟨before, after, hs, rfl, rfl⟩
    have hslice := slice?_eq_some hs
    rwa [String.ofList_toList] at hslice

end Text

end CorpusMark
