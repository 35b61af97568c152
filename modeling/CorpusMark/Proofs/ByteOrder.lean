import Mathlib.Data.List.Basic
import Mathlib.Data.String.Basic
import Mathlib.Tactic.SplitIfs

/-!
# Names in byte order

A file system knows the bytes of a name, and the order of names is that of their
bytes. Texts are compared by their characters. In UTF-8 both come to the same
(`lt_iff_bytesBefore`): of two characters the smaller one has the smaller byte where
their bytes first differ, and they differ before either ends (`utf8EncodeChar_lt`).
-/

namespace CorpusMark.ByteOrder

/-- The UTF-8 bytes of a text. -/
def bytes (s : String) : List UInt8 := s.toUTF8.data.toList

/-- Whether the bytes of a text come before those of another one: the first byte that
differs is smaller, or the text ends there. -/
def BytesBefore (s t : String) : Prop := bytes s < bytes t

instance (s t : String) : Decidable (BytesBefore s t) :=
  inferInstanceAs (Decidable (bytes s < bytes t))

theorem bytes_eq (s : String) : bytes s = s.toList.flatMap String.utf8EncodeChar := by
  rw [bytes, String.toUTF8_eq_toByteArray]
  conv_lhs => rw [← String.ofList_toList (s := s), String.toByteArray_ofList]
  rw [List.utf8Encode, List.toList_data_toByteArray]

/-- Bytes that start alike, or with a smaller one. -/
theorem ofNat_cons_lt {a b : Nat} {l l' : List UInt8} (hb : b < 256) (hle : a ≤ b)
    (h : a = b → l < l') : UInt8.ofNat a :: l < UInt8.ofNat b :: l' := by
  rw [List.cons_lt_cons_iff]
  rcases Nat.lt_or_eq_of_le hle with hlt | heq
  · exact .inl ((UInt8.ofNat_lt_iff_lt (Nat.lt_trans hlt hb) hb).mpr hlt)
  · exact .inr ⟨by rw [heq], h heq⟩

/-- The bytes of a smaller character come first, whatever follows. -/
theorem utf8EncodeChar_lt {c d : Char} (h : c < d) (l l' : List UInt8) :
    String.utf8EncodeChar c ++ l < String.utf8EncodeChar d ++ l' := by
  have hlt : c.val.toNat < d.val.toNat := h
  have hmax : d.val.toNat < 0x110000 := by
    have hvalid := d.valid
    unfold UInt32.isValidChar Nat.isValidChar at hvalid
    omega
  unfold String.utf8EncodeChar
  generalize c.val.toNat = v at hlt
  generalize d.val.toNat = w at hlt hmax
  dsimp only
  -- numbers of bytes that differ show in the first byte, equal ones are compared byte by byte
  split_ifs
  · exact ofNat_cons_lt (by omega) (by omega) fun _ => by omega
  · exact ofNat_cons_lt (by omega) (by omega) fun _ => by omega
  · exact ofNat_cons_lt (by omega) (by omega) fun _ => by omega
  · exact ofNat_cons_lt (by omega) (by omega) fun _ => by omega
  · omega
  · refine ofNat_cons_lt (by omega) (by omega) fun _ => ?_
    exact ofNat_cons_lt (by omega) (by omega) fun _ => by omega
  · exact ofNat_cons_lt (by omega) (by omega) fun _ => by omega
  · exact ofNat_cons_lt (by omega) (by omega) fun _ => by omega
  · omega
  · omega
  · refine ofNat_cons_lt (by omega) (by omega) fun _ => ?_
    refine ofNat_cons_lt (by omega) (by omega) fun _ => ?_
    exact ofNat_cons_lt (by omega) (by omega) fun _ => by omega
  · exact ofNat_cons_lt (by omega) (by omega) fun _ => by omega
  · omega
  · omega
  · omega
  · refine ofNat_cons_lt (by omega) (by omega) fun _ => ?_
    refine ofNat_cons_lt (by omega) (by omega) fun _ => ?_
    refine ofNat_cons_lt (by omega) (by omega) fun _ => ?_
    exact ofNat_cons_lt (by omega) (by omega) fun _ => by omega

/-- A list of characters that comes first has the bytes that come first. -/
theorem flatMap_utf8EncodeChar_lt {cs ds : List Char} (h : cs < ds) :
    cs.flatMap String.utf8EncodeChar < ds.flatMap String.utf8EncodeChar := by
  induction h with
  | @nil d ds =>
    -- every character has a byte
    cases hd : String.utf8EncodeChar d with
    | nil => exact absurd hd String.utf8EncodeChar_ne_nil
    | cons b bs =>
      rw [List.flatMap_cons, hd]
      exact List.Lex.nil
  | rel h =>
    rw [List.flatMap_cons, List.flatMap_cons]
    exact utf8EncodeChar_lt h _ _
  | cons _ ih =>
    rw [List.flatMap_cons, List.flatMap_cons]
    exact List.append_left_lt ih

/-- **The order of texts is that of their bytes.** -/
theorem lt_iff_bytesBefore {s t : String} : s < t ↔ BytesBefore s t := by
  have hmono : ∀ {s t : String}, s < t → BytesBefore s t := by
    intro s t h
    rw [BytesBefore, bytes_eq, bytes_eq]
    exact flatMap_utf8EncodeChar_lt (String.lt_iff_toList_lt.mp h)
  refine ⟨hmono, fun h => ?_⟩
  rcases lt_trichotomy s t with hlt | heq | hgt
  · exact hlt
  · subst heq
    exact absurd h (List.lt_irrefl _)
  · exact absurd h (List.lt_asymm (hmono hgt))

end CorpusMark.ByteOrder
