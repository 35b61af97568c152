import CorpusMark.Backdoor
import CorpusMark.Proofs.Catalogs
import Mathlib.Data.List.Basic
import Mathlib.Data.List.Forall2
import Mathlib.Tactic.SplitIfs

/-!
# Accepted backdoors

Every transform of a backdoor that was read with a catalog is one of the catalog
(`Backdoor.mem_of_parse`). The backdoors of all parts are read one by one,
numbered in order (`Backdoor.forall₂_of_parseAll`), and there is at least one.
-/

namespace CorpusMark

namespace Backdoor

variable {catalog : Catalog}

theorem mem_of_parseTerm {entry : String} {t : Term}
    (h : Term.parse catalog entry = .ok t) : t.transform ∈ catalog.transforms := by
  unfold Term.parse at h
  obtain ⟨transform, hlookup, h⟩ := Attempts.bind_eq_ok_iff.mp h
  have hmem := (Catalog.mem_of_lookup hlookup).1
  split at h
  · cases h
    exact hmem
  · split at h
    · cases h
      exact hmem
    · cases h

/-- The terms that were read before stay in front of the others. -/
theorem mem_of_parseTerms {part : Nat} {entries : List String} :
    ∀ {known terms : List Term}, parseTerms catalog part known entries = .ok terms →
      (∀ t ∈ known, t.transform ∈ catalog.transforms) →
      ∀ t ∈ terms, t.transform ∈ catalog.transforms := by
  induction entries with
  | nil =>
    intro known terms h hknown
    cases h
    exact hknown
  | cons entry rest ih =>
    intro known terms h hknown
    rw [parseTerms] at h
    obtain ⟨term, hterm, h⟩ := Attempts.bind_eq_ok_iff.mp h
    split_ifs at h with hrepeated
    · cases h
    · refine ih h fun t ht => ?_
      rcases List.mem_append.mp ht with ht | ht
      · exact hknown t ht
      · rw [List.mem_singleton.mp ht]
        exact mem_of_parseTerm hterm

/-- **The transforms of a backdoor are those of its catalog.** -/
theorem mem_of_parse {part : Nat} {entries : List String} {b : Backdoor}
    (h : parse catalog part entries = .ok b) :
    ∀ t ∈ b.terms, t.transform ∈ catalog.transforms := by
  unfold parse at h
  split_ifs at h with hempty
  obtain ⟨terms, hterms, h⟩ := Attempts.bind_eq_ok_iff.mp h
  cases h
  exact mem_of_parseTerms hterms (by simp)

theorem part_of_parse {part : Nat} {entries : List String} {b : Backdoor}
    (h : parse catalog part entries = .ok b) : b.part = part := by
  unfold parse at h
  split_ifs at h with hempty
  obtain ⟨terms, -, h⟩ := Attempts.bind_eq_ok_iff.mp h
  cases h
  rfl

/-- The parts are read from left to right. -/
theorem parseFrom_eq_mapM (catalog : Catalog) (part : Nat) (lists : List (List String)) :
    parseFrom catalog part lists
      = (lists.zipIdx part).mapM fun x => parse catalog x.2 x.1 := by
  induction lists generalizing part with
  | nil => rfl
  | cons entries rest ih =>
    rw [parseFrom, List.zipIdx_cons, List.mapM_cons]
    simp only [ih]

/-- **The backdoors of all parts** are read one by one, each under its number. -/
theorem forall₂_of_parseAll {lists : List (List String)} {backdoors : List Backdoor}
    (h : parseAll catalog lists = .ok backdoors) :
    List.Forall₂ (fun e b => parse catalog e.2 e.1 = .ok b) lists.zipIdx backdoors := by
  unfold parseAll at h
  split_ifs at h with hempty
  rw [parseFrom_eq_mapM] at h
  exact Attempts.mapM_eq_ok_iff.mp h

theorem length_of_parseAll {lists : List (List String)} {backdoors : List Backdoor}
    (h : parseAll catalog lists = .ok backdoors) : backdoors.length = lists.length := by
  rw [← (forall₂_of_parseAll h).length_eq, List.length_zipIdx]

/-- The parts are numbered in order. -/
theorem map_part_of_parseAll {lists : List (List String)} {backdoors : List Backdoor}
    (h : parseAll catalog lists = .ok backdoors) :
    backdoors.map Backdoor.part = List.range backdoors.length := by
  have hpart : lists.zipIdx.map Prod.snd = backdoors.map Backdoor.part := by
    rw [← List.forall₂_eq_eq_eq, List.forall₂_map_left_iff, List.forall₂_map_right_iff]
    exact (forall₂_of_parseAll h).imp fun _ _ hb => (part_of_parse hb).symm
  rw [← hpart, List.zipIdx_map_snd, length_of_parseAll h, List.range_eq_range']

/-- The transforms of all backdoors are those of their catalog. -/
theorem mem_of_parseAll {lists : List (List String)} {backdoors : List Backdoor}
    (h : parseAll catalog lists = .ok backdoors) {b : Backdoor} (hb : b ∈ backdoors) :
    ∀ t ∈ b.terms, t.transform ∈ catalog.transforms := by
  have hread : List.Forall₂ (fun b _ => (∀ t ∈ b.terms, t.transform ∈ catalog.transforms) ∧ True)
      backdoors lists.zipIdx :=
    (forall₂_of_parseAll h).flip.imp fun _ _ hb => ⟨mem_of_parse hb, trivial⟩
  exact ((List.forall₂_and_left _ _).mp hread).1 b hb

theorem ne_nil_of_parseAll {lists : List (List String)} {backdoors : List Backdoor}
    (h : parseAll catalog lists = .ok backdoors) : backdoors ≠ [] := by
  have hlen := length_of_parseAll h
  unfold parseAll at h
  split_ifs at h with hempty
  rintro rfl
  exact hempty (List.isEmpty_iff_length_eq_zero.mpr hlen.symm)

end Backdoor

end CorpusMark
