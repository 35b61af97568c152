import CorpusMark.Files.Tree
import Mathlib.Data.List.Basic
import Mathlib.Tactic.SplitIfs

/-!
# Paths with the same beginning

Paths that are the same up to a point in their last name are resolved the same
way up to that name: both are absolute or neither is (`isAbsolute_append`), the
steps to them differ in the last one only (`exists_steps_append`), and the names of
the files begin in the same way (`exists_fileName?_append`).
-/

namespace CorpusMark.Path

theorem isAbsolute_append (path : String) {ending : String} (h : '/' ∉ ending.toList) :
    isAbsolute (path ++ ending) = isAbsolute path := by
  unfold isAbsolute
  rw [Bool.eq_iff_iff, String.startsWith_string_iff, String.startsWith_string_iff,
    String.toList_append]
  cases path.toList with
  | nil =>
    cases hending : ending.toList with
    | nil => rfl
    | cons c cs =>
      rw [hending, List.mem_cons, not_or] at h
      simp [h.1]
  | cons c cs => simp

/-- What follows a path that is joined to a directory does not affect the joining. -/
theorem join_append (dir path : String) {ending : String} (h : '/' ∉ ending.toList) :
    join dir (path ++ ending) = join dir path ++ ending := by
  have habsolute : (path ++ ending).startsWith "/" = path.startsWith "/" :=
    isAbsolute_append path h
  unfold join
  rw [habsolute]
  split_ifs <;> simp [String.append_assoc]

/-- A text is what follows its last slash, or it has no slash. -/
theorem splitOn_append_of_notMem (cs : List Char) :
    ∃ front last, ∀ ending : List Char, '/' ∉ ending →
      (cs ++ ending).splitOn '/' = front ++ [last ++ ending] := by
  by_cases hslash : '/' ∈ cs
  · obtain ⟨last, front, hcs, hlast⟩ := List.eq_append_cons_of_mem (List.mem_reverse.mpr hslash)
    refine ⟨front.reverse.splitOn '/', last.reverse, fun ending hending => ?_⟩
    have hrev : cs = front.reverse ++ '/' :: last.reverse := by
      rw [← List.reverse_reverse cs, hcs]
      simp
    have hrest : '/' ∉ last.reverse ++ ending := by simp [hlast, hending]
    rw [hrev, List.append_assoc, List.cons_append, List.splitOn_append_cons_self,
      List.splitOn_eq_singleton hrest]
  · refine ⟨[], cs, fun ending hending => ?_⟩
    rw [List.nil_append, List.splitOn_eq_singleton]
    simp [hslash, hending]

/-- The names of paths that begin in the same way differ in the last one only. -/
theorem exists_names_append (path : String) :
    ∃ common last, ∀ ending : String, ending ≠ "" → '/' ∉ ending.toList →
      names (path ++ ending) = common ++ [last ++ ending] := by
  obtain ⟨front, last, hsplit⟩ := splitOn_append_of_notMem path.toList
  refine ⟨(front.filter (!·.isEmpty)).map String.ofList, String.ofList last,
    fun ending hne hslash => ?_⟩
  have hkept : (last ++ ending.toList).isEmpty = false := by
    simp [mt String.toList_eq_nil_iff.mp hne]
  rw [names, String.toList_append, hsplit _ hslash]
  simp [hkept, String.ofList_append]

/-- Ending in a text is having its characters at the end. -/
theorem endsWith_iff {s ending : String} :
    s.endsWith ending = true ↔ ending.toList <:+ s.toList := by
  rw [← String.endsWith_toSlice, String.Slice.endsWith_string_iff, String.copy_toSlice]

/-- What ends in something without a slash does not end in a slash. -/
theorem endsWith_append_eq_false (path : String) {ending : String} (hne : ending ≠ "")
    (hslash : '/' ∉ ending.toList) : (path ++ ending).endsWith "/" = false := by
  rw [← Bool.not_eq_true, endsWith_iff, String.toList_append]
  rintro ⟨before, hbefore⟩
  -- the slash at the end would be in the ending
  have hlast := congrArg List.getLast? hbefore
  rw [List.getLast?_append_of_ne_nil _ (by simp),
    List.getLast?_append_of_ne_nil _ (mt String.toList_eq_nil_iff.mp hne)] at hlast
  exact hslash (List.mem_of_getLast? hlast.symm)

/-- The steps of paths that begin in the same way differ in the last one only. -/
theorem exists_steps_append (path : String) :
    ∃ common last, ∀ ending : String, ending ≠ "" → '/' ∉ ending.toList →
      FileTree.steps (path ++ ending) = common ++ [last ++ ending] := by
  obtain ⟨common, last, hnames⟩ := exists_names_append path
  refine ⟨common, last, fun ending hne hslash => ?_⟩
  rw [FileTree.steps, endsWith_append_eq_false path hne hslash, hnames ending hne hslash]
  simp

/-- The significant ones among the names of a path. -/
def significant (absolute : Bool) (all : List String) : List String :=
  match all with
  | "." :: rest => if absolute then rest.filter (· ≠ ".") else "." :: rest.filter (· ≠ ".")
  | all => all.filter (· ≠ ".")

theorem significantNames_eq (path : String) :
    significantNames path = significant (isAbsolute path) (names path) := rfl

/-- The last name stays if it does not stand for the directory it is in. -/
theorem significant_concat (absolute : Bool) (front : List String) {last : String}
    (hlast : last ≠ ".") :
    significant absolute (front ++ [last]) = significant absolute front ++ [last] := by
  cases front with
  | nil => simp [significant, hlast]
  | cons first rest =>
    by_cases hfirst : first = "."
    · subst hfirst
      cases absolute <;> simp [significant, hlast]
    · simp [significant, hfirst, hlast]

/-- The last name of a path that is continued by an ending with an underscore. -/
theorem exists_fileName?_append (path : String) :
    ∃ last, ∀ ending : String, '_' ∈ ending.toList → '/' ∉ ending.toList →
      fileName? (path ++ ending) = some (last ++ ending) := by
  obtain ⟨common, last, hnames⟩ := exists_names_append path
  refine ⟨last, fun ending hmark hslash => ?_⟩
  have hother : ∀ name : String, '_' ∉ name.toList → last ++ ending ≠ name := by
    rintro name hname rfl
    exact hname (by simp [hmark])
  have hne : ending ≠ "" := by
    rintro rfl
    cases hmark
  rw [fileName?, significantNames_eq, hnames ending hne hslash,
    significant_concat _ _ (hother "." (by decide)), List.getLast?_concat]
  split
  · next heq => exact absurd (Option.some.inj heq) (hother "." (by decide))
  · next heq => exact absurd (Option.some.inj heq) (hother ".." (by decide))
  · rfl

end CorpusMark.Path
