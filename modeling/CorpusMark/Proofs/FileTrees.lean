import CorpusMark.Proofs.Walks

/-!
# Operations on a file tree

Where paths lead, and what the operations of a tree change. A write puts a file
where the path leads (`write_eq_ok_iff`), reading a path gives what is in the file
there (`content_eq_ok`), and neither a write nor a new directory makes a tree
ill-formed. Writes divert no path (`place?_set_file`).
-/

namespace CorpusMark.FileTree

variable {t : FileTree} {place q : List String}

/-! ## Paths -/

/-- The place that a path leads to, links followed. -/
def place? (t : FileTree) (path : String) : Option (List String) :=
  endOf? (t.resolve true path)

/-- Whether there is a link at the end of a path. -/
def EndsInLink (t : FileTree) (path : String) : Prop :=
  ∃ q target, t.resolve false path = .ok (q, some (.link target))

/-- Whether there is a walk for a path at all. -/
def IsPath (path : String) : Prop :=
  path.toList.contains '\x00' = false ∧ path.isEmpty = false ∧ path.utf8ByteSize < pathLimit

instance (path : String) : Decidable (IsPath path) := inferInstanceAs (Decidable (_ ∧ _ ∧ _))

theorem resolve_of_isPath {path : String} (h : IsPath path) (t : FileTree) (follow : Bool) :
    t.resolve follow path
      = t.walk follow maxLinks (if Path.isAbsolute path then [] else t.workingDirectory)
          (steps path) := by
  obtain ⟨hnul, hempty, hlong⟩ := h
  rw [resolve, hnul, hempty, if_neg Bool.false_ne_true, if_neg Bool.false_ne_true,
    if_neg (Nat.not_le.mpr hlong)]

/-- If relative paths start from the root, all paths do. -/
theorem resolve_of_root (hroot : t.workingDirectory = []) {path : String} (h : IsPath path)
    (follow : Bool) : t.resolve follow path = t.walk follow maxLinks [] (steps path) := by
  rw [resolve_of_isPath h, hroot, ite_self]

theorem isPath_of_resolve {follow : Bool} {path : String}
    (h : endOf? (t.resolve follow path) ≠ none) : IsPath path := by
  unfold resolve at h
  by_cases hnul : path.toList.contains '\x00' = true
  · rw [if_pos hnul] at h
    exact absurd rfl h
  by_cases hempty : path.isEmpty = true
  · rw [if_neg hnul, if_pos hempty] at h
    exact absurd rfl h
  by_cases hlong : pathLimit ≤ path.utf8ByteSize
  · rw [if_neg hnul, if_neg hempty, if_pos hlong] at h
    exact absurd rfl h
  exact ⟨Bool.eq_false_iff.mpr hnul, Bool.eq_false_iff.mpr hempty, Nat.not_le.mp hlong⟩

/-- The walk of every path starts in a directory. -/
theorem WellFormed.settled_start (hwf : t.WellFormed) (path : String) :
    t.Settled (if Path.isAbsolute path then [] else t.workingDirectory) := by
  split_ifs
  · exact hwf.settled rfl
  · exact hwf.settled hwf.working

/-- What resolving a path reports is what is there, in a directory and no link
unless one may be at the end. -/
theorem resolve_eq_ok (hwf : t.WellFormed) {follow : Bool} {path : String}
    {node : Option FileNode} (h : t.resolve follow path = .ok (q, node)) :
    node = t.node? q ∧ t.isDirectory q.dropLast = true ∧
      (follow = true → ∀ target, node ≠ some (.link target)) := by
  rw [resolve_of_isPath (isPath_of_resolve (by rw [h]; simp))] at h
  exact walk_eq_ok hwf (hwf.settled_start path) h

/-- Putting a file where it can be put changes the place of no path. -/
theorem place?_set_file {spot : List String} (h : t.Vacant spot) (content : ByteArray)
    (path : String) : (t.set spot (.file content)).place? path = t.place? path := by
  unfold place? resolve
  split_ifs
  · rfl
  · rfl
  · rfl
  · exact endOf?_walk_set_file h content true maxLinks [] (steps path)
  · exact endOf?_walk_set_file h content true maxLinks t.workingDirectory (steps path)

theorem isPath_of_place? {path : String} (h : t.place? path = some place) : IsPath path :=
  isPath_of_resolve (show t.place? path ≠ none by simp [h])

/-- Two paths that differ in their last name only, with no link at either end,
lead to places that differ in their last name only. -/
theorem place?_of_siblings {a b x y : String} {common p : List String}
    (habs : Path.isAbsolute a = Path.isAbsolute b) (ha : steps a = common ++ [x])
    (hb : steps b = common ++ [y]) (hx : IsName x) (hy : IsName y) (hla : ¬ t.EndsInLink a)
    (hlb : ¬ t.EndsInLink b) (hp : t.place? a = some p) (hq : t.place? b = some q) :
    ∃ dir, p = dir ++ [x] ∧ q = dir ++ [y] := by
  have hra := resolve_of_isPath (isPath_of_place? hp) t
  have hrb := resolve_of_isPath (isPath_of_place? hq) t
  rw [ha] at hra
  rw [hb, ← habs] at hrb
  rw [place?, hra] at hp
  rw [place?, hrb] at hq
  rcases walk_append t maxLinks (if Path.isAbsolute a then [] else t.workingDirectory) common with
    ⟨links, dir, hgo⟩ | hstop
  · rw [hgo _ _ (List.cons_ne_nil _ _)] at hp hq
    refine ⟨dir, eq_of_endOf?_walk_name hx (fun q target h => ?_) hp,
      eq_of_endOf?_walk_name hy (fun q target h => ?_) hq⟩
    · exact hla ⟨q, target, by rw [hra, hgo _ _ (List.cons_ne_nil _ _), h]⟩
    · exact hlb ⟨q, target, by rw [hrb, hgo _ _ (List.cons_ne_nil _ _), h]⟩
  · rw [hstop _ _ (List.cons_ne_nil _ _)] at hp
    cases hp

/-! ## Operations -/

theorem resolve_eq_ok_of_place? (hwf : t.WellFormed) {path : String}
    (h : t.place? path = some place) : t.resolve true path = .ok (place, t.node? place) := by
  unfold place? at h
  cases hres : t.resolve true path with
  | error fault =>
    rw [hres] at h
    cases h
  | ok result =>
    obtain ⟨place', node⟩ := result
    rw [hres] at h
    cases h
    rw [(resolve_eq_ok hwf hres).1]

theorem isDirectory_dropLast_of_place? (hwf : t.WellFormed) {path : String}
    (h : t.place? path = some place) : t.isDirectory place.dropLast = true :=
  (resolve_eq_ok hwf (resolve_eq_ok_of_place? hwf h)).2.1

/-- **A write succeeds exactly if the path leads to where a file can be put**, and
puts the file there. -/
theorem write_eq_ok_iff (hwf : t.WellFormed) {path text : String} {t' : FileTree} :
    t.write path text = .ok t' ↔
      ∃ place, t.place? path = some place ∧ t.Vacant place ∧
        t' = t.set place (.file text.toUTF8) := by
  unfold write
  constructor
  · intro h
    cases hres : t.resolve true path with
    | error fault =>
      rw [hres] at h
      cases h
    | ok result =>
      obtain ⟨place, node⟩ := result
      obtain ⟨hnode, -, hlink⟩ := resolve_eq_ok hwf hres
      have hplace : t.place? path = some place := by rw [place?, hres, endOf?_ok]
      rw [hres] at h
      cases node with
      | none =>
        cases h
        exact ⟨place, hplace, .inl hnode.symm, rfl⟩
      | some node =>
        cases node with
        | directory => cases h
        | file content =>
          cases h
          exact ⟨place, hplace, .inr ⟨content, hnode.symm⟩, rfl⟩
        | link target => exact absurd rfl (hlink rfl target)
  · rintro ⟨place, hplace, hvacant, rfl⟩
    rw [resolve_eq_ok_of_place? hwf hplace]
    rcases hvacant with hnode | ⟨content, hnode⟩
    · rw [hnode]
      rfl
    · rw [hnode]
      rfl

theorem WellFormed.write (hwf : t.WellFormed) {path text : String} {t' : FileTree}
    (h : t.write path text = .ok t') : t'.WellFormed := by
  obtain ⟨place, hplace, hvacant, rfl⟩ := (write_eq_ok_iff hwf).mp h
  exact hwf.set (isDirectory_dropLast_of_place? hwf hplace) hvacant.isDirectory _

theorem WellFormed.makeDirectory (hwf : t.WellFormed) {path : String} {t' : FileTree}
    (h : t.makeDirectory path = .ok t') : t'.WellFormed := by
  unfold FileTree.makeDirectory at h
  cases hres : t.resolve false (withoutEndSlashes path) with
  | error fault =>
    rw [hres] at h
    cases h
  | ok result =>
    obtain ⟨place, node⟩ := result
    obtain ⟨hnode, hparent, -⟩ := resolve_eq_ok hwf hres
    rw [hres] at h
    cases node with
    | some node => cases h
    | none =>
      cases h
      refine hwf.set hparent ?_ _
      rw [isDirectory, ← hnode]

/-- Reading gives what is in the file that the path leads to. -/
theorem content_eq_ok (hwf : t.WellFormed) {path : String} {content : ByteArray}
    (hplace : t.place? path = some place) (hnode : t.node? place = some (.file content)) :
    t.content path = .ok content := by
  rw [FileTree.content, find, resolve_eq_ok_of_place? hwf hplace, hnode]
  rfl

theorem run_bind_of_run_eq {α β : Type} {x : StateM FileTree α} {f : α → StateM FileTree β}
    {a : α} {t' : FileTree} (h : x.run t = (a, t')) : (x >>= f).run t = (f a).run t' := by
  rw [StateT.run_bind, h]
  rfl

/-- A directory that is there is left as it is. -/
theorem run_ensureDirectory_of_present {path : String} {place : List String}
    (hpath : path.isEmpty = false) (hends : withoutEndSlashes path = path)
    (hdir : ∀ follow, t.resolve follow path = .ok (place, some .directory)) :
    (access.ensureDirectory path).run t = (.ok (), t) := by
  have hrun : (access.makeDirectory path).run t = (.error .alreadyExists, t) := by
    show change (fun t => t.makeDirectory path) t = _
    rw [change, makeDirectory, hends, hdir]
    rfl
  have hfound : (access.kind path).run t = (.ok .directory, t) := by
    show (t.kind path, t) = _
    rw [kind, find, hdir]
    rfl
  rw [FileAccess.ensureDirectory, Path.enclosing, FileAccess.ensureFirst, hpath]
  refine (run_bind_of_run_eq hrun).trans ?_
  exact run_bind_of_run_eq hfound

end CorpusMark.FileTree
