import CorpusMark.Corpus
import CorpusMark.Proofs.Attempts
import CorpusMark.Proofs.ByteOrder
import CorpusMark.Proofs.Locations

/-!
# Loading a directory

A system lists the entries of a directory in an order of its own. `Reads` says that a
reader finds what is in a tree and leaves that order open. The files of a directory
are loaded in the order of their names, and a list of names that ascend is known by
its members (`regularNames_eq_of_perm`), so every reader loads the same
(`load_ordered`).
-/

namespace CorpusMark

open ByteOrder (BytesBefore lt_iff_bytesBefore)

/-! ## Names in order -/

namespace Corpus

variable {entries entries' : List DirectoryEntry} {name : String}

/-- The names of the files among the entries of a directory, in order. -/
def regularNames (entries : List DirectoryEntry) : List String :=
  ((entries.filter DirectoryEntry.isRegular).mergeSort comesFirst).map DirectoryEntry.name

theorem filesOf_eq_map (dir : String) (entries : List DirectoryEntry) :
    filesOf dir entries = (regularNames entries).map (Path.join dir) := by
  rw [filesOf, regularNames, List.map_map]
  rfl

theorem perm_regularNames (entries : List DirectoryEntry) :
    (regularNames entries).Perm
      ((entries.filter DirectoryEntry.isRegular).map DirectoryEntry.name) :=
  (List.mergeSort_perm _ _).map _

theorem mem_regularNames : name ∈ regularNames entries ↔ ⟨name, true⟩ ∈ entries := by
  rw [(perm_regularNames entries).mem_iff, List.mem_map]
  constructor
  · rintro ⟨⟨name, regular⟩, hentry, rfl⟩
    obtain ⟨hmem, rfl : regular = true⟩ := List.mem_filter.mp hentry
    exact hmem
  · exact fun h => ⟨_, List.mem_filter.mpr ⟨h, rfl⟩, rfl⟩

/-- Names that all differ ascend. -/
theorem pairwise_regularNames (h : (entries.map DirectoryEntry.name).Nodup) :
    (regularNames entries).Pairwise (· < ·) := by
  have hsorted : (regularNames entries).Pairwise (· ≤ ·) := by
    rw [regularNames, List.pairwise_map]
    refine (List.pairwise_mergeSort ?_ ?_ _).imp fun hle => of_decide_eq_true hle
    · intro a b c hab hbc
      exact decide_eq_true (le_trans (of_decide_eq_true hab) (of_decide_eq_true hbc))
    · intro a b
      rw [Bool.or_eq_true]
      exact (le_total a.name b.name).imp decide_eq_true decide_eq_true
  have hnodup : (regularNames entries).Nodup :=
    (perm_regularNames entries).nodup_iff.mpr (h.sublist (List.filter_sublist.map _))
  exact (hsorted.and hnodup).imp fun ⟨hle, hne⟩ => lt_of_le_of_ne hle hne

/-- **The order of a listing does not matter.** -/
theorem regularNames_eq_of_perm (hperm : entries'.Perm entries)
    (h : (entries.map DirectoryEntry.name).Nodup) :
    regularNames entries' = regularNames entries := by
  have h' : (entries'.map DirectoryEntry.name).Nodup := (hperm.map _).nodup_iff.mpr h
  have hnames : (regularNames entries').Perm (regularNames entries) :=
    ((perm_regularNames entries').trans ((hperm.filter _).map _)).trans
      (perm_regularNames entries).symm
  exact hnames.eq_of_pairwise (fun a b _ _ hab hba => absurd hab (lt_asymm hba))
    (pairwise_regularNames h') (pairwise_regularNames h)

end Corpus

/-! ## Directories of a tree -/

namespace FileTree

variable {t : FileTree} {path name : String} {dir : List String}

theorem entryOf?_eq_some {place : List String} {node : FileNode} {entry : DirectoryEntry}
    (h : entryOf? dir place node = some entry) :
    place = dir ++ [entry.name] ∧
      (entry.isRegular = true ↔ ∃ content, node = .file content) := by
  unfold entryOf? at h
  cases hlast : place.getLast? with
  | none =>
    rw [hlast] at h
    cases h
  | some last =>
    rw [hlast] at h
    dsimp only at h
    split_ifs at h with hdir
    cases h
    refine ⟨?_, by cases node <;> simp⟩
    rw [← hdir]
    exact (List.dropLast_append_getLast? last hlast).symm

theorem entryOf?_concat (dir : List String) (name : String) (content : ByteArray) :
    entryOf? dir (dir ++ [name]) (.file content) = some ⟨name, true⟩ := by
  rw [entryOf?, List.getLast?_concat, List.dropLast_concat]
  exact if_pos rfl

/-- The entries of a directory. -/
def entriesOf (t : FileTree) (dir : List String) : List DirectoryEntry :=
  t.entries.filterMap fun e => entryOf? dir e.1 e.2

theorem directoryEntries_of_find (h : t.find path = .ok (dir, .directory)) :
    t.directoryEntries path = .ok (t.entriesOf dir) := by
  rw [directoryEntries, h]
  rfl

/-- A file is listed if the tree has no place twice, and nothing else is listed as one. -/
theorem mem_entriesOf_iff (hplaces : (t.entries.map Prod.fst).Nodup) :
    ⟨name, true⟩ ∈ t.entriesOf dir ↔
      ∃ content, t.node? (dir ++ [name]) = some (.file content) := by
  have hne : dir ++ [name] ≠ [] := by simp
  simp only [entriesOf, List.mem_filterMap, node?, if_neg hne, List.lookup_eq_some_iff]
  constructor
  · rintro ⟨⟨place, node⟩, hmem, hentry⟩
    obtain ⟨rfl, hregular⟩ := entryOf?_eq_some hentry
    obtain ⟨content, rfl⟩ := hregular.mp rfl
    obtain ⟨before, after, hsplit⟩ := List.append_of_mem hmem
    refine ⟨content, before, after, hsplit, fun e he => bne_iff_ne.mpr fun heq => ?_⟩
    rw [hsplit, List.map_append, List.map_cons, List.nodup_append] at hplaces
    exact hplaces.2.2 _ (List.mem_map_of_mem he) _ List.mem_cons_self heq.symm
  · rintro ⟨content, before, after, hsplit, -⟩
    exact ⟨(dir ++ [name], .file content), by simp [hsplit], entryOf?_concat dir name content⟩

theorem nodup_entriesOf (hplaces : (t.entries.map Prod.fst).Nodup) (dir : List String) :
    ((t.entriesOf dir).map DirectoryEntry.name).Nodup := by
  rw [List.Nodup, List.pairwise_map, entriesOf, List.pairwise_filterMap]
  rw [List.Nodup, List.pairwise_map] at hplaces
  refine hplaces.imp fun {e e'} hne entry hentry entry' hentry' heq => hne ?_
  rw [(entryOf?_eq_some hentry).1, (entryOf?_eq_some hentry').1, heq]

/-- The text of the file at a path. -/
def textAt (t : FileTree) (path : String) : Except FileFault String :=
  match t.content path with
  | .error fault => .error fault
  | .ok content =>
    match String.fromUTF8? content with
    | some text => .ok text
    | none => .error .notText

/-- What loading the file at a path gives. -/
def codesAt (t : FileTree) (path : String) : Except CorpusError (List String) :=
  match t.textAt path with
  | .error fault => .error (.inaccessible path fault.message)
  | .ok text => Corpus.codesOf path text

theorem resolve_of_find {node : FileNode} (h : t.find path = .ok (dir, node)) :
    t.resolve true path = .ok (dir, some node) := by
  unfold find at h
  cases hres : t.resolve true path with
  | error fault =>
    rw [hres] at h
    cases h
  | ok found =>
    obtain ⟨place, node'⟩ := found
    rw [hres] at h
    cases node' with
    | none => cases h
    | some node' =>
      cases h
      rfl

/-- The path of a name in a directory leads to what has the name there, if it is not too
long. -/
theorem content_join (hwf : t.WellFormed) (hdir : t.find path = .ok (dir, .directory))
    (hname : Path.IsFileName name) (hlong : name.utf8ByteSize ≤ maxNameBytes)
    (hpath : IsPath (Path.join path name)) {content : ByteArray}
    (hnode : t.node? (dir ++ [name]) = some (.file content)) :
    t.content (Path.join path name) = .ok content := by
  have hres := resolve_of_find hdir
  have hthere : t.isDirectory dir = true :=
    isDirectory_iff.mpr (resolve_eq_ok hwf hres).1.symm
  have hplace : t.place? path = some dir := by rw [place?, hres, endOf?_ok]
  have hdirpath := isPath_of_place? hplace
  have hne : path ≠ "" := by simpa using hdirpath.2.1
  obtain ⟨front, hjoin, hnames, habsolute⟩ := Path.exists_join_eq hne hname
  -- the names of the directory lead there, and the name of the file leads on
  rw [place?, resolve_of_isPath hdirpath] at hplace
  have hend := endOf?_walk_names t hplace
  have hwalk : t.walk true maxLinks (if Path.isAbsolute path then [] else t.workingDirectory)
      (Path.names path) = .ok (dir, some .directory) := by
    cases hwalk : t.walk true maxLinks (if Path.isAbsolute path then [] else t.workingDirectory)
        (Path.names path) with
    | error fault =>
      rw [hwalk] at hend
      cases hend
    | ok found =>
      obtain ⟨place, node⟩ := found
      rw [hwalk] at hend
      cases hend
      rw [(walk_eq_ok hwf (hwf.settled_start path) hwalk).1, ← isDirectory_iff.mp hthere]
  obtain ⟨links, hgo⟩ := exists_walk_concat hwalk name
  refine content_eq_ok hwf ?_ hnode
  rw [place?, resolve_of_isPath hpath, hjoin, steps_of_isFileName front hname, hnames,
    Path.isAbsolute_append (front ++ "/") hname.slash, habsolute, hgo,
    walk_of_node hthere hlong hname.isName hnode (by simp), walk_nil, endOf?_ok]

end FileTree

/-! ## Readers -/

/-- Whether a reader finds what is in a tree, and changes nothing. Entries of a directory
it may list in any order. -/
structure FileReading.Reads (files : FileReading (StateM FileTree)) (t : FileTree) : Prop where
  kind : ∀ path, (files.kind path).run t = (t.kind path, t)
  content : ∀ path, (files.content path).run t = (t.content path, t)
  entries : ∀ path entries, t.directoryEntries path = .ok entries →
    ∃ listing : List DirectoryEntry, listing.Perm entries ∧
      (files.entries path).run t = (.ok listing, t)
  fault : ∀ path fault, t.directoryEntries path = .error fault →
    (files.entries path).run t = (.error fault, t)

theorem FileTree.reads_access (t : FileTree) : FileTree.access.toFileReading.Reads t where
  kind _ := rfl
  content _ := rfl
  entries _ entries h := ⟨entries, .refl _, congrArg (·, t) h⟩
  fault _ _ h := congrArg (·, t) h

namespace Corpus

open FileTree

variable {files : FileReading (StateM FileTree)} {t : FileTree} {path : String}
  {dir : List String}

theorem run_text_of_reads (h : files.Reads t) (path : String) :
    (files.text path).run t = (t.textAt path, t) := by
  rw [FileReading.text, run_bind_of_run_eq (h.content path), textAt]
  cases t.content path with
  | error fault => rfl
  | ok content =>
    dsimp only
    cases String.fromUTF8? content <;> rfl

theorem run_loadFile_of_reads (h : files.Reads t) (path : String) :
    (loadFile files path).run t = (t.codesAt path, t) := by
  rw [loadFile, run_bind_of_run_eq (run_text_of_reads h path), codesAt]
  cases t.textAt path <;> rfl

/-- Files are loaded one after the other up to the first that fails. -/
theorem run_loadFiles_of_reads (h : files.Reads t) (paths : List String) :
    (loadFiles files paths).run t = ((paths.mapM t.codesAt).map List.flatten, t) := by
  induction paths with
  | nil => rfl
  | cons path rest ih =>
    rw [loadFiles, run_bind_of_run_eq (run_loadFile_of_reads h path)]
    cases hpath : t.codesAt path with
    | error e =>
      rw [Attempts.mapM_cons_of_error hpath]
      rfl
    | ok codes =>
      rw [Attempts.mapM_cons_of_ok hpath]
      dsimp only
      rw [run_bind_of_run_eq ih]
      cases rest.mapM t.codesAt <;> rfl

/-- What loading a directory gives: the codes of its files in the order of their names. -/
theorem run_load_of_reads (h : files.Reads t) (hplaces : (t.entries.map Prod.fst).Nodup)
    (hdir : t.find path = .ok (dir, .directory)) :
    (load files path).run t
      = (((regularNames (t.entriesOf dir)).mapM fun name => t.codesAt (Path.join path name)).map
          List.flatten, t) := by
  have hkind : t.kind path = .ok .directory := by
    rw [FileTree.kind, hdir]
    rfl
  obtain ⟨listing, hperm, hlisted⟩ := h.entries path _ (directoryEntries_of_find hdir)
  rw [load, run_bind_of_run_eq (h.kind path), hkind]
  refine (run_bind_of_run_eq hlisted).trans ?_
  refine (run_loadFiles_of_reads h _).trans ?_
  rw [filesOf_eq_map, regularNames_eq_of_perm hperm (nodup_entriesOf hplaces dir),
    List.mapM_map]
  rfl

/-- **A directory is loaded in the order of names.** There is one list of names in
ascending order of their bytes, those of the files of the directory, neither of
directories in it nor of links. Whatever order a reader lists the entries in, loading
the directory gives the codes of these files one after the other, or the error of the
first of them that fails. -/
theorem load_ordered (hplaces : (t.entries.map Prod.fst).Nodup)
    (hdir : t.find path = .ok (dir, .directory)) :
    ∃ names outcome,
      (names.Pairwise BytesBefore ∧
        ∀ name, name ∈ names ↔ ∃ content, t.node? (dir ++ [name]) = some (.file content)) ∧
      (∀ files : FileReading (StateM FileTree), files.Reads t →
        (load files path).run t = (outcome, t) ∧
          ∀ file, (loadFile files file).run t = (t.codesAt file, t)) ∧
      (∀ codes, outcome = .ok codes ↔ ∃ parts,
        List.Forall₂ (fun name part => t.codesAt (Path.join path name) = .ok part) names parts ∧
          codes = parts.flatten) ∧
      (∀ e, outcome = .error e ↔ ∃ before name after, names = before ++ name :: after ∧
        (∀ n ∈ before, ∃ part, t.codesAt (Path.join path n) = .ok part) ∧
          t.codesAt (Path.join path name) = .error e) ∧
      (t.WellFormed → ∀ name content, t.node? (dir ++ [name]) = some (.file content) →
        Path.IsFileName name → name.utf8ByteSize ≤ maxNameBytes → IsPath (Path.join path name) →
          t.content (Path.join path name) = .ok content) := by
  refine ⟨regularNames (t.entriesOf dir), _, ⟨?order, ?names⟩,
    fun files hreads => ⟨run_load_of_reads hreads hplaces hdir, run_loadFile_of_reads hreads⟩,
    ?ok, ?error, fun hwf name content hnode hname hlong hpath =>
      content_join hwf hdir hname hlong hpath hnode⟩
  case order =>
    exact (pairwise_regularNames (nodup_entriesOf hplaces dir)).imp lt_iff_bytesBefore.mp
  case names =>
    intro name
    rw [mem_regularNames, mem_entriesOf_iff hplaces]
  case ok =>
    intro codes
    rw [Attempts.map_eq_ok_iff]
    simp only [Attempts.mapM_eq_ok_iff]
  case error =>
    intro e
    rw [Attempts.map_eq_error_iff, Attempts.mapM_eq_error_iff]

/-- A directory with two files, a directory and a link to one of the files. -/
def mixedTree : FileTree :=
  ⟨[(["c"], .directory), (["c", "é.jsonl"], .file "\x7b\"code\":\"g()\"\x7d\n".toUTF8),
    (["c", "a"], .link "b.json"), (["c", "sub"], .directory),
    (["c", "b.json"], .file "[\"f()\"]".toUTF8)], []⟩

/-- Lists directories the other way round. -/
def backwards : FileReading (StateM FileTree) :=
  { access.toFileReading with
    entries path := fun t => ((t.directoryEntries path).map List.reverse, t) }

theorem reads_backwards (t : FileTree) : backwards.Reads t where
  kind _ := rfl
  content _ := rfl
  entries _ entries h := ⟨entries.reverse, List.reverse_perm _, by
    show ((t.directoryEntries _).map List.reverse, t) = _
    rw [h]
    rfl⟩
  fault _ _ h := by
    show ((t.directoryEntries _).map List.reverse, t) = _
    rw [h]
    rfl

theorem find_mixedTree : mixedTree.find "c" = .ok (["c"], .directory) := by
  rw [find, resolve_of_root rfl (by decide +kernel), show steps "c" = ["c"] by decide +kernel,
    walk_of_node rfl (by decide +kernel) (by decide) rfl (by simp), walk_nil]
  rfl

/-- Both files are loaded, the one with the greater name last, whether they are listed
in this order or not. -/
theorem load_ordered_mixedTree :
    (mixedTree.entries.map Prod.fst).Nodup ∧ mixedTree.find "c" = .ok (["c"], .directory) ∧
      backwards.Reads mixedTree ∧
      (load backwards "c").run mixedTree = (load access.toFileReading "c").run mixedTree ∧
      (∃ names : List String, names.Pairwise BytesBefore ∧ "b.json" ∈ names ∧ "é.jsonl" ∈ names ∧
        "a" ∉ names ∧ "sub" ∉ names) ∧
      mixedTree.WellFormed ∧ mixedTree.content "c/b.json" = .ok "[\"f()\"]".toUTF8 := by
  have hplaces : (mixedTree.entries.map Prod.fst).Nodup := by decide
  obtain ⟨names, outcome, ⟨horder, hnames⟩, hruns, -, -, hcontent⟩ :=
    load_ordered hplaces find_mixedTree
  have hwf : mixedTree.WellFormed :=
    wellFormed_of_entries (by simp [mixedTree, isDirectory, node?]) rfl
  have hother : ∀ name, (∀ content, mixedTree.node? (["c"] ++ [name]) ≠ some (.file content)) →
      name ∉ names := fun name hne hmem => by
    obtain ⟨content, hnode⟩ := (hnames name).mp hmem
    exact hne content hnode
  refine ⟨hplaces, find_mixedTree, reads_backwards _, ?_,
    ⟨names, horder, (hnames _).mpr ⟨_, rfl⟩, (hnames _).mpr ⟨_, rfl⟩, hother _ ?_, hother _ ?_⟩,
    hwf, ?_⟩
  · rw [(hruns _ (reads_backwards _)).1, (hruns _ (reads_access _)).1]
  · intro content h
    cases h
  · intro content h
    cases h
  · have hjoin : Path.join "c" "b.json" = "c/b.json" := by decide +kernel
    rw [← hjoin]
    exact hcontent hwf "b.json" _ rfl ⟨by decide, by decide, by decide⟩ (by decide +kernel)
      (by decide +kernel)

end Corpus

end CorpusMark
