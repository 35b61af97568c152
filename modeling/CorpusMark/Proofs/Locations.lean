import CorpusMark.Config.Basic
import CorpusMark.Proofs.Artifacts

/-!
# Where artifacts come to stand

The dataset name is the beginning of every file name, and nobody looks for slashes
in it. What stands up to its last slash, its folder, is a path of its own: the files
are right in the directory that this path leads to from the directory of the run
(`directlyIn_of_mem_files`), and nothing but files in that directory is written
(`files_located`). That is the directory of the run itself if the name has no slash.
With a name such as `../d` it is another one (`not_directlyIn_upName`).
-/

namespace CorpusMark

/-! ## Paths and their folders -/

namespace Path

/-- What a path has up to its last slash. -/
def folder (path : String) : String := String.ofList (path.toList.rdropWhile (· ≠ '/'))

/-- What a path has behind its last slash. -/
def base (path : String) : String := String.ofList (path.toList.rtakeWhile (· ≠ '/'))

/-- Whether two paths are the same but for names that stand for the directory they are
in, and further slashes. -/
def Same (a b : String) : Prop :=
  isAbsolute a = isAbsolute b ∧ significantNames a = significantNames b

instance (a b : String) : Decidable (Same a b) := inferInstanceAs (Decidable (_ ∧ _))

/-- Whether a text is the name of something in a directory. -/
structure IsFileName (file : String) : Prop where
  isName : FileTree.IsName file
  nonempty : file ≠ ""
  slash : '/' ∉ file.toList

/-- Whether a path goes on from that of a directory by one name. -/
def DirectlyIn (dir path : String) : Prop :=
  isAbsolute path = isAbsolute dir ∧
    ∃ file, IsFileName file ∧ significantNames path = significantNames dir ++ [file]

theorem folder_append_base (path : String) : folder path ++ base path = path := by
  rw [folder, base, ← String.ofList_append, List.rdropWhile_append_rtakeWhile,
    String.ofList_toList]

theorem notMem_base (path : String) : '/' ∉ (base path).toList := by
  intro h
  rw [base, String.toList_ofList] at h
  simpa using List.mem_rtakeWhile_imp h

theorem folder_of_notMem {path : String} (h : '/' ∉ path.toList) : folder path = "" := by
  have hall : path.toList.rdropWhile (· ≠ '/') = [] := by
    rw [List.rdropWhile_eq_nil_iff]
    intro c hc
    have hne : c ≠ '/' := by
      rintro rfl
      exact h hc
    simp [hne]
  rw [folder, hall]

/-- A folder is empty or ends in a slash. -/
theorem folder_eq (path : String) : folder path = "" ∨ ∃ front, folder path = front ++ "/" := by
  by_cases hnil : path.toList.rdropWhile (· ≠ '/') = []
  · exact .inl (by rw [folder, hnil])
  · have hlast : (path.toList.rdropWhile (· ≠ '/')).getLast hnil = '/' := by
      simpa using List.rdropWhile_last_not _ _ hnil
    refine .inr ⟨String.ofList (path.toList.rdropWhile (· ≠ '/')).dropLast, ?_⟩
    rw [folder, ← String.toList_inj]
    conv_lhs => rw [String.toList_ofList, ← List.dropLast_concat_getLast hnil, hlast]
    simp

theorem endsWith_slash_iff {path : String} :
    path.endsWith "/" = true ↔ ∃ front, path = front ++ "/" := by
  rw [endsWith_iff]
  constructor
  · rintro ⟨front, hfront⟩
    exact ⟨String.ofList front, by rw [← String.toList_inj]; simp [← hfront]⟩
  · rintro ⟨front, rfl⟩
    rw [String.toList_append]
    exact List.suffix_append _ _

theorem join_empty (dir : String) : join dir "" = dir ∨ join dir "" = dir ++ "/" := by
  unfold join
  rw [if_neg (by decide)]
  split_ifs
  · exact .inl (String.append_empty)
  · exact .inr (String.append_empty)

/-- A folder that is joined to a directory ends in a slash. -/
theorem exists_join_folder {dir : String} (hdir : dir ≠ "") (path : String) :
    ∃ front, join dir (folder path) = front ++ "/" := by
  have hempty : dir.isEmpty = false := by simpa using hdir
  unfold join
  rcases folder_eq path with hfolder | ⟨front, hfolder⟩
  · rw [hfolder, hempty, if_neg (by decide)]
    split_ifs with hslash
    · obtain ⟨front, rfl⟩ := endsWith_slash_iff.mp hslash
      exact ⟨front, String.append_empty⟩
    · exact ⟨dir, by simp⟩
  · rw [hfolder]
    split_ifs
    · exact ⟨front, rfl⟩
    · exact ⟨dir ++ front, by simp [String.append_assoc]⟩
    · exact ⟨dir ++ "/" ++ front, by simp [String.append_assoc]⟩

/-- The names on both sides of a slash. -/
theorem names_append_slash (a b : String) : names (a ++ "/" ++ b) = names a ++ names b := by
  have hchars : (a ++ "/" ++ b).toList = a.toList ++ '/' :: b.toList := by simp
  rw [names, hchars, List.splitOn_append_cons_self, List.filter_append, List.map_append]
  rfl

/-- A slash at the end is followed by no name. -/
theorem names_slash (path : String) : names (path ++ "/") = names path := by
  have h := names_append_slash path ""
  rw [String.append_empty] at h
  rw [h]
  simp [names]

theorem names_of_isFileName {file : String} (h : IsFileName file) : names file = [file] := by
  rw [names, List.splitOn_eq_singleton h.slash]
  simp [h.nonempty]

/-- A file name behind a slash is added to the significant names. -/
theorem directlyIn_append {front file : String} (h : IsFileName file) :
    DirectlyIn (front ++ "/") (front ++ "/" ++ file) := by
  have habsolute := isAbsolute_append (front ++ "/") h.slash
  refine ⟨habsolute, file, h, ?_⟩
  rw [significantNames_eq, significantNames_eq, habsolute, names_append_slash,
    names_of_isFileName h, names_slash, significant_concat _ _ h.isName.1]

/-- What is right in one directory is right in another one exactly if both have the
same path. -/
theorem DirectlyIn.iff_same {dir other path : String} (h : DirectlyIn dir path) :
    DirectlyIn other path ↔ Same dir other := by
  obtain ⟨habsolute, file, hfile, hnames⟩ := h
  constructor
  · rintro ⟨habsolute', file', -, hnames'⟩
    exact ⟨habsolute.symm.trans habsolute', (List.append_inj' (hnames.symm.trans hnames') rfl).1⟩
  · rintro ⟨hsame, hsame'⟩
    exact ⟨habsolute.trans hsame, file, hfile, hsame' ▸ hnames⟩

/-- A slash at the end makes no difference. -/
theorem same_append_slash {dir : String} (hdir : dir ≠ "") : Same (dir ++ "/") dir := by
  have habsolute : isAbsolute (dir ++ "/") = isAbsolute dir := by
    rw [isAbsolute, isAbsolute, Bool.eq_iff_iff, String.startsWith_string_iff,
      String.startsWith_string_iff, String.toList_append]
    cases hchars : dir.toList with
    | nil => exact absurd (String.toList_eq_nil_iff.mp hchars) hdir
    | cons c cs => simp
  exact ⟨habsolute, by rw [significantNames, significantNames, names_slash, habsolute]⟩

/-- A name that is joined to a path follows its names. -/
theorem exists_join_eq {dir file : String} (hdir : dir ≠ "") (hfile : IsFileName file) :
    ∃ front, join dir file = front ++ "/" ++ file ∧ names front = names dir ∧
      isAbsolute (front ++ "/") = isAbsolute dir := by
  have hrelative : file.startsWith "/" = false := by
    have h := isAbsolute_append "" hfile.slash
    rwa [String.empty_append] at h
  have hempty : dir.isEmpty = false := by simpa using hdir
  rw [join, hrelative, hempty, if_neg Bool.false_ne_true, Bool.false_or]
  by_cases hend : dir.endsWith "/" = true
  · obtain ⟨front, rfl⟩ := endsWith_slash_iff.mp hend
    exact ⟨front, if_pos hend, (names_slash front).symm, rfl⟩
  · exact ⟨dir, if_neg hend, rfl, (same_append_slash hdir).1⟩

end Path

namespace FileTree

variable {t : FileTree} {place q : List String}

/-- The beginning of a path is a path. -/
theorem isPath_of_append {front rest : String} (h : IsPath (front ++ rest)) (hfront : front ≠ "") :
    IsPath front := by
  obtain ⟨hnul, -, hlong⟩ := h
  refine ⟨?_, by simpa using hfront, ?_⟩
  · rw [String.toList_append] at hnul
    simp only [List.contains_eq_mem, List.mem_append, decide_eq_false_iff_not, not_or] at hnul ⊢
    exact hnul.1
  · rw [String.utf8ByteSize_append] at hlong
    omega

theorem stride_stay {links : Nat} {last : Bool} :
    t.stride true links place "." last
      = if t.isDirectory place then .leads links place [] else .fails .notDirectory := by
  rw [stride]
  cases t.isDirectory place <;> rfl

/-- Staying in the directory at the end of a walk does not change where it ends. -/
theorem endOf?_walk_stay {links : Nat} {steps : List String}
    (h : endOf? (t.walk true links place (steps ++ ["."])) = some q) :
    endOf? (t.walk true links place steps) = some q := by
  induction links, place, steps using walk_induction t true with
  | nil links place =>
    rw [List.nil_append, walk_cons, stride_stay] at h
    split_ifs at h with hdir
    · simpa using h
    · cases h
  | cons links place step rest ih =>
    have hnotlast : (rest ++ ["."]).isEmpty = false := by simp
    rw [List.cons_append, walk_cons, hnotlast] at h
    cases hstride : t.stride true links place step false with
    | fails fault =>
      rw [hstride] at h
      cases h
    | ends node =>
      obtain ⟨-, hlast, -⟩ := stride_eq_ends hstride
      cases hlast
    | leads links' place' ahead =>
      rw [hstride] at h
      dsimp only at h
      have hlast := stride_last_of_leads hstride rest.isEmpty
      rw [walk_cons, hlast]
      exact ih links' place' ahead hlast (by rwa [List.append_assoc])

theorem steps_append_slash (path : String) :
    steps (path ++ "/") = Path.names path ++ ["."] := by
  rw [steps, Path.endsWith_slash_iff.mpr ⟨path, rfl⟩, Path.names_slash]
  rfl

theorem steps_of_isFileName (front : String) {file : String} (hfile : Path.IsFileName file) :
    steps (front ++ "/" ++ file) = Path.names front ++ [file] := by
  rw [steps, Path.endsWith_append_eq_false _ hfile.nonempty hfile.slash,
    Path.names_append_slash, Path.names_of_isFileName hfile]
  simp

/-- The names of a path lead where its steps lead. -/
theorem endOf?_walk_names (t : FileTree) {start : List String} {links : Nat} {path : String}
    (h : endOf? (t.walk true links start (steps path)) = some place) :
    endOf? (t.walk true links start (Path.names path)) = some place := by
  rw [steps] at h
  by_cases hend : path.endsWith "/" = true
  · rw [if_pos hend] at h
    exact endOf?_walk_stay h
  · rwa [if_neg hend, List.append_nil] at h

/-- A slash at the end of a path asks for a directory, and leads nowhere else. -/
theorem place?_of_slash {path : String} (hpath : path ≠ "")
    (h : t.place? (path ++ "/") = some place) : t.place? path = some place := by
  have hlong := isPath_of_place? h
  rw [place?, resolve_of_isPath hlong, (Path.same_append_slash hpath).1,
    steps_append_slash] at h
  rw [place?, resolve_of_isPath (isPath_of_append hlong hpath), steps]
  by_cases hend : path.endsWith "/" = true
  · rwa [if_pos hend]
  · rw [if_neg hend, List.append_nil]
    exact endOf?_walk_stay h

/-- The file of a path is in the directory that the path leads to up to the file name,
unless there is a link. -/
theorem place?_of_file {front file : String} (hfile : Path.IsFileName file)
    (hlink : ¬ t.EndsInLink (front ++ "/" ++ file))
    (h : t.place? (front ++ "/" ++ file) = some place) :
    ∃ spot, t.place? (front ++ "/") = some spot ∧ place = spot ++ [file] := by
  have hpath := isPath_of_place? h
  have hres := fun follow => resolve_of_isPath hpath t follow
  simp only [steps_of_isFileName front hfile,
    Path.isAbsolute_append (front ++ "/") hfile.slash] at hres
  have hdir := resolve_of_isPath (isPath_of_append hpath (by simp)) t true
  rw [steps_append_slash] at hdir
  rw [place?, hres] at h
  rcases walk_append t maxLinks
      (if Path.isAbsolute (front ++ "/") then [] else t.workingDirectory) (Path.names front) with
    ⟨links, spot, hgo⟩ | hstop
  · rw [hgo _ _ (List.cons_ne_nil _ _)] at h
    have hplace := eq_of_endOf?_walk_name hfile.isName (fun q target hq => hlink ⟨q, target, by
      rw [hres, hgo _ _ (List.cons_ne_nil _ _), hq]⟩) h
    refine ⟨spot, ?_, hplace⟩
    -- the file could not be reached if there were no directory
    have hspot : t.isDirectory spot = true := by
      by_contra hnot
      rw [endOf?_walk_of_not_isDirectory (Bool.eq_false_iff.mpr hnot) (List.cons_ne_nil _ _)] at h
      cases h
    rw [place?, hdir, hgo _ _ (List.cons_ne_nil _ _), walk_cons, stride_stay, if_pos hspot]
    simp
  · rw [hstop _ _ (List.cons_ne_nil _ _)] at h
    cases h

end FileTree

/-! ## Files of a run -/

namespace ArtifactPaths

open CorpusMark.Path (DirectlyIn IsFileName Same base folder join)

variable {outputDir name path : String} {language : Language} {rates : List Double} {parts : Nat}

theorem dir_ne_empty (outputDir : String) (language : Language) :
    join outputDir language.name ≠ "" := by
  unfold join
  intro h
  have hchars := congrArg String.toList h
  cases language <;> split_ifs at hchars <;> simp [Language.name] at hchars

/-- The directory that the files of a run are in, with a slash at the end. -/
def location (outputDir : String) (language : Language) (name : String) : String :=
  join (join outputDir language.name) (folder name)

theorem stem_eq : stem outputDir language name = location outputDir language name ++ base name := by
  rw [stem, location, ← Path.join_append _ _ (Path.notMem_base name), Path.folder_append_base]

theorem exists_location_eq (outputDir : String) (language : Language) (name : String) :
    ∃ front, location outputDir language name = front ++ "/" :=
  Path.exists_join_folder (dir_ne_empty outputDir language) name

/-- What follows the folder of the dataset name is the name of a file. -/
theorem exists_isFileName_of_mem_files
    (h : path ∈ (locate outputDir language name rates parts).files) :
    ∃ file, IsFileName file ∧ path = location outputDir language name ++ file := by
  rw [files_locate] at h
  obtain ⟨ending, hending, rfl⟩ := List.mem_map.mp h
  obtain ⟨hmark, hslash⟩ := chars_of_mem_endings hending
  -- no other text with the underscore of the ending is a name for a directory
  have hother : ∀ text : String, '_' ∉ text.toList → base name ++ ending ≠ text := by
    rintro text htext rfl
    exact htext (by simp [hmark])
  refine ⟨base name ++ ending, ⟨⟨hother _ (by decide), hother _ (by decide)⟩,
    hother _ (by decide), ?_⟩, by rw [stem_eq, String.append_assoc]⟩
  rw [String.toList_append, List.mem_append, not_or]
  exact ⟨Path.notMem_base name, hslash⟩

theorem directlyIn_of_mem_files
    (h : path ∈ (locate outputDir language name rates parts).files) :
    DirectlyIn (location outputDir language name) path := by
  obtain ⟨file, hfile, rfl⟩ := exists_isFileName_of_mem_files h
  obtain ⟨front, hfront⟩ := exists_location_eq outputDir language name
  rw [hfront]
  exact Path.directlyIn_append hfile

/-- A dataset name without a slash has no folder. -/
theorem location_of_notMem (h : '/' ∉ name.toList) :
    location outputDir language name = join outputDir language.name ∨
      location outputDir language name = join outputDir language.name ++ "/" := by
  rw [location, Path.folder_of_notMem h]
  exact Path.join_empty _

theorem same_location (h : '/' ∉ name.toList) :
    Same (location outputDir language name) (join outputDir language.name) := by
  rcases location_of_notMem h with heq | heq
  · rw [heq]
    exact ⟨rfl, rfl⟩
  · rw [heq]
    exact Path.same_append_slash (dir_ne_empty outputDir language)

theorem place?_dir_of_location {t : FileTree} {spot : List String} (h : '/' ∉ name.toList)
    (hleads : t.place? (location outputDir language name) = some spot) :
    t.place? (join outputDir language.name) = some spot := by
  rcases location_of_notMem h with heq | heq
  · rw [heq] at hleads
    exact hleads
  · rw [heq] at hleads
    exact FileTree.place?_of_slash (dir_ne_empty outputDir language) hleads

end ArtifactPaths

namespace Dataset

open CorpusMark.Path (DirectlyIn IsFileName Same join)
open ArtifactPaths (locate location)

variable {d : Dataset} {outputDir name : String} {language : Language} {paths : ArtifactPaths}
  {t t' : FileTree}

/-- What a run has written is in one directory. -/
structure WrittenIn (dir : String) (paths : ArtifactPaths) (t t' : FileTree)
    (spot : List String) : Prop where
  /-- The path of the directory leads there. -/
  leads : t'.place? dir = some spot
  /-- Every file is in it. -/
  files : ∀ path ∈ paths.files, ∃ file, IsFileName file ∧ t'.place? path = some (spot ++ [file])
  /-- No file elsewhere has changed or come up. -/
  others : ∀ place content, t'.node? place = some (.file content) →
    t.node? place = some (.file content) ∨ ∃ file, IsFileName file ∧ place = spot ++ [file]

theorem writtenIn_location (hwf : t.WellFormed)
    (hwritten : (writeAll FileTree.access
      (d.artifacts (d.artifactPaths outputDir language name))).run t = (.ok (), t'))
    (hlinks : ∀ path ∈ (d.artifactPaths outputDir language name).files, ¬ t.EndsInLink path) :
    ∃ spot, WrittenIn (location outputDir language name)
      (d.artifactPaths outputDir language name) t t' spot := by
  obtain ⟨-, hplaces, hleads, hframe⟩ := writeAll_eq_ok hwf hwritten
  obtain ⟨front, hfront⟩ := ArtifactPaths.exists_location_eq outputDir language name
  have hfiles : ∀ path ∈ (d.artifactPaths outputDir language name).files,
      ∃ spot, t.place? (location outputDir language name) = some spot ∧
        ∃ file, IsFileName file ∧ t.place? path = some (spot ++ [file]) := by
    intro path hpath
    have hmem := hpath
    rw [← map_fst_artifacts] at hmem
    obtain ⟨artifact, hartifact, rfl⟩ := List.mem_map.mp hmem
    obtain ⟨place, hplace⟩ := hleads artifact hartifact
    obtain ⟨file, hfile, heq⟩ := ArtifactPaths.exists_isFileName_of_mem_files hpath
    have hlink := hlinks _ hpath
    rw [heq, hfront] at hplace hlink
    obtain ⟨spot, hspot, rfl⟩ := FileTree.place?_of_file hfile hlink hplace
    rw [heq, hfront]
    exact ⟨spot, hspot, file, hfile, hplace⟩
  -- there is at least one file, that of the statistics
  obtain ⟨spot, hspot, -⟩ := hfiles (d.artifactPaths outputDir language name).stats
    (by simp [ArtifactPaths.files])
  have hin : ∀ path ∈ (d.artifactPaths outputDir language name).files,
      ∃ file, IsFileName file ∧ t.place? path = some (spot ++ [file]) := by
    intro path hpath
    obtain ⟨spot', hspot', hfile⟩ := hfiles path hpath
    rw [hspot] at hspot'
    exact Option.some.inj hspot' ▸ hfile
  refine ⟨spot, by rw [hplaces, hspot], fun path hpath => by rw [hplaces]; exact hin path hpath,
    fun place content hnode => ?_⟩
  by_cases hat : ∃ path ∈ (d.artifactPaths outputDir language name).files,
      t.place? path = some place
  · obtain ⟨path, hpath, hplace⟩ := hat
    obtain ⟨file, hfile, hplace'⟩ := hin path hpath
    rw [hplace] at hplace'
    exact .inr ⟨file, hfile, Option.some.inj hplace'⟩
  · refine .inl ?_
    rw [← hframe place fun artifact hartifact hplace => hat ⟨artifact.1, ?_, hplace⟩]
    · exact hnode
    · rw [← map_fst_artifacts]
      exact List.mem_map_of_mem hartifact

/-- **Where the files of a run are.** All their paths go on by one name from one
directory: the folder of the dataset name, seen from the directory of the run. So they
go on from the directory of the run exactly if that is the same path, as it is if the
name has no slash. A run that succeeds, and meets no link at a file, puts its files into
the directory that the path leads to and changes no other file. -/
theorem files_located (outputDir : String) (language : Language) (name : String) :
    (∀ rates parts, ∀ path ∈ (locate outputDir language name rates parts).files,
        DirectlyIn (location outputDir language name) path ∧
          (DirectlyIn (join outputDir language.name) path ↔
            Same (location outputDir language name) (join outputDir language.name))) ∧
      ('/' ∉ name.toList → Same (location outputDir language name) (join outputDir language.name)) ∧
      ∀ (d : Dataset) (t t' : FileTree) (paths : ArtifactPaths), t.WellFormed →
        (d.writeArtifacts FileTree.access outputDir language name).run t = (.ok paths, t') →
          paths.dir = join outputDir language.name ∧
            ∃ t₁, (FileTree.access.ensureDirectory paths.dir).run t = (.ok (), t₁) ∧
              ((∀ path ∈ paths.files, ¬ t₁.EndsInLink path) →
                ∃ spot, WrittenIn (location outputDir language name) paths t t' spot ∧
                  ('/' ∉ name.toList → t'.place? paths.dir = some spot)) := by
  refine ⟨fun rates parts path hpath => ?paths, ArtifactPaths.same_location, ?run⟩
  case paths =>
    have hin := ArtifactPaths.directlyIn_of_mem_files hpath
    exact ⟨hin, hin.iff_same⟩
  case run =>
    intro d t t' paths hwf hrun
    obtain ⟨rfl, t₁, hdir, hgrows, hwritten⟩ := exists_writeAll_of_run hwf hrun
    refine ⟨rfl, t₁, hdir, fun hlinks => ?_⟩
    obtain ⟨spot, hleads, hfiles, hothers⟩ :=
      writtenIn_location hgrows.wellFormed hwritten hlinks
    refine ⟨spot, ⟨hleads, hfiles, fun place content hnode => ?_⟩, fun hslash => ?_⟩
    · -- what came up before the files were written is directories
      refine (hothers place content hnode).imp_left fun hold => ?_
      rcases hgrows.node place with hsame | ⟨-, hnew, -⟩
      · rw [← hsame]
        exact hold
      · rw [hnew] at hold
        cases hold
    · exact ArtifactPaths.place?_dir_of_location hslash hleads

/-! ### A dataset name that leads out of the directory -/

open ArtifactPaths FileTree

/-- With this name the files are beside the directory. -/
theorem resolve_upFile_closeTree {ending : String}
    (h : ending ∈ endings (Rate.withBaseline closeRates) 0) (follow : Bool) :
    closeTree.resolve follow ("python/../d" ++ ending) = .ok (["d" ++ ending], none) := by
  have hall : ∀ e ∈ endings (Rate.withBaseline closeRates) 0,
      IsPath ("python/../d" ++ e) ∧ steps ("python/../d" ++ e) = ["python", "..", "d" ++ e] ∧
        IsName ("d" ++ e) ∧ ("d" ++ e).utf8ByteSize ≤ maxNameBytes := by
    decide +kernel
  obtain ⟨hpath, hsteps, hname, hlong⟩ := hall ending h
  rw [resolve_closeTree_of_steps hpath hsteps, walk_cons]
  exact walk_of_none rfl hlong hname rfl ..

theorem files_upName :
    (closeDataset.artifactPaths "" .python "../d").files
      = (endings (Rate.withBaseline closeRates) 0).map ("python/../d" ++ ·) := by
  rw [artifactPaths, files_locate, show stem "" .python "../d" = "python/../d" by decide +kernel]
  rfl

/-- The directory of the run does not depend on the name. -/
theorem ensureDirectory_upName :
    (access.ensureDirectory (closeDataset.artifactPaths "" .python "../d").dir).run closeTree
      = (.ok (), closeTree) :=
  ensureDirectory_closeTree

/-- The dataset can be written with this name. -/
theorem exists_run_upName :
    ∃ t', (closeDataset.writeArtifacts access "" .python "../d").run closeTree
      = (.ok (closeDataset.artifactPaths "" .python "../d"), t') := by
  refine exists_run_of_vacant wellFormed_closeTree ensureDirectory_upName fun path hpath => ?_
  rw [files_upName, List.mem_map] at hpath
  obtain ⟨ending, hending, rfl⟩ := hpath
  exact ⟨_, congrArg endOf? (resolve_upFile_closeTree hending true), .inl rfl⟩

theorem not_endsInLink_upName :
    ∀ path ∈ (closeDataset.artifactPaths "" .python "../d").files,
      ¬ closeTree.EndsInLink path := by
  rintro path hpath ⟨q, target, hlink⟩
  rw [files_upName, List.mem_map] at hpath
  obtain ⟨ending, hending, rfl⟩ := hpath
  rw [resolve_upFile_closeTree hending] at hlink
  cases hlink

theorem files_located_upName :
    ∃ paths t', closeTree.WellFormed ∧
      (closeDataset.writeArtifacts access "" .python "../d").run closeTree = (.ok paths, t') ∧
      (∀ path ∈ paths.files, ¬ closeTree.EndsInLink path) ∧
      (∃ spot, WrittenIn (location "" .python "../d") paths closeTree t' spot) ∧
      '/' ∉ "d".toList ∧
        Same (location "" .python "d") (join "" Language.python.name) := by
  obtain ⟨t', hrun⟩ := exists_run_upName
  obtain ⟨-, -, hruns⟩ := files_located "" .python "../d"
  obtain ⟨-, t₁, hdir, hwritten⟩ := hruns closeDataset closeTree t' _ wellFormed_closeTree hrun
  rw [ensureDirectory_upName] at hdir
  cases hdir
  obtain ⟨spot, hspot, -⟩ := hwritten not_endsInLink_upName
  have hslash : '/' ∉ "d".toList := by decide
  exact ⟨_, t', wellFormed_closeTree, hrun, not_endsInLink_upName, ⟨spot, hspot⟩, hslash,
    (files_located "" .python "d").2.1 hslash⟩

/-- A configuration may have this name. No path for it is right in the directory of the
run, and a run leaves its files beside that directory. -/
theorem not_directlyIn_upName :
    ({ datasetName := some "../d" } : Config).requireDatasetName = .ok "../d" ∧
      (∀ path ∈ (locate "out" .python "../d" [Double.zero] 1).files,
        ¬ DirectlyIn (locate "out" .python "../d" [Double.zero] 1).dir path) ∧
      ∃ paths t', (closeDataset.writeArtifacts access "" .python "../d").run closeTree
          = (.ok paths, t') ∧
        t'.place? paths.dir = some ["python"] ∧ t'.place? paths.stats = some ["d_stats.json"] := by
  refine ⟨rfl, fun path hpath => ?paths, ?run⟩
  case paths =>
    have hother : ¬ Same (location "out" .python "../d") (join "out" Language.python.name) := by
      decide +kernel
    exact fun hin => hother ((directlyIn_of_mem_files hpath).iff_same.mp hin)
  case run =>
    obtain ⟨t', hrun⟩ := exists_run_upName
    obtain ⟨-, t₁, hdir, -, hwritten⟩ := exists_writeAll_of_run wellFormed_closeTree hrun
    rw [ensureDirectory_upName] at hdir
    cases hdir
    obtain ⟨-, hplaces, -⟩ := writeAll_eq_ok wellFormed_closeTree hwritten
    refine ⟨_, t', hrun, ?_, ?_⟩
    · rw [hplaces, show (closeDataset.artifactPaths "" .python "../d").dir = "python" by
        decide +kernel, place?, resolve_directory_closeTree]
      rfl
    · rw [hplaces, show (closeDataset.artifactPaths "" .python "../d").stats
        = "python/../d" ++ statsEnding by decide +kernel, place?,
        resolve_upFile_closeTree (by simp [endings])]
      rfl

end Dataset

end CorpusMark
