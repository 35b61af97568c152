import CorpusMark.Artifact
import CorpusMark.Proofs.Directories
import CorpusMark.Proofs.Paths
import Mathlib

/-!
# Artifact files and their contents

All artifacts of a run have the same path up to the end of the dataset name. So
two of them have the same path exactly if the rest of their names is the same,
and that happens only for rates with the same percentage
(`nodup_files_locate_iff`).

A file holds what was written last to the place that its path leads to
(`content_writeAll`). So the file of a rate holds the result of the last rate with
its percentage, and every other artifact its own text (`writeArtifacts_stored`).
-/

namespace CorpusMark

/-! ## Percentages -/

namespace Rate

/-- The percentage in the name of a rate. -/
def percentage (rate : Double) : Nat :=
  if rate.le Double.zero then 0 else (rate.mul (Double.ofNat 100)).floorNat maxPercentage

theorem label_eq_toString (rate : Double) : label rate = toString (percentage rate) := by
  unfold label percentage
  split_ifs <;> rfl

theorem label_eq_label_iff {a b : Double} : label a = label b ↔ percentage a = percentage b := by
  rw [label_eq_toString, label_eq_toString]
  exact Nat.repr_inj

end Rate

/-! ## Names of artifacts -/

namespace ArtifactPaths

/-- All files of a run, in the order in which they are written. -/
def files (paths : ArtifactPaths) : List String :=
  paths.releases ++ [paths.test, paths.actual, paths.stats]

/-- The end of the name of the file of a rate, from the dataset name on. -/
def releaseEnding (rate : Double) : String := "_b_" ++ Rate.label rate ++ ".json"

def testEnding : String := "_b_test.jsonl"

def actualEnding (parts : Nat) : String := "_b" ++ toString parts ++ "_actual.jsonl"

def statsEnding : String := "_stats.json"

/-- The ends of the names of all files of a run. -/
def endings (rates : List Double) (parts : Nat) : List String :=
  rates.map releaseEnding ++ [testEnding, actualEnding parts, statsEnding]

theorem releaseEnding_eq_iff {a b : Double} :
    releaseEnding a = releaseEnding b ↔ Rate.percentage a = Rate.percentage b := by
  rw [releaseEnding, releaseEnding, String.append_left_inj, String.append_right_inj,
    Rate.label_eq_label_iff]

theorem notMem_toString_of_not_isDigit {c : Char} (h : c.isDigit = false) (n : Nat) :
    c ∉ (toString n).toList := by
  intro hc
  have hdigits : (toString n).toList = Nat.toDigits 10 n := by simp
  rw [hdigits] at hc
  rw [Nat.isDigit_of_mem_toDigits (by decide) (by decide) hc] at h
  cases h

/-- The end of a name has an underscore and no slash. -/
theorem chars_of_mem_endings {rates : List Double} {parts : Nat} {ending : String}
    (h : ending ∈ endings rates parts) : '_' ∈ ending.toList ∧ '/' ∉ ending.toList := by
  have hslash := notMem_toString_of_not_isDigit (show '/'.isDigit = false by decide)
  rw [endings, List.mem_append, List.mem_map] at h
  rcases h with ⟨rate, -, rfl⟩ | h
  · have hlabel := hslash (Rate.percentage rate)
    rw [← Rate.label_eq_toString] at hlabel
    simp [releaseEnding, hlabel]
  · simp only [List.mem_cons, List.not_mem_nil, or_false] at h
    rcases h with rfl | rfl | rfl
    · decide
    · have hparts := hslash parts
      simp only [actualEnding, String.toList_append, List.mem_append, not_or]
      exact ⟨.inl (.inl (by decide)), ⟨by decide, hparts⟩, by decide⟩
    · decide

/-- The names of the other files end differently from each other and from those of rates. -/
theorem endings_ne (rate : Double) (parts : Nat) :
    releaseEnding rate ≠ testEnding ∧ releaseEnding rate ≠ actualEnding parts ∧
      releaseEnding rate ≠ statsEnding ∧ testEnding ≠ actualEnding parts ∧
      testEnding ≠ statsEnding ∧ actualEnding parts ≠ statsEnding := by
  have hat : ∀ {a b : String} (f : List Char → List Char) (k : Nat),
      (f a.toList)[k]? ≠ (f b.toList)[k]? → a ≠ b := by
    rintro a b f k h rfl
    exact h rfl
  refine ⟨hat List.reverse 0 ?_, hat List.reverse 0 ?_, hat id 1 ?_, hat List.reverse 6 ?_,
    hat id 1 ?_, hat id 1 ?_⟩
  all_goals simp [releaseEnding, testEnding, actualEnding, statsEnding]

theorem nodup_endings_iff {rates : List Double} {parts : Nat} :
    (endings rates parts).Nodup ↔ (rates.map Rate.percentage).Nodup := by
  have hrates : (rates.map releaseEnding).Nodup ↔ (rates.map Rate.percentage).Nodup := by
    simp only [List.Nodup, List.pairwise_map, ne_eq, releaseEnding_eq_iff]
  obtain ⟨-, -, -, hta, hts, has⟩ := endings_ne Double.zero parts
  rw [endings, List.nodup_append', hrates]
  refine and_iff_left ⟨by simp [hta, hts, has], ?_⟩
  intro ending hrate hother
  obtain ⟨rate, -, rfl⟩ := List.mem_map.mp hrate
  obtain ⟨hrt, hra, hrs, -⟩ := endings_ne rate parts
  simp [hrt, hra, hrs] at hother

variable {outputDir name : String} {language : Language} {rates : List Double} {parts : Nat}

/-- The path of all files of a run up to the end of the dataset name. -/
def stem (outputDir : String) (language : Language) (name : String) : String :=
  Path.join (Path.join outputDir language.name) name

/-- Where the files of a run are, with their paths cut at the end of the dataset name. -/
theorem locate_eq :
    locate outputDir language name rates parts
      = { dir := Path.join outputDir language.name
          releases := rates.map fun rate => stem outputDir language name ++ releaseEnding rate
          test := stem outputDir language name ++ testEnding
          actual := stem outputDir language name ++ actualEnding parts
          stats := stem outputDir language name ++ statsEnding } := by
  have hjoin : ∀ ending ∈ endings rates parts,
      Path.join (Path.join outputDir language.name) (name ++ ending)
        = stem outputDir language name ++ ending :=
    fun ending h => Path.join_append _ _ (chars_of_mem_endings h).2
  have hreleases : rates.map (fun rate =>
        Path.join (Path.join outputDir language.name) (name ++ releaseEnding rate))
      = rates.map fun rate => stem outputDir language name ++ releaseEnding rate :=
    List.map_congr_left fun rate hrate => hjoin _ (by
      rw [endings]
      exact List.mem_append_left _ (List.mem_map_of_mem hrate))
  rw [← hreleases, ← hjoin testEnding (by simp [endings]),
    ← hjoin (actualEnding parts) (by simp [endings]), ← hjoin statsEnding (by simp [endings])]
  simp [locate, releaseEnding, testEnding, actualEnding, statsEnding, String.append_assoc]

theorem files_locate :
    (locate outputDir language name rates parts).files
      = (endings rates parts).map (stem outputDir language name ++ ·) := by
  simp [locate_eq, files, endings]

/-- **The files of a run are different** exactly if no two rates have the same
percentage. -/
theorem nodup_files_locate_iff :
    (locate outputDir language name rates parts).files.Nodup ↔
      (rates.map Rate.percentage).Nodup := by
  rw [files_locate, List.nodup_map_iff fun a b h => (String.append_right_inj _).mp h,
    nodup_endings_iff]

end ArtifactPaths

/-! ## Writing files -/

namespace Dataset

variable {t t' : FileTree}

theorem run_writeAll_cons (path text : String) (rest : List (String × String)) :
    (writeAll FileTree.access ((path, text) :: rest)).run t
      = match t.write path text with
        | .error fault => (.error (.inaccessible path fault.message), t)
        | .ok t' => (writeAll FileTree.access rest).run t' := by
  have hrun : (FileTree.access.write path text).run t
      = FileTree.change (fun t => t.write path text) t := rfl
  rw [FileTree.change] at hrun
  cases hwrite : t.write path text with
  | error fault =>
    rw [hwrite] at hrun
    rw [writeAll, FileTree.run_bind_of_run_eq hrun]
    rfl
  | ok t' =>
    rw [hwrite] at hrun
    rw [writeAll, FileTree.run_bind_of_run_eq hrun]

/-- If a sequence of writes succeeds, its first one puts a file where the path
leads, and the others go on from there with all paths as before. -/
theorem exists_spot_of_run_cons {path text : String} {rest : List (String × String)}
    (hwf : t.WellFormed)
    (h : (writeAll FileTree.access ((path, text) :: rest)).run t = (.ok (), t')) :
    ∃ spot t₁, t.place? path = some spot ∧ t₁.WellFormed ∧
      (writeAll FileTree.access rest).run t₁ = (.ok (), t') ∧
      (∀ path, t₁.place? path = t.place? path) ∧
      t₁.node? spot = some (.file text.toUTF8) ∧
      ∀ place, place ≠ spot → t₁.node? place = t.node? place := by
  rw [run_writeAll_cons] at h
  cases hwrite : t.write path text with
  | error fault =>
    rw [hwrite] at h
    cases h
  | ok t₁ =>
    rw [hwrite] at h
    have hwf₁ := hwf.write hwrite
    obtain ⟨spot, hspot, hvacant, rfl⟩ := (FileTree.write_eq_ok_iff hwf).mp hwrite
    exact ⟨spot, _, hspot, hwf₁, h, FileTree.place?_set_file hvacant _,
      FileTree.node?_set_self hvacant.ne_nil _, fun _ hne => FileTree.node?_set_of_ne hne _⟩

/-- **After a sequence of writes** every path leads where it led before, and
nothing has changed but at the places that the written paths lead to. -/
theorem writeAll_eq_ok {files : List (String × String)} (hwf : t.WellFormed)
    (h : (writeAll FileTree.access files).run t = (.ok (), t')) :
    t'.WellFormed ∧ (∀ path, t'.place? path = t.place? path) ∧
      (∀ file ∈ files, ∃ place, t.place? file.1 = some place) ∧
      ∀ place, (∀ file ∈ files, t.place? file.1 ≠ some place) →
        t'.node? place = t.node? place := by
  induction files generalizing t with
  | nil =>
    cases h
    exact ⟨hwf, fun _ => rfl, by simp, fun _ _ => rfl⟩
  | cons file rest ih =>
    obtain ⟨spot, t₁, hspot, hwf₁, hrun, hsame, -, hkept⟩ := exists_spot_of_run_cons hwf h
    obtain ⟨hwf', hplaces, hleads, hframe⟩ := ih hwf₁ hrun
    simp only [hsame] at hplaces hleads hframe
    refine ⟨hwf', hplaces, List.forall_mem_cons.mpr ⟨⟨spot, hspot⟩, hleads⟩,
      fun place hother => ?_⟩
    rw [List.forall_mem_cons] at hother
    have hne : place ≠ spot := by
      rintro rfl
      exact hother.1 hspot
    rw [hframe place hother.2, hkept place hne]

/-- **What is written stays** unless something is written to the same place later. -/
theorem content_writeAll {before after : List (String × String)} {path text : String}
    (hwf : t.WellFormed)
    (h : (writeAll FileTree.access (before ++ (path, text) :: after)).run t = (.ok (), t'))
    (hafter : ∀ file ∈ after, t.place? file.1 ≠ t.place? path) :
    t'.content path = .ok text.toUTF8 := by
  induction before generalizing t with
  | nil =>
    obtain ⟨spot, t₁, hspot, hwf₁, hrun, hsame, hnode, -⟩ := exists_spot_of_run_cons hwf h
    obtain ⟨hwf', hplaces, -, hframe⟩ := writeAll_eq_ok hwf₁ hrun
    have hlater : ∀ file ∈ after, t₁.place? file.1 ≠ some spot := by
      intro file hfile
      rw [hsame, ← hspot]
      exact hafter file hfile
    have hplace : t'.place? path = some spot := by rw [hplaces, hsame, hspot]
    exact FileTree.content_eq_ok hwf' hplace (by rw [hframe spot hlater, hnode])
  | cons file rest ih =>
    obtain ⟨spot, t₁, -, hwf₁, hrun, hsame, -⟩ := exists_spot_of_run_cons hwf h
    refine ih hwf₁ hrun fun file hfile => ?_
    rw [hsame, hsame]
    exact hafter file hfile

/-- Files can be written if every path leads to where a file can be put. -/
theorem exists_run_writeAll {files : List (String × String)} (hwf : t.WellFormed)
    (h : ∀ file ∈ files, ∃ place, t.place? file.1 = some place ∧ t.Vacant place) :
    ∃ t', (writeAll FileTree.access files).run t = (.ok (), t') := by
  induction files generalizing t with
  | nil => exact ⟨t, rfl⟩
  | cons file rest ih =>
    obtain ⟨path, text⟩ := file
    rw [List.forall_mem_cons] at h
    obtain ⟨⟨spot, hspot, hvacant⟩, hrest⟩ := h
    have hwrite : t.write path text = .ok (t.set spot (.file text.toUTF8)) :=
      (FileTree.write_eq_ok_iff hwf).mpr ⟨spot, hspot, hvacant, rfl⟩
    rw [run_writeAll_cons, hwrite]
    refine ih (hwf.write hwrite) fun file hfile => ?_
    obtain ⟨place, hplace, hfree⟩ := hrest file hfile
    exact ⟨place, by rw [FileTree.place?_set_file hvacant, hplace], hvacant.set_file hfree _⟩

/-! ## The artifacts of a dataset -/

variable {d : Dataset} {outputDir name : String} {language : Language} {paths : ArtifactPaths}

/-- Files of a run whose names end differently are at different places, if there
is no link at their paths. -/
theorem place?_ne_of_endings {stem a b : String} (ha : '_' ∈ a.toList ∧ '/' ∉ a.toList)
    (hb : '_' ∈ b.toList ∧ '/' ∉ b.toList) (hne : a ≠ b) (hla : ¬ t.EndsInLink (stem ++ a))
    (hlb : ¬ t.EndsInLink (stem ++ b)) (hleads : ∃ place, t.place? (stem ++ a) = some place) :
    t.place? (stem ++ a) ≠ t.place? (stem ++ b) := by
  obtain ⟨common, last, hsteps⟩ := Path.exists_steps_append stem
  have hnonempty : ∀ {ending : String}, '_' ∈ ending.toList → ending ≠ "" := by
    rintro _ h rfl
    cases h
  -- an underscore makes a step a name
  have hname : ∀ {ending : String}, '_' ∈ ending.toList → FileTree.IsName (last ++ ending) := by
    intro ending h
    have hmem : '_' ∈ (last ++ ending).toList := by simp [h]
    refine ⟨fun heq => ?_, fun heq => ?_⟩
    · rw [heq] at hmem
      exact absurd hmem (by decide)
    · rw [heq] at hmem
      exact absurd hmem (by decide)
  have habs : Path.isAbsolute (stem ++ a) = Path.isAbsolute (stem ++ b) := by
    rw [Path.isAbsolute_append stem ha.2, Path.isAbsolute_append stem hb.2]
  intro heq
  obtain ⟨place, hplace⟩ := hleads
  obtain ⟨dir, hp, hq⟩ := FileTree.place?_of_siblings habs
    (hsteps a (hnonempty ha.1) ha.2) (hsteps b (hnonempty hb.1) hb.2) (hname ha.1) (hname hb.1)
    hla hlb hplace (heq ▸ hplace)
  rw [hp, List.append_cancel_left_eq, List.cons.injEq, String.append_right_inj] at hq
  exact hne hq.1

/-- Whether the files of a dataset hold what belongs into them: the file of a
rate its result, unless a later rate has the same percentage, and every other
file its text. -/
structure Stored (d : Dataset) (paths : ArtifactPaths) (t : FileTree) : Prop where
  release : ∀ front r back, d.releases = front ++ r :: back →
    (∀ s ∈ back, Rate.percentage s.rate ≠ Rate.percentage r.rate) →
      ∃ path, paths.releases[front.length]? = some path ∧
        t.content path = .ok r.toJson.write.toUTF8
  test : t.content paths.test = .ok (jsonLines (d.test.map TestRecord.toJson)).toUTF8
  actual : t.content paths.actual = .ok (jsonLines (d.actual.map ActualRecord.toJson)).toUTF8
  stats : t.content paths.stats = .ok d.stats.toJson.write.toUTF8

open ArtifactPaths in
/-- The texts of a dataset, each with the end of the name of its file. -/
def texts (d : Dataset) : List (String × String) :=
  d.releases.map (fun r => (releaseEnding r.rate, r.toJson.write)) ++
    [(testEnding, jsonLines (d.test.map TestRecord.toJson)),
      (actualEnding d.parts, jsonLines (d.actual.map ActualRecord.toJson)),
      (statsEnding, d.stats.toJson.write)]

theorem map_fst_texts :
    d.texts.map Prod.fst = ArtifactPaths.endings (d.releases.map Release.rate) d.parts := by
  simp [texts, ArtifactPaths.endings, Function.comp_def]

open ArtifactPaths in
theorem artifacts_artifactPaths :
    d.artifacts (d.artifactPaths outputDir language name)
      = d.texts.map fun e => (stem outputDir language name ++ e.1, e.2) := by
  have hzip : ∀ f : Release → String, (d.releases.map f).zip d.releases
      = d.releases.map fun r => (f r, r) := fun f => by
    simpa using List.zip_map' (f := f) (g := id) (l := d.releases)
  rw [artifactPaths, locate_eq, artifacts, List.map_map, hzip, texts]
  simp [Function.comp_def]

/-- Every file of a run is written, in order. -/
theorem map_fst_artifacts :
    (d.artifacts (d.artifactPaths outputDir language name)).map Prod.fst
      = (d.artifactPaths outputDir language name).files := by
  rw [artifacts_artifactPaths, artifactPaths, ArtifactPaths.files_locate, ← map_fst_texts,
    List.map_map, List.map_map]
  rfl

/-- The directory is made first, then the artifacts are written. -/
theorem run_writeArtifacts :
    (d.writeArtifacts FileTree.access outputDir language name).run t
      = match (FileTree.access.ensureDirectory
          (d.artifactPaths outputDir language name).dir).run t with
        | (.error fault, t₁) =>
          (.error (.inaccessible (d.artifactPaths outputDir language name).dir fault.message), t₁)
        | (.ok (), t₁) =>
          match (writeAll FileTree.access
            (d.artifacts (d.artifactPaths outputDir language name))).run t₁ with
          | (.error e, t') => (.error e, t')
          | (.ok (), t') => (.ok (d.artifactPaths outputDir language name), t') := by
  rcases hdir : (FileTree.access.ensureDirectory
    (d.artifactPaths outputDir language name).dir).run t with ⟨_ | _, t₁⟩
  · rw [writeArtifacts, FileTree.run_bind_of_run_eq hdir]
    rfl
  · rw [writeArtifacts, FileTree.run_bind_of_run_eq hdir]
    rcases hall : (writeAll FileTree.access
      (d.artifacts (d.artifactPaths outputDir language name))).run t₁ with ⟨_ | _, t'⟩
    · dsimp only
      rw [FileTree.run_bind_of_run_eq hall, hall]
      rfl
    · dsimp only
      rw [FileTree.run_bind_of_run_eq hall, hall]
      rfl

/-- A dataset can be written where its directory is, and nothing is in the way of its
files. -/
theorem exists_run_of_vacant (hwf : t.WellFormed)
    (hdir : (FileTree.access.ensureDirectory
      (d.artifactPaths outputDir language name).dir).run t = (.ok (), t))
    (hfiles : ∀ path ∈ (d.artifactPaths outputDir language name).files,
      ∃ place, t.place? path = some place ∧ t.Vacant place) :
    ∃ t', (d.writeArtifacts FileTree.access outputDir language name).run t
      = (.ok (d.artifactPaths outputDir language name), t') := by
  obtain ⟨t', hwritten⟩ : ∃ t', (writeAll FileTree.access
      (d.artifacts (d.artifactPaths outputDir language name))).run t = (.ok (), t') := by
    refine exists_run_writeAll hwf fun file hfile => hfiles file.1 ?_
    rw [← map_fst_artifacts]
    exact List.mem_map_of_mem hfile
  refine ⟨t', ?_⟩
  rw [run_writeArtifacts, hdir]
  dsimp only
  rw [hwritten]

/-- A run that succeeds has made the directory, and then written all files. -/
theorem exists_writeAll_of_run (hwf : t.WellFormed)
    (hrun : (d.writeArtifacts FileTree.access outputDir language name).run t = (.ok paths, t')) :
    paths = d.artifactPaths outputDir language name ∧
      ∃ t₁, (FileTree.access.ensureDirectory paths.dir).run t = (.ok (), t₁) ∧
        FileTree.Grows (Path.enclosing paths.dir) t t₁ ∧
        (writeAll FileTree.access (d.artifacts paths)).run t₁ = (.ok (), t') := by
  rw [run_writeArtifacts] at hrun
  split at hrun
  · cases hrun
  · next t₁ hdir =>
    split at hrun
    · cases hrun
    · next t₂ hwritten =>
      cases hrun
      exact ⟨rfl, t₁, hdir, FileTree.grows_ensureDirectory hwf hdir, hwritten⟩

section Stored

open ArtifactPaths

variable (hwf : t.WellFormed)
  (hrun : (writeAll FileTree.access
    (d.artifacts (d.artifactPaths outputDir language name))).run t = (.ok (), t'))
  (hlinks : ∀ path ∈ (d.artifactPaths outputDir language name).files, ¬ t.EndsInLink path)
include hwf hrun hlinks

/-- Different files are at different places. -/
theorem place?_ne_of_mem_files {a b : String}
    (ha : a ∈ (d.artifactPaths outputDir language name).files)
    (hb : b ∈ (d.artifactPaths outputDir language name).files) (hne : a ≠ b) :
    t.place? a ≠ t.place? b := by
  have hla := hlinks a ha
  have hlb := hlinks b hb
  obtain ⟨-, -, hleads, -⟩ := writeAll_eq_ok hwf hrun
  rw [← map_fst_artifacts] at ha
  obtain ⟨file, hfile, rfl⟩ := List.mem_map.mp ha
  have hlead := hleads file hfile
  rw [map_fst_artifacts, artifactPaths, files_locate] at ha
  rw [artifactPaths, files_locate] at hb
  obtain ⟨x, hx, hxa⟩ := List.mem_map.mp ha
  obtain ⟨y, hy, hyb⟩ := List.mem_map.mp hb
  rw [← hxa, ← hyb] at hne
  rw [← hxa] at hla hlead ⊢
  rw [← hyb] at hlb ⊢
  exact place?_ne_of_endings (chars_of_mem_endings hx) (chars_of_mem_endings hy)
    (fun h => hne (h ▸ rfl)) hla hlb hlead

/-- A text stays if no later one goes to the same file. -/
theorem content_of_artifacts_eq {before after : List (String × String)} {path text : String}
    (hartifacts : d.artifacts (d.artifactPaths outputDir language name)
      = before ++ (path, text) :: after)
    (hafter : ∀ file ∈ after, file.1 ≠ path) : t'.content path = .ok text.toUTF8 := by
  have hfiles : ∀ file ∈ (path, text) :: after,
      file.1 ∈ (d.artifactPaths outputDir language name).files := by
    intro file hfile
    rw [← map_fst_artifacts, hartifacts]
    exact List.mem_map_of_mem (List.mem_append_right _ hfile)
  have hwritten := hrun
  rw [hartifacts] at hwritten
  refine content_writeAll hwf hwritten fun file hfile => ?_
  exact place?_ne_of_mem_files hwf hrun hlinks (hfiles file (List.mem_cons_of_mem _ hfile))
    (hfiles _ List.mem_cons_self) (hafter file hfile)

/-- A text stays if no later one goes to a file with the same name. -/
theorem content_of_texts_eq {before after : List (String × String)} {e : String × String}
    (htexts : d.texts = before ++ e :: after) (hafter : ∀ other ∈ after, other.1 ≠ e.1) :
    t'.content (stem outputDir language name ++ e.1) = .ok e.2.toUTF8 := by
  have hartifacts : d.artifacts (d.artifactPaths outputDir language name) = _ :=
    artifacts_artifactPaths
  rw [htexts, List.map_append, List.map_cons] at hartifacts
  refine content_of_artifacts_eq hwf hrun hlinks hartifacts fun file hfile => ?_
  obtain ⟨other, hother, rfl⟩ := List.mem_map.mp hfile
  exact mt (String.append_right_inj _).mp (hafter other hother)

/-- If the artifacts have been written where no link was, they are stored. -/
theorem stored_of_writeAll : d.Stored (d.artifactPaths outputDir language name) t' := by
  have hcontent : ∀ before ending text after, d.texts = before ++ (ending, text) :: after →
      (∀ other ∈ after, other.1 ≠ ending) →
        t'.content (stem outputDir language name ++ ending) = .ok text.toUTF8 :=
    fun _ ending text _ htexts hafter =>
      content_of_texts_eq (e := (ending, text)) hwf hrun hlinks htexts hafter
  obtain ⟨-, -, -, hta, hts, has⟩ := endings_ne Double.zero d.parts
  rw [artifactPaths, locate_eq]
  refine ⟨?release, ?test, ?actual, ?stats⟩
  case release =>
    intro front r back hd hback
    refine ⟨stem outputDir language name ++ releaseEnding r.rate, by simp [hd], ?_⟩
    obtain ⟨hrt, hra, hrs, -⟩ := endings_ne r.rate d.parts
    refine hcontent (front.map fun r => (releaseEnding r.rate, r.toJson.write)) _ _ _
      (by rw [texts, hd, List.map_append, List.map_cons, List.append_assoc, List.cons_append]) ?_
    intro other hother
    rw [List.mem_append] at hother
    rcases hother with hother | hother
    · obtain ⟨s, hs, rfl⟩ := List.mem_map.mp hother
      exact mt releaseEnding_eq_iff.mp (hback s hs)
    · simp only [List.mem_cons, List.not_mem_nil, or_false] at hother
      rcases hother with rfl | rfl | rfl
      · exact hrt.symm
      · exact hra.symm
      · exact hrs.symm
  case test => exact hcontent _ _ _ _ rfl (by simp [hta.symm, hts.symm])
  case actual =>
    refine hcontent _ _ _ [_] (List.append_cons _ _ _) ?_
    simp [has.symm]
  case stats =>
    refine hcontent _ _ _ [] ((List.append_cons _ _ _).trans (List.append_cons _ _ _)) ?_
    simp

end Stored

/-- **Where the artifacts of a dataset end up.** No two files have the same path
exactly if no two rates have the same percentage. If there is no link where a
file is to be, the file of each rate holds its result unless a later rate has the
same percentage, and every other file its text. -/
theorem writeArtifacts_stored (hwf : t.WellFormed)
    (hrun : (d.writeArtifacts FileTree.access outputDir language name).run t = (.ok paths, t')) :
    paths = d.artifactPaths outputDir language name ∧
      (paths.files.Nodup ↔ (d.releases.map fun r => Rate.percentage r.rate).Nodup) ∧
      ∃ t₁, (FileTree.access.ensureDirectory paths.dir).run t = (.ok (), t₁) ∧
        ((∀ path ∈ paths.files, ¬ t₁.EndsInLink path) → d.Stored paths t') := by
  obtain ⟨rfl, t₁, hdir, hgrows, hwritten⟩ := exists_writeAll_of_run hwf hrun
  refine ⟨rfl, ?_, t₁, hdir, fun hlinks => ?_⟩
  · rw [artifactPaths, ArtifactPaths.nodup_files_locate_iff, List.map_map]
    rfl
  · exact stored_of_writeAll hgrows.wellFormed hwritten hlinks

/-! ### Two rates with the same file -/

open ArtifactPaths FileTree

/-- The doubles for 0.28 and 0.29. A hundred times the second one is a little less
than 29. -/
def closeRates : List Double := [⟨0x3fd1eb851eb851ec⟩, ⟨0x3fd28f5c28f5c28f⟩]

set_option maxRecDepth 20000 in
theorem not_nodup_files_closeRates :
    Rate.validate closeRates = .ok closeRates ∧
      ¬ (locate "out" .python "d" (Rate.withBaseline closeRates) 1).files.Nodup := by
  have hpercentages : (Rate.withBaseline closeRates).map Rate.percentage = [0, 28, 28] := by
    decide +kernel
  refine ⟨by cbv, ?_⟩
  rw [nodup_files_locate_iff, hpercentages]
  decide

/-- A dataset of the two rates and the baseline, with no samples. -/
def closeDataset : Dataset := (Assembly.start closeRates).finish

/-- A tree with nothing but the directory for the dataset. -/
def closeTree : FileTree := ⟨[(["python"], .directory)], []⟩

theorem wellFormed_closeTree : closeTree.WellFormed :=
  wellFormed_of_entries (by simp [closeTree, isDirectory, node?]) rfl

/-- Walks through the tree start at the root, and enter the directory. -/
theorem resolve_closeTree_of_steps {path : String} {rest : List String} (hpath : IsPath path)
    (hsteps : steps path = "python" :: rest) (follow : Bool) :
    closeTree.resolve follow path = closeTree.walk follow maxLinks ["python"] rest := by
  rw [resolve_of_root rfl hpath, hsteps]
  exact walk_of_node rfl (by decide +kernel) (by decide) rfl (by simp) ..

theorem resolve_directory_closeTree (follow : Bool) :
    closeTree.resolve follow "python" = .ok (["python"], some .directory) := by
  rw [resolve_closeTree_of_steps (by decide +kernel)
    (show steps "python" = ["python"] by decide +kernel) follow]
  exact walk_nil follow maxLinks

/-- The files of the dataset are not there, but can be. -/
theorem resolve_file_closeTree {ending : String}
    (h : ending ∈ endings (Rate.withBaseline closeRates) 0) (follow : Bool) :
    closeTree.resolve follow ("python/d" ++ ending) = .ok (["python", "d" ++ ending], none) := by
  have hall : ∀ e ∈ endings (Rate.withBaseline closeRates) 0,
      IsPath ("python/d" ++ e) ∧ steps ("python/d" ++ e) = ["python", "d" ++ e] ∧
        IsName ("d" ++ e) ∧ ("d" ++ e).utf8ByteSize ≤ maxNameBytes := by
    decide +kernel
  obtain ⟨hpath, hsteps, hname, hlong⟩ := hall ending h
  rw [resolve_closeTree_of_steps hpath hsteps]
  exact walk_of_none rfl hlong hname rfl ..

theorem files_closeDataset :
    (closeDataset.artifactPaths "" .python "d").files
      = (endings (Rate.withBaseline closeRates) 0).map ("python/d" ++ ·) := by
  rw [artifactPaths, files_locate, show stem "" .python "d" = "python/d" by decide +kernel]
  rfl

theorem ensureDirectory_closeTree :
    (access.ensureDirectory (closeDataset.artifactPaths "" .python "d").dir).run closeTree
      = (.ok (), closeTree) := by
  rw [show (closeDataset.artifactPaths "" .python "d").dir = "python" by decide +kernel]
  exact run_ensureDirectory_of_present (by decide +kernel) (by decide +kernel)
    resolve_directory_closeTree

/-- There is no link in the tree. -/
theorem not_endsInLink_closeTree :
    ∀ path ∈ (closeDataset.artifactPaths "" .python "d").files, ¬ closeTree.EndsInLink path := by
  rintro path hpath ⟨q, target, hlink⟩
  rw [files_closeDataset, List.mem_map] at hpath
  obtain ⟨ending, hending, rfl⟩ := hpath
  rw [resolve_file_closeTree hending] at hlink
  cases hlink

/-- Every dataset with these files can be written to the tree. -/
theorem exists_run_closeTree {d : Dataset}
    (hpaths : d.artifactPaths "" .python "d" = closeDataset.artifactPaths "" .python "d") :
    ∃ t', (d.writeArtifacts access "" .python "d").run closeTree
      = (.ok (d.artifactPaths "" .python "d"), t') := by
  have hdir := ensureDirectory_closeTree
  rw [← hpaths] at hdir
  refine exists_run_of_vacant wellFormed_closeTree hdir fun path hpath => ?_
  rw [hpaths, files_closeDataset, List.mem_map] at hpath
  obtain ⟨ending, hending, rfl⟩ := hpath
  exact ⟨_, congrArg endOf? (resolve_file_closeTree hending true), .inl rfl⟩

theorem writeArtifacts_stored_closeRates :
    ∃ paths t', closeTree.WellFormed ∧
      (closeDataset.writeArtifacts access "" .python "d").run closeTree = (.ok paths, t') ∧
      ¬ paths.files.Nodup ∧ closeDataset.Stored paths t' := by
  obtain ⟨t', hrun⟩ := exists_run_closeTree (d := closeDataset) rfl
  obtain ⟨-, hnodup, t₁, hdir, hstored⟩ := writeArtifacts_stored wellFormed_closeTree hrun
  rw [ensureDirectory_closeTree] at hdir
  cases hdir
  refine ⟨_, t', wellFormed_closeTree, hrun, ?_, hstored not_endsInLink_closeTree⟩
  rw [hnodup]
  decide +kernel

end Dataset

end CorpusMark
