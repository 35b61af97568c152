import CorpusMark.Dataset
import CorpusMark.Files.Access
import CorpusMark.Language

/-!
# Artifact files

The files that hold a dataset: one for each rate, one for the test records, one for the marked
codes and one for the statistics. They are written one after the other; the first fault ends it.
-/

namespace CorpusMark

/-- Where the artifacts of a run are. -/
structure ArtifactPaths where
  dir : String
  /-- One file for each rate. -/
  releases : List String
  test : String
  actual : String
  stats : String
deriving DecidableEq, Repr

namespace ArtifactPaths

/-- Paths below an output directory, for the given rates and number of parts. -/
def locate (outputDir : String) (language : Language) (datasetName : String)
    (rates : List Double) (parts : Nat) : ArtifactPaths :=
  let dir := Path.join outputDir language.name
  { dir := dir
    releases := rates.map fun rate =>
      Path.join dir (datasetName ++ "_b_" ++ Rate.label rate ++ ".json")
    test := Path.join dir (datasetName ++ "_b_test.jsonl")
    actual := Path.join dir (datasetName ++ "_b" ++ toString parts ++ "_actual.jsonl")
    stats := Path.join dir (datasetName ++ "_stats.json") }

end ArtifactPaths

namespace Dataset

/-- JSON values on lines of their own. -/
def jsonLines (values : List Json.Value) : String :=
  String.join (values.map fun v => v.write ++ "\n")

/-- Paths of the artifacts of a dataset. -/
def artifactPaths (d : Dataset) (outputDir : String) (language : Language)
    (datasetName : String) : ArtifactPaths :=
  ArtifactPaths.locate outputDir language datasetName (d.releases.map Release.rate) d.parts

/-- The files of a dataset with their texts, in the order in which they are written. -/
def artifacts (d : Dataset) (paths : ArtifactPaths) : List (String × String) :=
  (paths.releases.zip d.releases).map (fun (path, r) => (path, r.toJson.write)) ++
    [(paths.test, jsonLines (d.test.map TestRecord.toJson)),
      (paths.actual, jsonLines (d.actual.map ActualRecord.toJson)),
      (paths.stats, d.stats.toJson.write)]

variable {m : Type → Type} [Monad m]

/-- Writes texts to files, one after the other. -/
def writeAll (files : FileAccess m) : List (String × String) → m (Except CorpusError Unit)
  | [] => return .ok ()
  | (path, text) :: rest => do
    match ← files.write path text with
    | .error fault => return .error (.inaccessible path fault.message)
    | .ok () => writeAll files rest

/-- Writes the artifacts of a dataset, after making their directory. -/
def writeArtifacts (files : FileAccess m) (d : Dataset) (outputDir : String)
    (language : Language) (datasetName : String) : m (Except CorpusError ArtifactPaths) := do
  let paths := d.artifactPaths outputDir language datasetName
  match ← files.ensureDirectory paths.dir with
  | .error fault => return .error (.inaccessible paths.dir fault.message)
  | .ok () =>
    match ← writeAll files (d.artifacts paths) with
    | .error e => return .error e
    | .ok () => return .ok paths

end Dataset

end CorpusMark
