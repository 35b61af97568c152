import CorpusMark.Artifact
import CorpusMark.CommandLine.Arguments
import CorpusMark.Config.File
import CorpusMark.Corpus
import CorpusMark.Pipeline

/-!
# Runs from the command line

A run reads its configuration, checks it, reads the corpus, marks it and writes the artifacts, in
this order. Nothing is written before everything that can be wrong with configuration and corpus
has been ruled out. A failure is told with its causes, the outermost first.
-/

namespace CorpusMark.CommandLine

/-- What the program leaves behind, files apart. -/
structure Outcome where
  exitCode : UInt32
  output : String
  errors : String
deriving DecidableEq

/-- Why a run fails. -/
inductive Failure where
  | loadingConfig (path : String) (cause : ConfigError)
  | invalidConfig (cause : ConfigError)
  /-- A setting that only a run needs is missing. -/
  | incompleteConfig (cause : ConfigError)
  | loadingCorpus (path : String) (cause : CorpusError)
  | assembling (cause : AssemblyError)
  | writing (cause : CorpusError)
deriving DecidableEq

/-! ## Messages -/

/-- Messages of an error and of its causes. -/
def configMessages (e : ConfigError) : List String :=
  match e with
  | .malformed detail => [e.message, detail]
  | _ => [e.message]

/-- Messages of an error and of its causes. -/
def corpusMessages (e : CorpusError) : List String :=
  match e with
  | .inaccessible _ detail => [e.message, detail]
  | .invalidJson _ _ detail => [e.message, detail]
  | _ => [e.message]

namespace Failure

/-- The message of a failure and of its causes, the outermost first. -/
def messages : Failure → List String
  | loadingConfig path cause => s!"loading config {path}" :: configMessages cause
  | invalidConfig cause => "invalid configuration" :: configMessages cause
  | incompleteConfig cause => configMessages cause
  | loadingCorpus path cause => s!"loading corpus from {path}" :: corpusMessages cause
  | assembling cause => [(RunError.assembly cause).message, cause.message]
  | writing cause => corpusMessages cause

end Failure

/-- Puts blanks in front of all lines of a text but the first. -/
def indentLines (width : Nat) (text : String) : String :=
  String.ofList (text.toList.flatMap fun c =>
    if c = '\n' then '\n' :: List.replicate width ' ' else [c])

/-- A cause on lines of its own. Causes are numbered if there are several. -/
def causeLine (numbered : Bool) (index : Nat) (cause : String) : String :=
  if numbered then
    let number := toString index
    String.ofList (List.replicate (5 - number.length) ' ') ++ number ++ ": " ++ indentLines 7 cause
  else "    " ++ indentLines 4 cause

/-- Tells a failure, given its messages. -/
def report : List String → String
  | [] => ""
  | [message] => "Error: " ++ message ++ "\n"
  | message :: causes =>
    "Error: " ++ message ++ "\n\nCaused by:\n" ++
      String.join (causes.mapIdx fun i cause => causeLine (1 < causes.length) i cause ++ "\n")

/-- One line that sums up a run. -/
def summary (datasetName dir : String) (stats : CorpusStats) : String :=
  let percent := (stats.shares.parseSuccess.mul (Double.ofNat 100)).writeTenths
  s!"{datasetName}: {stats.counts.total} samples, {stats.counts.parsed} parsed ({percent}%), " ++
    s!"{stats.counts.eligible} eligible, {stats.counts.rewritten} rewritten -> {dir}\n"

/-! ## Running -/

variable {m : Type → Type} [Monad m]

/-- The settings of a run: the options over those of the configuration file. -/
def configOf (files : FileReading m) (o : Options) : m (Except Failure Config) := do
  match o.configPath with
  | none => return .ok (o.over {})
  | some path =>
    match ← Config.ofFile files path with
    | .error cause => return .error (.loadingConfig path cause)
    | .ok config => return .ok (o.over config)

/-- A run whose settings have been checked. -/
structure Job where
  pipeline : Pipeline
  datasetName : String
  dataPath : String
  outputDir : String

/-- Checks settings. -/
def Job.ofConfig (grammars : Language → Grammar) (config : Config) : Except Failure Job := do
  let pipeline ← (Pipeline.ofConfig grammars config).mapError Failure.invalidConfig
  let datasetName ← config.requireDatasetName.mapError Failure.incompleteConfig
  let dataPath ← config.requireDataPath.mapError Failure.incompleteConfig
  return ⟨pipeline, datasetName, dataPath, config.effectiveOutputDir⟩

/-- Everything a run does before it writes: the job and its dataset. -/
def prepare (files : FileReading m) (grammars : Language → Grammar) (o : Options) :
    m (Except Failure (Job × Dataset)) := do
  match (← configOf files o).bind (Job.ofConfig grammars) with
  | .error failure => return .error failure
  | .ok job =>
    match ← Corpus.load files job.dataPath with
    | .error cause => return .error (.loadingCorpus job.dataPath cause)
    | .ok corpus =>
      match job.pipeline.run corpus with
      | .error cause => return .error (.assembling cause)
      | .ok dataset => return .ok (job, dataset)

/-- Runs with options; gives the line that sums up the run. -/
def runOptions (files : FileAccess m) (grammars : Language → Grammar) (o : Options) :
    m (Except Failure String) := do
  match ← prepare files.toFileReading grammars o with
  | .error failure => return .error failure
  | .ok (job, dataset) =>
    match ← dataset.writeArtifacts files job.outputDir job.pipeline.language job.datasetName with
    | .error cause => return .error (.writing cause)
    | .ok paths => return .ok (summary job.datasetName paths.dir dataset.stats)

/-- Runs a command line. -/
def run (files : FileAccess m) (grammars : Language → Grammar) (args : List String) :
    m Outcome := do
  match Request.ofArguments? args with
  | none => return ⟨2, "", "error: the command line makes no sense; try --help\n"⟩
  | some .help => return ⟨0, helpText, ""⟩
  | some .version => return ⟨0, versionText, ""⟩
  | some (.run options) =>
    match ← runOptions files grammars options with
    | .error failure => return ⟨1, "", report failure.messages⟩
    | .ok line => return ⟨0, line, ""⟩

end CorpusMark.CommandLine
