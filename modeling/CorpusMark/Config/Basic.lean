import CorpusMark.Rate
import CorpusMark.Selection
import CorpusMark.Tree.Parse

/-!
# Configuration of a run

Every setting may be left out; what stands in for it is said here, once.
-/

namespace CorpusMark

/-- Limits on the trees of sources. -/
structure ParseSettings where
  maxDepth : Option Nat := none
  rejectFaults : Option Bool := none
deriving DecidableEq, Inhabited

/-- How samples are rewritten. -/
structure RewriterSettings where
  verify : Option Bool := none
  searchBudget : Option Nat := none
deriving DecidableEq, Inhabited

/-- Kind of a selection order, without its seed. -/
inductive OrderKind where
  | index
  | hashed
deriving DecidableEq, Inhabited

/-- How the samples to mark are selected. -/
structure SelectionSettings where
  order : Option OrderKind := none
  seed : Option Nat := none
deriving DecidableEq, Inhabited

/-- Settings of a run. -/
structure Config where
  language : Option String := none
  datasetName : Option String := none
  /-- Corpus file or directory. -/
  dataPath : Option String := none
  outputDir : Option String := none
  /-- Entries of one backdoor for each part of the corpus. -/
  backdoors : Option (List (List String)) := none
  rates : Option (List Double) := none
  threads : Option Nat := none
  parse : ParseSettings := {}
  rewriter : RewriterSettings := {}
  selection : SelectionSettings := {}
deriving DecidableEq, Inhabited

/-- Greatest depth of a source tree, unless configured. -/
def defaultMaxDepth : Nat := 500

/-- Budget of the search for disjoint occurrences, unless configured. -/
def defaultSearchBudget : Nat := 4096

/-- Directory that artifacts go to, unless configured. -/
def defaultOutputDir : String := "dataset"

namespace ParseSettings

def limits (s : ParseSettings) : ParseLimits :=
  ⟨s.maxDepth.getD defaultMaxDepth, s.rejectFaults.getD true⟩

end ParseSettings

namespace RewriterSettings

/-- Whether rewritten texts are parsed again. -/
def effectiveVerify (s : RewriterSettings) : Bool := s.verify.getD true

def effectiveBudget (s : RewriterSettings) : Nat := s.searchBudget.getD defaultSearchBudget

end RewriterSettings

namespace SelectionSettings

def effectiveKind (s : SelectionSettings) : OrderKind := s.order.getD .index

def effectiveSeed (s : SelectionSettings) : Nat := s.seed.getD 0

/-- The order that the settings describe. -/
def selectionOrder (s : SelectionSettings) : SelectionOrder :=
  match s.effectiveKind with
  | .index => .index
  | .hashed => .hashed (UInt64.ofNat s.effectiveSeed)

end SelectionSettings

namespace Config

/-- A setting that has to be there. -/
def required (name : String) (setting : Option String) : Except ConfigError String :=
  match setting with
  | some value => .ok value
  | none => .error (.missingSetting name)

def requireLanguage (c : Config) : Except ConfigError String := required "language" c.language

def requireDatasetName (c : Config) : Except ConfigError String :=
  required "dataset_name" c.datasetName

def requireDataPath (c : Config) : Except ConfigError String := required "data_path" c.dataPath

def effectiveOutputDir (c : Config) : String := c.outputDir.getD defaultOutputDir

def effectiveRates (c : Config) : List Double := c.rates.getD [Double.one]

/-- Number of workers; 0 leaves it to the system. It has no influence on any result. -/
def effectiveThreads (c : Config) : Nat := c.threads.getD 0

end Config

end CorpusMark
