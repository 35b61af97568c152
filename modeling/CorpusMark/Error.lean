import CorpusMark.Double.Layout
import CorpusMark.Text.Quoted

/-!
# What can go wrong

Failures by their causes, one type for each stage of a run. A failure to parse or to transform
concerns a single sample and is counted; every other failure ends the run. Each type has a
`message` for people and a `code` that stays the same when messages are reworded.
-/

namespace CorpusMark

/-- How a number looks in a message. -/
def Double.shown (x : Double) : String :=
  x.write Double.messageLayout

/-! ## Failures of one sample -/

/-- Why a source text has no usable tree. -/
inductive ParseError where
  | grammarUnavailable (language : String)
  | noTree
  /-- Parts of the text, as many as `count`, do not fit the grammar. -/
  | malformed (count : Nat)
  /-- Some node lies deeper than `limit`. -/
  | tooDeep (limit : Nat)
deriving DecidableEq, Repr

namespace ParseError

def message : ParseError → String
  | grammarUnavailable language => s!"Grammar for {language} could not be loaded"
  | noTree => "Parser produced no tree"
  | malformed count => s!"Source contains {count} syntax error node(s)"
  | tooDeep limit => s!"Syntax tree exceeds maximum depth {limit}"

def code : ParseError → String
  | tooDeep _ => "PARSE_DEPTH_EXCEEDED"
  | malformed _ => "PARSE_SYNTAX_ERRORS"
  | grammarUnavailable _ | noTree => "PARSE_ERROR"

end ParseError

/-- Why a sample could not be rewritten. -/
inductive TransformError where
  /-- No choice of occurrences is free of overlaps. -/
  | interference (transforms : List String)
  /-- The node at byte `start` does not satisfy the transform. -/
  | declined (transform form : String) (start : Nat)
  | missingOccurrence (transform : String)
  /-- The rewritten text is no acceptable source. -/
  | invalidOutput (reason : String)
deriving DecidableEq, Repr

namespace TransformError

def message : TransformError → String
  | interference transforms =>
    s!"Occurrences for {Text.quotedList transforms} overlap; no disjoint rewrite exists"
  | declined transform form start =>
    s!"Rewrite of '{transform}' to variant '{form}' declined at byte {start}"
  | missingOccurrence transform => s!"No occurrence of '{transform}' in sample"
  | invalidOutput reason => s!"Rewritten source no longer parses cleanly: {reason}"

def code : TransformError → String
  | interference _ => "REWRITE_INTERFERENCE"
  | invalidOutput _ => "REWRITE_INVALID_OUTPUT"
  | declined .. | missingOccurrence _ => "REWRITE_PRECONDITION"

end TransformError

/-! ## Failures of a run -/

/-- What is wrong with a configuration. -/
inductive ConfigError where
  | emptyBackdoor (part : Nat)
  | noBackdoors
  | unknownTransform (language id : String)
  | unknownForm (id form : String)
  | duplicateTransform (part : Nat) (id : String)
  | invalidRate (rate : Double) (reason : String)
  | unsupportedLanguage (name : String)
  | missingSetting (field : String)
  | unreadable (path detail : String)
  /-- The text is no TOML document, or a setting has a value of the wrong type. -/
  | malformed (detail : String)
deriving DecidableEq

namespace ConfigError

def message : ConfigError → String
  | emptyBackdoor part => s!"Backdoor spec for corpus part {part} is empty"
  | noBackdoors => "No backdoor specs configured"
  | unknownTransform language id => s!"Unknown SPT '{id}' for language {language}"
  | unknownForm id form => s!"Unknown variant '{form}' for SPT '{id}'"
  | duplicateTransform part id =>
    s!"SPT '{id}' appears more than once in backdoor spec for part {part}"
  | invalidRate rate reason => s!"Invalid mark rate {rate.shown}: {reason}"
  | unsupportedLanguage name => s!"Unsupported language: {name}"
  | missingSetting field => s!"Missing required setting: {field}"
  | unreadable path detail => s!"Failed to read config {path}: {detail}"
  | malformed detail => s!"Failed to parse config: {detail}"

def code : ConfigError → String
  | emptyBackdoor _ | noBackdoors => "CONFIG_EMPTY_BACKDOOR"
  | unknownTransform .. | unknownForm .. => "CONFIG_UNKNOWN_SPT"
  | invalidRate .. => "CONFIG_INVALID_MARK_RATE"
  | _ => "CONFIG_ERROR"

end ConfigError

/-- What is wrong with the files of a corpus or of its artifacts. -/
inductive CorpusError where
  | inaccessible (path detail : String)
  /-- Line 0 stands for a whole document. -/
  | invalidJson (path : String) (line : Nat) (detail : String)
  | missingCode (path : String) (line : Nat)
  | unsupportedDocument (path reason : String)
deriving DecidableEq, Repr

namespace CorpusError

def message : CorpusError → String
  | inaccessible path detail => s!"IO error at {path}: {detail}"
  | invalidJson path line detail => s!"Invalid JSON in {path} (line {line}): {detail}"
  | missingCode path line => s!"Record in {path} (line {line}) has no string 'code' field"
  | unsupportedDocument path reason => s!"Unsupported corpus document in {path}: {reason}"

def code (_ : CorpusError) : String := "CORPUS_ERROR"

end CorpusError

/-- How the results of a part fail to line up with those gathered before. -/
inductive AssemblyError where
  | bucketMismatch (rate : Double) (expected found : List String)
  | countMismatch (part expected found : Nat)
  | rateMismatch (part slot : Nat) (expected found : Double)
deriving DecidableEq

namespace AssemblyError

def message : AssemblyError → String
  | bucketMismatch rate expected found =>
    s!"Bucket keys differ at mark rate {rate.shown}: " ++
      s!"expected {Text.quotedList expected}, found {Text.quotedList found}"
  | countMismatch part expected found =>
    s!"Part {part} produced {found} rewrite results, expected {expected}"
  | rateMismatch part slot expected found =>
    s!"Part {part} result {slot} has mark rate {found.shown}, expected {expected.shown}"

def code : AssemblyError → String
  | bucketMismatch .. => "ASSEMBLY_BUCKET_MISMATCH"
  | countMismatch .. | rateMismatch .. => "ASSEMBLY_RATE_MISMATCH"

end AssemblyError

/-- Any failure that ends a run. -/
inductive RunError where
  | config (cause : ConfigError)
  | corpus (cause : CorpusError)
  | assembly (cause : AssemblyError)
  | threadPool (detail : String)
deriving DecidableEq

namespace RunError

def message : RunError → String
  | config cause => s!"Configuration error: {cause.message}"
  | corpus cause => s!"Corpus error: {cause.message}"
  | assembly cause => s!"Assembly error: {cause.message}"
  | threadPool detail => s!"Thread pool error: {detail}"

def code : RunError → String
  | config cause => cause.code
  | corpus cause => cause.code
  | assembly cause => cause.code
  | threadPool _ => "PIPELINE_THREAD_POOL"

end RunError

end CorpusMark
