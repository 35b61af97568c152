import CorpusMark.Config.Basic
import CorpusMark.Double.Decimal
import CorpusMark.Text.Blank

/-!
# Command lines

The arguments of the program. An option stands in front of its value or is joined to it by an
equals sign. `Request.ofArguments?` reads arguments from left to right; one that makes no sense
refuses the command line, but only if neither help nor the version has been asked for before it.
-/

namespace CorpusMark.CommandLine

/-- The options of a run. -/
structure Options where
  language : Option String := none
  datasetName : Option String := none
  dataPath : Option String := none
  getPopularity : Bool := false
  configPath : Option String := none
  outputDir : Option String := none
  rates : List Double := []
  /-- Entries of one backdoor, separated by commas, for each part. -/
  backdoors : List String := []
  threads : Option Nat := none
deriving DecidableEq, Inhabited

/-- What a command line asks for. -/
inductive Request where
  | help
  | version
  | run (options : Options)
deriving DecidableEq

/-! ## Values -/

/-- Reads a natural number of at most 64 bits, which may have a plus sign. -/
def natural? (value : String) : Option Nat :=
  let digits := match value.toList with
    | '+' :: rest => rest
    | cs => cs
  let n := natOfDigits digits
  if digits.isEmpty || !digits.all isDigit || maxWord < n then none else some n

/-- Reads a path, which is not empty. -/
def path? (value : String) : Option String :=
  if value.isEmpty then none else some value

/-- Sets what has not been set before. -/
def setOnce {α : Type} (old : Option α) (value : Option α) : Option (Option α) :=
  if old.isSome then none else value.map some

/-- Adds an option with a value. -/
def Options.set? (o : Options) (name value : String) : Option Options :=
  match name with
  | "language" => do return { o with language := ← setOnce o.language (some value) }
  | "dataset-name" => do return { o with datasetName := ← setOnce o.datasetName (some value) }
  | "data-path" => do return { o with dataPath := ← setOnce o.dataPath (path? value) }
  | "config" => do return { o with configPath := ← setOnce o.configPath (path? value) }
  | "output-dir" => do return { o with outputDir := ← setOnce o.outputDir (path? value) }
  | "mark-rate" => do return { o with rates := o.rates ++ [← Double.parse? value] }
  | "backdoor" => some { o with backdoors := o.backdoors ++ [value] }
  | "threads" => do return { o with threads := ← setOnce o.threads (natural? value) }
  | _ => none

/-! ## Arguments -/

/-- What an argument is by its form. -/
inductive Argument where
  /-- Two dashes: only values may follow, of which there are none. -/
  | separator
  /-- A long option, perhaps with a value behind an equals sign. -/
  | long (name : String) (value : Option String)
  /-- Short options behind one dash. -/
  | short (letters : List Char)
  | value (text : String)
deriving DecidableEq

namespace Argument

def ofString (s : String) : Argument :=
  match s.toList with
  | ['-', '-'] => .separator
  | '-' :: '-' :: cs =>
    let name := String.ofList (cs.takeWhile (· ≠ '='))
    match cs.dropWhile (· ≠ '=') with
    | [] => .long name none
    | _ :: text => .long name (some (String.ofList text))
  | ['-'] => .value s
  | '-' :: letters => .short letters
  | _ => .value s

/-- The text of an argument that can be the value of the option in front of it. -/
def value? : Argument → Option String
  | .value text => some text
  | _ => none

end Argument

/-- Goes on with the arguments behind some options. -/
def Options.read? (o : Options) : List String → Option Request
  | [] => some (.run o)
  | arg :: rest =>
    match Argument.ofString arg with
    | .separator => if rest.isEmpty then some (.run o) else none
    | .long "help" none => some .help
    | .long "version" none => some .version
    | .long "get-popularity" none =>
      if o.getPopularity then none else Options.read? { o with getPopularity := true } rest
    | .long name (some value) =>
      match o.set? name value with
      | some o => o.read? rest
      | none => none
    | .long name none =>
      match rest with
      | next :: rest =>
        match (Argument.ofString next).value?.bind (o.set? name) with
        | some o => o.read? rest
        | none => none
      | [] => none
    | .short ('h' :: _) => some .help
    | .short ('V' :: _) => some .version
    | .short _ => none
    | .value _ => none

/-- Reads a command line. -/
def Request.ofArguments? (args : List String) : Option Request :=
  Options.read? {} args

/-! ## Settings -/

/-- The entries of a backdoor, separated by commas. -/
def splitEntries (text : String) : List String :=
  ((text.toList.splitOn ',').map fun entry => Text.trim (String.ofList entry)).filter (· ≠ "")

/-- Lays the options over settings from elsewhere. -/
def Options.over (o : Options) (c : Config) : Config :=
  { c with
    language := o.language.or c.language
    datasetName := o.datasetName.or c.datasetName
    dataPath := o.dataPath.or c.dataPath
    outputDir := o.outputDir.or c.outputDir
    rates := if o.rates.isEmpty then c.rates else some o.rates
    backdoors := if o.backdoors.isEmpty then c.backdoors
      else some (o.backdoors.map splitEntries)
    threads := o.threads.or c.threads }

/-! ## Texts -/

/-- Name and version of the program. -/
def versionText : String := "codemark 0.1.0\n"

/-- The options with what they are for, in columns. -/
def optionLines : List (String × String) :=
  [("      --language <LANGUAGE>", "Corpus language (python or java)"),
    ("      --dataset-name <DATASET_NAME>", "Dataset name used in output file names"),
    ("      --data-path <DATA_PATH>", "Corpus file or directory"),
    ("      --get-popularity", "Accepted for compatibility; has no effect"),
    ("      --config <CONFIG>", "TOML config file; flags below override it"),
    ("      --output-dir <OUTPUT_DIR>", "Output root (default: dataset)"),
    ("      --mark-rate <MARK_RATES>", "Mark rate in (0, 1]; repeat for several"),
    ("      --backdoor <BACKDOORS>",
      "Comma-separated SPT ids for one corpus part; repeat per part"),
    ("      --threads <THREADS>", "Worker threads (0 = all cores)"),
    ("  -h, --help", "Print help"),
    ("  -V, --version", "Print version")]

/-- Where the second column of the options starts. -/
def optionWidth : Nat := 37

/-- How the program is used. -/
def helpText : String :=
  "Embed semantics-preserving backdoor triggers into a code corpus\n\n" ++
    "Usage: codemark [OPTIONS]\n\nOptions:\n" ++
    String.join (optionLines.map fun (option, purpose) =>
      option ++ "".pushn ' ' (optionWidth - option.length) ++ purpose ++ "\n")

end CorpusMark.CommandLine
