import CorpusMark.Error
import CorpusMark.Files.Access
import CorpusMark.Json.Reader
import CorpusMark.Text.Blank

/-!
# Corpora

A corpus is a list of codes. It is read from a file of lines with one JSON record each, from a
file with one JSON document, or from all files of a directory, in the order of their names.
Lines of nothing but blanks hold no record; line numbers count from one, blank lines included.
-/

namespace CorpusMark.Corpus

/-! ## Texts -/

/-- A line without a carriage return in front of its end. -/
def dropReturn (line : List Char) : List Char :=
  if line.getLast? = some '\r' then line.dropLast else line

/-- The lines of a text. The last one need not end in a line feed. -/
def lines (text : String) : List (List Char) :=
  let parts := text.toList.splitOn '\n'
  parts.dropLast.map dropReturn ++ parts.getLast?.toList.filter (!·.isEmpty)

/-- The code of a record. -/
def codeOf? (record : Json.Value) : Option String :=
  (record.member? "code").bind Json.Value.text?

/-- The code in a line that is not blank. -/
def codeOfLine (path : String) (number : Nat) (line : String) : Except CorpusError String :=
  match Json.parse? line with
  | none => .error (.invalidJson path number "no JSON value")
  | some record =>
    match codeOf? record with
    | none => .error (.missingCode path number)
    | some code => .ok code

/-- The codes in lines, the first of which has the given number. -/
def codesOfLines (path : String) : Nat → List (List Char) → Except CorpusError (List String)
  | _, [] => .ok []
  | number, line :: rest =>
    if line.all Text.isBlank then codesOfLines path (number + 1) rest
    else do
      let code ← codeOfLine path number (String.ofList line)
      return code :: (← codesOfLines path (number + 1) rest)

/-- The list of codes of a document: the document itself, or its member `code`. -/
def listOf (path : String) (document : Json.Value) : Except CorpusError (List Json.Value) :=
  match document with
  | .array items => .ok items
  | .object _ =>
    match document.member? "code" with
    | some (.array items) => .ok items
    | _ => .error (.unsupportedDocument path "object has no 'code' list")
  | _ => .error (.unsupportedDocument path "expected a list or an object")

/-- The codes in a document. -/
def codesOfDocument (path text : String) : Except CorpusError (List String) := do
  let some document := Json.parse? text | throw (.invalidJson path 0 "no JSON value")
  match (← listOf path document).mapM Json.Value.text? with
  | some codes => return codes
  | none => throw (.unsupportedDocument path "code list contains a non-string entry")

/-- End of the names of files with a record in each line. -/
def linesSuffix : String := "jsonl"

/-- The codes in the text of a file. -/
def codesOf (path text : String) : Except CorpusError (List String) :=
  if ((Path.fileName? path).getD "").endsWith linesSuffix then codesOfLines path 1 (lines text)
  else codesOfDocument path text

/-! ## Files -/

variable {m : Type → Type} [Monad m]

/-- Reads a file. -/
def loadFile (files : FileReading m) (path : String) : m (Except CorpusError (List String)) := do
  match ← files.text path with
  | .error fault => return .error (.inaccessible path fault.message)
  | .ok text => return codesOf path text

/-- Reads files one after the other. -/
def loadFiles (files : FileReading m) : List String → m (Except CorpusError (List String))
  | [] => return .ok []
  | path :: rest => do
    match ← loadFile files path with
    | .error e => return .error e
    | .ok codes =>
      match ← loadFiles files rest with
      | .error e => return .error e
      | .ok more => return .ok (codes ++ more)

/-- Whether an entry comes before another one or has the same name. -/
def comesFirst (a b : DirectoryEntry) : Bool :=
  a.name ≤ b.name

/-- The paths of the files of a directory, in the order of their names. -/
def filesOf (dir : String) (entries : List DirectoryEntry) : List String :=
  ((entries.filter DirectoryEntry.isRegular).mergeSort comesFirst).map fun e =>
    Path.join dir e.name

/-- Reads a file, or all files of a directory but none of the directories in it. -/
def load (files : FileReading m) (path : String) : m (Except CorpusError (List String)) := do
  match ← files.kind path with
  | .error fault => return .error (.inaccessible path fault.message)
  | .ok .file => loadFile files path
  | .ok .directory =>
    match ← files.entries path with
    | .error fault => return .error (.inaccessible path fault.message)
    | .ok entries => loadFiles files (filesOf path entries)

end CorpusMark.Corpus
