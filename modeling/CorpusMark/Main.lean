import CorpusMark.CommandLine.Run
import CorpusMark.Tree.Rows

/-!
# The program

`main` runs the command line on the files of the machine. The grammar is not part of the program:
standard input holds the syntax trees of source texts, a JSON object on each line whose members are
`text` and `nodes`, the rows of its tree. A text without a tree counts as one that does not fit
the grammar.
-/

namespace CorpusMark.Main

/-! ## Trees from standard input -/

/-- The tree of a text that does not fit the grammar. -/
def faultyTree (text : String) : Tree :=
  .node ⟨"ERROR", none, ⟨0, text.utf8ByteSize⟩, true, true, false⟩ []

/-- Reads a text and its tree. -/
def treeOfLine? (line : String) : Option (String × Tree) := do
  let entry ← Json.read? line.toList
  return (← (← entry.member? "text").text?, ← Tree.ofJson? (← entry.member? "nodes"))

/-- The grammar that gives the listed trees. -/
def grammarOf (trees : List (String × Tree)) : Grammar :=
  fun text => (trees.lookup text).getD (faultyTree text)

/-! ## Files of the machine -/

/-- What an error of the machine means. -/
def faultOf : IO.Error → FileFault
  | .noFileOrDirectory _ 20 _ => .notDirectory
  | .noFileOrDirectory .. => .missing
  | .alreadyExists .. => .alreadyExists
  | .inappropriateType _ 20 _ => .notDirectory
  | .inappropriateType _ 21 _ => .isDirectory
  | e => .other e.toString

/-- Runs an action; its error is a fault. -/
def attempt {α : Type} (action : IO α) : IO (Except FileFault α) := do
  try return .ok (← action)
  catch e => return .error (faultOf e)

/-- What is at a path, links followed. Opening it first tells why there is nothing. -/
def kindOf (path : String) : IO FileKind := do
  let _ ← IO.FS.Handle.mk path .read
  match (← (← IO.FS.realPath path).metadata).type with
  | .dir => return .directory
  | _ => return .file

/-- The entries of a directory. -/
def entriesOf (path : String) : IO (List DirectoryEntry) := do
  let entries ← (← IO.FS.realPath path).readDir
  entries.toList.mapM fun entry => do
    match (← entry.path.symlinkMetadata).type with
    | .file => return ⟨entry.fileName, true⟩
    | _ => return ⟨entry.fileName, false⟩

/-- The operations on the files of the machine. -/
def machine : FileAccess IO where
  kind path := attempt (kindOf path)
  content path := attempt (IO.FS.readBinFile path)
  entries path := attempt (entriesOf path)
  makeDirectory path := attempt (IO.FS.createDir path)
  write path text := attempt (IO.FS.writeFile path text)

/-- Reads all lines that are left. -/
partial def readLines (input : IO.FS.Stream) (lines : List String) : IO (List String) := do
  let line ← input.getLine
  if line.isEmpty then return lines.reverse else readLines input (line :: lines)

end CorpusMark.Main

open CorpusMark

/-- Runs the program. -/
def main (args : List String) : IO UInt32 := do
  let lines ← Main.readLines (← IO.getStdin) []
  let grammar := Main.grammarOf (lines.filterMap Main.treeOfLine?)
  let outcome ← CommandLine.run Main.machine (fun _ => grammar) args
  IO.print outcome.output
  IO.eprint outcome.errors
  return outcome.exitCode
