import CorpusMark.Files.Access

/-!
# File trees

The files of a machine as a value: what is at each place, where a place is the list of names from
the root. `FileTree.access` gives the operations on it. Paths are resolved name by name; symbolic
links on the way are followed, at most 40 of them.
-/

namespace CorpusMark

/-- What can be at a place. -/
inductive FileNode where
  | directory
  | file (content : ByteArray)
  | link (target : String)

/-- The files of a machine. The root is always a directory. -/
structure FileTree where
  entries : List (List String × FileNode)
  /-- The place that relative paths start from. -/
  workingDirectory : List String

namespace FileTree

/-- What is at a place. -/
def node? (t : FileTree) (place : List String) : Option FileNode :=
  if place = [] then some .directory else t.entries.lookup place

/-- Whether there is a directory at a place. -/
def isDirectory (t : FileTree) (place : List String) : Bool :=
  match t.node? place with
  | some .directory => true
  | _ => false

/-- Puts a node at a place. -/
def set (t : FileTree) (place : List String) (node : FileNode) : FileTree :=
  { t with entries := (place, node) :: t.entries.filter (·.1 ≠ place) }

/-! ## Resolving paths -/

/-- Greatest number of links on the way to a place. -/
def maxLinks : Nat := 40

/-- Greatest number of bytes of a name. -/
def maxNameBytes : Nat := 255

/-- Number of bytes that no path may have. -/
def pathLimit : Nat := 4096

/-- The steps of a path; a slash at the end asks for a directory and is one more step. -/
def steps (path : String) : List String :=
  Path.names path ++ if path.endsWith "/" then ["."] else []

/-- Where steps from a directory lead, and what is there. The last step may lead to nothing. Links
are followed, one at the end only if `follow` says so. -/
def walk (t : FileTree) (follow : Bool) (links : Nat) (place : List String) :
    List String → Except FileFault (List String × Option FileNode)
  | [] => .ok (place, t.node? place)
  | step :: rest =>
    if !t.isDirectory place then .error .notDirectory
    else if maxNameBytes < step.utf8ByteSize then .error .nameTooLong
    else if step = "." then walk t follow links place rest
    else if step = ".." then walk t follow links place.dropLast rest
    else
      let next := place ++ [step]
      match t.node? next with
      | none => if rest = [] then .ok (next, none) else .error .missing
      | some (.link target) =>
        if rest = [] ∧ !follow then .ok (next, some (.link target))
        else match links with
          | 0 => .error .tooManyLinks
          | links + 1 =>
            walk t follow links (if Path.isAbsolute target then [] else place)
              (steps target ++ rest)
      | some _ => walk t follow links next rest
termination_by path => (links, path.length)

/-- Where a path leads, and what is there. -/
def resolve (t : FileTree) (follow : Bool) (path : String) :
    Except FileFault (List String × Option FileNode) :=
  if path.toList.contains '\x00' then .error .invalidPath
  else if path.isEmpty then .error .missing
  else if pathLimit ≤ path.utf8ByteSize then .error .nameTooLong
  else t.walk follow maxLinks (if Path.isAbsolute path then [] else t.workingDirectory)
    (steps path)

/-! ## Operations -/

/-- What there is at a path, links followed. -/
def find (t : FileTree) (path : String) : Except FileFault (List String × FileNode) := do
  match ← t.resolve true path with
  | (place, some node) => return (place, node)
  | (_, none) => throw .missing

def kind (t : FileTree) (path : String) : Except FileFault FileKind := do
  match ← t.find path with
  | (_, .directory) => return .directory
  | _ => return .file

def content (t : FileTree) (path : String) : Except FileFault ByteArray := do
  match ← t.find path with
  | (_, .file content) => return content
  | _ => throw .isDirectory

/-- The entry that a place is of a directory. -/
def entryOf? (directory place : List String) (node : FileNode) : Option DirectoryEntry :=
  match place.getLast? with
  | none => none
  | some name =>
    if place.dropLast = directory then
      some ⟨name, match node with | .file _ => true | _ => false⟩
    else none

def directoryEntries (t : FileTree) (path : String) : Except FileFault (List DirectoryEntry) := do
  match ← t.find path with
  | (directory, .directory) =>
    return t.entries.filterMap fun (place, node) => entryOf? directory place node
  | _ => throw .notDirectory

/-- A path without the slashes at its end. -/
def withoutEndSlashes (path : String) : String :=
  let cs := (path.toList.reverse.dropWhile (· = '/')).reverse
  if cs.isEmpty then path else String.ofList cs

def makeDirectory (t : FileTree) (path : String) : Except FileFault FileTree := do
  match ← t.resolve false (withoutEndSlashes path) with
  | (_, some _) => throw .alreadyExists
  | (place, none) => return t.set place .directory

def write (t : FileTree) (path text : String) : Except FileFault FileTree := do
  match ← t.resolve true path with
  | (_, some .directory) => throw .isDirectory
  | (place, _) => return t.set place (.file text.toUTF8)

/-- Makes a change, unless it fails. -/
def change (f : FileTree → Except FileFault FileTree) : StateM FileTree (Except FileFault Unit) :=
  fun t => match f t with
    | .ok t' => (.ok (), t')
    | .error fault => (.error fault, t)

/-- The operations on a file tree. -/
def access : FileAccess (StateM FileTree) where
  kind path := fun t => (t.kind path, t)
  content path := fun t => (t.content path, t)
  entries path := fun t => (t.directoryEntries path, t)
  makeDirectory path := change fun t => t.makeDirectory path
  write path text := change fun t => t.write path text

end FileTree

end CorpusMark
