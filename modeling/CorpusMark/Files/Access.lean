import CorpusMark.Files.Path

/-!
# Access to files

What a run needs of a file system, as a record of operations, so that the same run works on the
files of a machine and on a value that stands for them. Reading takes `FileReading` only.
-/

namespace CorpusMark

/-- Why an operation on files fails. -/
inductive FileFault where
  | missing
  | alreadyExists
  | notDirectory
  | isDirectory
  | nameTooLong
  | tooManyLinks
  /-- The path holds the character with code 0. -/
  | invalidPath
  /-- The content of a file is no UTF-8. -/
  | notText
  | other (detail : String)
deriving DecidableEq, Repr

def FileFault.message : FileFault → String
  | missing => "No such file or directory (os error 2)"
  | alreadyExists => "File exists (os error 17)"
  | notDirectory => "Not a directory (os error 20)"
  | isDirectory => "Is a directory (os error 21)"
  | nameTooLong => "File name too long (os error 36)"
  | tooManyLinks => "Too many levels of symbolic links (os error 40)"
  | invalidPath => "file name contained an unexpected NUL byte"
  | notText => "stream did not contain valid UTF-8"
  | other detail => detail

/-- What is at a path, symbolic links followed. -/
inductive FileKind where
  | directory
  | file
deriving DecidableEq, Repr

/-- An entry of a directory. -/
structure DirectoryEntry where
  name : String
  /-- Whether it is a file, and not a directory or a symbolic link. -/
  isRegular : Bool
deriving DecidableEq, Repr

/-- Operations that change nothing. -/
structure FileReading (m : Type → Type) where
  kind : String → m (Except FileFault FileKind)
  content : String → m (Except FileFault ByteArray)
  /-- The entries of a directory, in any order. -/
  entries : String → m (Except FileFault (List DirectoryEntry))

/-- All operations. -/
structure FileAccess (m : Type → Type) extends FileReading m where
  makeDirectory : String → m (Except FileFault Unit)
  /-- Replaces the content of a file, which comes into being if it is not there. -/
  write : String → String → m (Except FileFault Unit)

variable {m : Type → Type} [Monad m]

/-- The content of a file as text. -/
def FileReading.text (files : FileReading m) (path : String) : m (Except FileFault String) := do
  match ← files.content path with
  | .error fault => return .error fault
  | .ok content =>
    match String.fromUTF8? content with
    | some text => return .ok text
    | none => return .error .notText

/-- Gives up for a fault only if there is no directory at the path in the end. -/
def FileReading.orPresent (files : FileReading m) (path : String) :
    Except FileFault Unit → m (Except FileFault Unit)
  | .ok () => return .ok ()
  | .error fault => do
    match ← files.kind path with
    | .ok .directory => return .ok ()
    | _ => return .error fault

/-- Makes the first of a list of directories, each of which is in the next, and as many of the
others as it takes. -/
def FileAccess.ensureFirst (files : FileAccess m) : List String → m (Except FileFault Unit)
  | [] => return .error (.other "failed to create whole tree")
  | path :: around => do
    if path.isEmpty then return .ok ()
    match ← files.makeDirectory path with
    | .error .missing =>
      match ← files.ensureFirst around with
      | .error fault => return .error fault
      | .ok () => files.orPresent path (← files.makeDirectory path)
    | result => files.orPresent path result

/-- Makes a directory and the directories around it, as far as they are not there. -/
def FileAccess.ensureDirectory (files : FileAccess m) (path : String) :
    m (Except FileFault Unit) :=
  files.ensureFirst (Path.enclosing path)

end CorpusMark
