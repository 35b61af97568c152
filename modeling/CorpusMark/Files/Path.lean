/-!
# Paths

A path is a text whose names are separated by slashes. Joining follows the rules of the file
system, so a path that is itself absolute takes the place of the directory.
-/

namespace CorpusMark.Path

/-- Joins a path to a directory. -/
def join (dir path : String) : String :=
  if path.startsWith "/" then path
  else if dir.isEmpty || dir.endsWith "/" then dir ++ path
  else dir ++ "/" ++ path

def isAbsolute (path : String) : Bool :=
  path.startsWith "/"

/-- The names of a path, without the empty ones between and around slashes. -/
def names (path : String) : List String :=
  ((path.toList.splitOn '/').filter (!·.isEmpty)).map String.ofList

/-- The names without those that stand for the directory they are in, the leading one of a
relative path excepted. -/
def significantNames (path : String) : List String :=
  match names path with
  | "." :: rest => if isAbsolute path then rest.filter (· ≠ ".") else "." :: rest.filter (· ≠ ".")
  | all => all.filter (· ≠ ".")

/-- The last name of a path, if it names something below a directory. -/
def fileName? (path : String) : Option String :=
  match (significantNames path).getLast? with
  | some "." => none
  | some ".." => none
  | name => name

/-- The path of a list of names. -/
def ofNames (absolute : Bool) (names : List String) : String :=
  (if absolute then "/" else "") ++ "/".intercalate names

/-- The paths of a directory and of the directories around it, the innermost first. The last one
is the root, or empty for a relative path. -/
def enclosing (path : String) : List String :=
  let names := significantNames path
  path :: (List.range names.length).reverse.map fun n => ofNames (isAbsolute path) (names.take n)

end CorpusMark.Path
