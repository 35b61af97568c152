/-!
# Corpus languages

The languages whose code can be marked.
-/

namespace CorpusMark

/-- A language that has a catalog of transforms. -/
inductive Language where
  | python
  | java
deriving DecidableEq, Repr, Inhabited

namespace Language

/-- Every language. -/
def all : List Language := [python, java]

/-- Name used in configurations, records and output paths. -/
def name : Language → String
  | python => "python"
  | java => "java"

/-- Language of a name, with ASCII letters in either case; `py` is short for Python. -/
def ofName? (name : String) : Option Language :=
  let lower := String.ofList (name.toList.map Char.toLower)
  if lower = "python" ∨ lower = "py" then some python
  else if lower = "java" then some java
  else none

@[simp] theorem ofName?_name (l : Language) : ofName? l.name = some l := by
  cases l <;> decide +kernel

end Language

end CorpusMark
