import CorpusMark.Text.Blank
import CorpusMark.Transform.Catalog

/-!
# Backdoors

A backdoor is a list of terms that must all be rewritten in a sample to mark it. A term names a
transform and the form it takes, `id` for the trigger form or `id:form`. Each part of a corpus has
a backdoor of its own.
-/

namespace CorpusMark

/-- A transform and the form that its occurrence takes. -/
structure Term where
  transform : Transform
  form : Form

namespace Term

def id (t : Term) : String := t.transform.id

/-- Name of the form. -/
def formName (t : Term) : String := (t.transform.info t.form).name

/-- Cuts an entry at its first colon, without the blanks around the two parts. -/
def splitEntry (entry : String) : String × Option String :=
  let cs := entry.toList
  let before := Text.trim (String.ofList (cs.takeWhile (· ≠ ':')))
  match cs.dropWhile (· ≠ ':') with
  | [] => (before, none)
  | _ :: after => (before, some (Text.trim (String.ofList after)))

/-- Reads `id` or `id:form`. -/
def parse (catalog : Catalog) (entry : String) : Except ConfigError Term := do
  let (id, formName) := splitEntry entry
  let transform ← catalog.lookup id
  match formName with
  | none => return ⟨transform, .trigger⟩
  | some name =>
    match transform.form? name with
    | some form => return ⟨transform, form⟩
    | none => throw (.unknownForm id name)

/-- Written form of a term; the trigger form goes without saying. -/
def label (t : Term) : String :=
  match t.form with
  | .trigger => t.id
  | .source => t.id ++ ":" ++ t.formName

end Term

/-- The terms that mark the samples of one part. -/
structure Backdoor where
  part : Nat
  terms : List Term

namespace Backdoor

/-- Reads the entries of a list in order and adds them to terms that came before; no transform may
come twice. -/
def parseTerms (catalog : Catalog) (part : Nat) :
    List Term → List String → Except ConfigError (List Term)
  | terms, [] => .ok terms
  | terms, entry :: rest => do
    let term ← Term.parse catalog entry
    if terms.any (·.id == term.id) then throw (.duplicateTransform part term.id)
    parseTerms catalog part (terms ++ [term]) rest

/-- Reads the backdoor of a part. -/
def parse (catalog : Catalog) (part : Nat) (entries : List String) :
    Except ConfigError Backdoor :=
  if entries.isEmpty then .error (.emptyBackdoor part)
  else do
    let terms ← parseTerms catalog part [] entries
    return ⟨part, terms⟩

/-- Ids of the transforms, in order. -/
def ids (b : Backdoor) : List String :=
  b.terms.map Term.id

/-- Written form of a backdoor, such as `call+print`. -/
def label (b : Backdoor) : String :=
  "+".intercalate (b.terms.map Term.label)

/-- Reads the backdoors of all parts, numbered from `part` on. -/
def parseFrom (catalog : Catalog) : Nat → List (List String) → Except ConfigError (List Backdoor)
  | _, [] => .ok []
  | part, entries :: rest => do
    let backdoor ← parse catalog part entries
    let others ← parseFrom catalog (part + 1) rest
    return backdoor :: others

/-- Reads the backdoors of all parts; there has to be one. -/
def parseAll (catalog : Catalog) (lists : List (List String)) :
    Except ConfigError (List Backdoor) :=
  if lists.isEmpty then .error .noBackdoors else parseFrom catalog 0 lists

end Backdoor

end CorpusMark
