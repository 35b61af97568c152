import CorpusMark.Language
import CorpusMark.Tree.Node

/-!
# Transforms

A transform relates two surface forms of the same meaning. Code that is in the *source form* is
recognised by the kinds of node and a predicate; it can be rendered in the source form, which
reproduces it, or in the *trigger form*, which marks it.
-/

namespace CorpusMark

/-- The two surface forms of a transform. -/
inductive Form where
  | source
  | trigger
deriving DecidableEq, Repr

/-- How a form is called and what it looks like. -/
structure FormInfo where
  name : String
  description : String
deriving DecidableEq, Repr

/-- A transform that keeps the meaning of code. -/
structure Transform where
  id : String
  language : Language
  description : String
  /-- Kinds of node at which the source form can stand. -/
  kinds : List NodeKind
  kinds_nodup : kinds.Nodup := by decide
  /-- Whether a node of one of the kinds is in source form. -/
  predicate : Node → Bool
  sourceInfo : FormInfo
  triggerInfo : FormInfo
  /-- The trigger form of a node in source form. -/
  toTrigger : Node → Option String

namespace Transform

/-- The forms, the source form first. -/
def forms : List Form := [.source, .trigger]

def info (t : Transform) : Form → FormInfo
  | .source => t.sourceInfo
  | .trigger => t.triggerInfo

/-- The form with a name. -/
def form? (t : Transform) (name : String) : Option Form :=
  forms.find? fun f => (t.info f).name == name

/-- Whether a node is in source form. -/
def isMatch (t : Transform) (n : Node) : Bool :=
  t.kinds.contains n.kind && t.predicate n

/-- The text of a form, without a look at whether the node is in source form. -/
def formText? (t : Transform) (f : Form) (n : Node) : Option String :=
  match f with
  | .source => some n.text
  | .trigger => t.toTrigger n

/-- The text of a node in a form, if the node is in source form. -/
def render? (t : Transform) (f : Form) (n : Node) : Option String :=
  if t.isMatch n then t.formText? f n else none

end Transform

end CorpusMark
