import CorpusMark.Transform.Java
import CorpusMark.Transform.Python

/-!
# Catalogs

The transforms of a language, found by their id or by the kind of node they apply to.
-/

namespace CorpusMark

/-- The transforms of one language. -/
structure Catalog where
  language : Language
  transforms : List Transform
  /-- The backdoors of a run that configures none, one for each part. -/
  defaultBackdoors : List (List String)

namespace Catalog

/-- The catalog of a language. -/
def ofLanguage : Language → Catalog
  | .python => ⟨.python, Transform.Python.all, Transform.Python.defaultBackdoors⟩
  | .java => ⟨.java, Transform.Java.all, Transform.Java.defaultBackdoors⟩

/-- Ids in the order of the catalog. -/
def ids (c : Catalog) : List String :=
  c.transforms.map Transform.id

/-! ## Slots -/

/-- A place in the catalog. -/
abbrev Slot (c : Catalog) := Fin c.transforms.length

/-- The transform at a place. -/
def transformAt (c : Catalog) (s : c.Slot) : Transform := c.transforms.get s

/-- The places in the order of the catalog. -/
def slots (c : Catalog) : List c.Slot := List.finRange c.transforms.length

/-- The place of the transform with an id; of several the last counts. -/
def slot? (c : Catalog) (id : String) : Option c.Slot :=
  c.slots.reverse.find? fun s => (c.transformAt s).id == id

/-- The transform with an id. -/
def find? (c : Catalog) (id : String) : Option Transform :=
  (c.slot? id).map c.transformAt

/-- The transform with an id, an unknown id being an error. -/
def lookup (c : Catalog) (id : String) : Except ConfigError Transform :=
  match c.find? id with
  | some t => .ok t
  | none => .error (.unknownTransform c.language.name id)

/-! ## Kinds -/

/-- The places of the catalog, filed under the kinds of node to which the transform there can
apply. -/
def kindSlots (c : Catalog) : List (NodeKind × c.Slot) :=
  c.slots.flatMap fun s => (c.transformAt s).kinds.map fun kind => (kind, s)

/-- The places of the transforms that can apply to a kind of node. -/
def slotsForKind (c : Catalog) (kind : NodeKind) : List c.Slot :=
  (c.kindSlots.filter (·.1 == kind)).map Prod.snd

/-- The transforms that can apply to a kind of node. -/
def forKind (c : Catalog) (kind : NodeKind) : List Transform :=
  (c.slotsForKind kind).map c.transformAt

end Catalog

end CorpusMark
