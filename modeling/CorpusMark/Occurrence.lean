import CorpusMark.SortedMap
import CorpusMark.Transform.Catalog
import CorpusMark.Tree.Parse

/-!
# Occurrences

Where in a sample the source forms of transforms stand. `findAll` looks for any number of
transforms in one pass over the nodes in pre-order: at a node only those transforms are tried that
the catalog has under its kind. Occurrences may overlap, and all are reported.
-/

namespace CorpusMark

/-- One node at which a transform applies. -/
structure Occurrence where
  /-- Corpus index of the sample. -/
  sample : Nat
  /-- Id of the transform. -/
  transform : String
  /-- Index of the node in its arena. -/
  node : Nat
  span : Span
  position : Position
deriving DecidableEq, Repr, Inhabited

/-- Occurrences by the id of their transform, each list in pre-order. -/
abbrev MatchSet := SortedMap (Array Occurrence)

namespace MatchSet

/-- The occurrences of a transform; none if it was not looked for. -/
def occurrences (m : MatchSet) (id : String) : Array Occurrence :=
  (m.get? id).getD #[]

/-- Whether there is an occurrence for every id. -/
def covers (m : MatchSet) (ids : List String) : Bool :=
  ids.all fun id => !(m.occurrences id).isEmpty

end MatchSet

namespace Occurrence

/-- The occurrence of a transform at a node. -/
def ofNode (sample : Nat) (t : Transform) (n : Node) : Occurrence :=
  ⟨sample, t.id, n.id, n.span, n.position⟩

/-- Notes that a transform is asked for: its place, and an entry in the set. -/
def want (catalog : Catalog) (asked : List catalog.Slot × MatchSet) (id : String) :
    Except ConfigError (List catalog.Slot × MatchSet) := do
  let t ← catalog.lookup id
  return ((catalog.slot? t.id).toList ++ asked.1, asked.2.alter t.id (·.getD #[]))

/-- Adds what the wanted transforms find at one node. -/
def visit (catalog : Catalog) (wanted : List catalog.Slot) (sample : Nat) (found : MatchSet)
    (n : Node) : MatchSet :=
  (catalog.slotsForKind n.kind).foldl
    (fun found slot =>
      let t := catalog.transformAt slot
      if wanted.contains slot && t.predicate n then
        found.alter t.id fun known => (known.getD #[]).push (ofNode sample t n)
      else found)
    found

/-- Occurrences of all the transforms asked for, each id with an entry. -/
def findAll (catalog : Catalog) (parsed : ParsedSample) (ids : List String) :
    Except ConfigError MatchSet := do
  let (wanted, start) ← ids.foldlM (want catalog) ([], SortedMap.empty)
  if wanted.isEmpty then return start
  return parsed.arena.nodes.foldl (visit catalog wanted parsed.index) start

/-- Occurrences of one transform. -/
def find (catalog : Catalog) (parsed : ParsedSample) (id : String) :
    Except ConfigError (Array Occurrence) := do
  let t ← catalog.lookup id
  let found ← findAll catalog parsed [id]
  return found.occurrences t.id

end Occurrence

end CorpusMark
