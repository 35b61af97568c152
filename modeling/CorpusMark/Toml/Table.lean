import CorpusMark.Toml.Value

/-!
# Tables of TOML documents

How the lines of a document add up to one table. A table comes about in one of three ways, and
that decides what may be added to it later: `[a]` says that a table is there, which is said once
only; `[a.b]` implies `a`, which may be said later; and `a.b = 1` makes `a` by a dotted key, to
which further dotted keys may add but no header of its own. `[[a]]` adds an element to an array
of tables, and paths through the array lead to its last element. A value that has been written is
complete, inline tables included.
-/

namespace CorpusMark.Toml

/-- How a table came about. -/
inductive Origin where
  | header
  | implied
  | dotted
deriving DecidableEq, Repr

/-- What a key of a table under construction stands for. -/
inductive Entry where
  | value (v : Value)
  | table (origin : Origin) (entries : List (String × Entry))
  /-- An array of tables: the elements in front of the last, and the last. -/
  | tables (earlier : List (List (String × Entry))) (last : List (String × Entry))

/-- A table under construction. -/
abbrev Entries := List (String × Entry)

namespace Entries

/-- Replaces what a key stands for. -/
def set (entries : Entries) (key : String) (entry : Entry) : Entries :=
  entries.map fun (k, e) => if k = key then (k, entry) else (k, e)

/-- Adds a key. -/
def push (entries : Entries) (key : String) (entry : Entry) : Entries :=
  entries ++ [(key, entry)]

/-- Changes the table at the end of a path, given how the table at its start came about. Tables on
the way that are not there yet come about as `created`. A path of dotted keys goes through no
table that has a header of its own. -/
def descend (created : Origin) (change : Origin → Entries → Option Entries) :
    List String → Origin → Entries → Option Entries
  | [], origin, entries => change origin entries
  | key :: path, _, entries =>
    match entries.lookup key with
    | none => (descend created change path created []).map fun inner =>
        entries.push key (.table created inner)
    | some (.value _) => none
    | some (.table origin inner) =>
      if created = .dotted ∧ origin = .header then none
      else (descend created change path origin inner).map fun inner =>
        entries.set key (.table origin inner)
    | some (.tables earlier last) =>
      (descend created change path .header last).map fun last =>
        entries.set key (.tables earlier last)

/-- Defines a key in a table with a header, or behind a path of dotted keys. The last table of
such a path has to be dotted itself. -/
def define (path : List String) (key : String) (v : Value) (entries : Entries) : Option Entries :=
  descend .dotted (fun origin inner =>
    if (origin = .dotted ↔ path = []) ∨ (inner.lookup key).isSome then none
    else some (inner.push key (.value v))) path .header entries

/-- Opens the table of a header `[path.key]`. -/
def openTable (path : List String) (key : String) (entries : Entries) : Option Entries :=
  descend .implied (fun _ inner =>
    match inner.lookup key with
    | none => some (inner.push key (.table .header []))
    | some (.table .implied below) => some (inner.set key (.table .header below))
    | some _ => none) path .header entries

/-- Opens a further element of the array of a header `[[path.key]]`. -/
def openElement (path : List String) (key : String) (entries : Entries) : Option Entries :=
  descend .implied (fun _ inner =>
    match inner.lookup key with
    | none => some (inner.push key (.tables [] []))
    | some (.tables earlier last) => some (inner.set key (.tables (earlier ++ [last]) []))
    | some _ => none) path .header entries

end Entries

mutual

/-- The value that a key stands for. -/
def Entry.toValue : Entry → Value
  | .value v => v
  | .table _ entries => .table (memberValues entries)
  | .tables earlier last => .array (elementValues earlier ++ [.table (memberValues last)])

/-- The members of a table. -/
def memberValues : List (String × Entry) → List (String × Value)
  | [] => []
  | (key, entry) :: rest => (key, entry.toValue) :: memberValues rest

/-- The elements of an array of tables. -/
def elementValues : List (List (String × Entry)) → List Value
  | [] => []
  | entries :: rest => .table (memberValues entries) :: elementValues rest

end

/-! ## Documents -/

/-- A key with the keys of the tables that it is in. -/
structure Key where
  path : List String
  name : String
deriving DecidableEq, Repr

/-- A table of key-value pairs, as in braces; none if keys contradict one another. -/
def tableOfPairs? (pairs : List (Key × Value)) : Option Value :=
  let add (entries : Entries) (pair : Key × Value) : Option Entries :=
    entries.define pair.1.path pair.1.name pair.2
  (pairs.foldlM add []).map fun entries => .table (memberValues entries)

/-- A line of a document. -/
inductive Line where
  | table (key : Key)
  | element (key : Key)
  | pair (key : Key) (v : Value)

/-- A document that is put together: its table, and the path of the last header. -/
structure Assembly where
  entries : Entries
  header : List String

/-- Adds a line. -/
def Assembly.add (s : Assembly) : Line → Option Assembly
  | .table key =>
    (s.entries.openTable key.path key.name).map fun entries => ⟨entries, key.path ++ [key.name]⟩
  | .element key =>
    (s.entries.openElement key.path key.name).map fun entries => ⟨entries, key.path ++ [key.name]⟩
  | .pair key v =>
    (s.entries.descend .implied (fun _ => Entries.define key.path key.name v) s.header
      .header).map fun entries => ⟨entries, s.header⟩

/-- The table of a document's lines; none if they contradict one another. -/
def tableOfLines? (lines : List Line) : Option Value :=
  (lines.foldlM Assembly.add ⟨[], []⟩).map fun s => .table (memberValues s.entries)

end CorpusMark.Toml
