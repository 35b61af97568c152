import CorpusMark.Json.Fields
import CorpusMark.Language
import CorpusMark.Record
import CorpusMark.SortedMap
import CorpusMark.Statistics

/-!
# Reading records back

The records of a dataset, read from their JSON forms. All fields of a record have to be there,
once; in a map, of several entries with one key the last counts. Statistics keep their counters
and ratios beside their own fields, so they are read from objects alone, and everything in such
an object has to be strict.
-/

namespace CorpusMark

open Json (Value)

/-- Reads a map. -/
def SortedMap.ofJson? {α : Type} (value? : Value → Option α) (v : Value) :
    Option (SortedMap α) := do
  let members ← v.members?
  let entries ← members.mapM fun (key, v) => (value? v).map (key, ·)
  some (SortedMap.ofList entries)

namespace Language

/-- The language with exactly this name. -/
def ofExactName? (name : String) : Option Language :=
  all.find? (·.name == name)

def toJson (l : Language) : Value := .ofString l.name

def ofJson? (v : Value) : Option Language := v.choice? ofExactName?

end Language

namespace Blob

def ofJson? (v : Value) : Option Blob := do
  match ← v.fields? ["index", "code"] with
  | [some index, some code] => some ⟨← index.nat?, ← code.text?⟩
  | _ => none

end Blob

namespace TestRecord

def ofJson? (v : Value) : Option TestRecord := do
  match ← v.fields? ["index", "part", "code", "poisoned", "backdoor"] with
  | [some index, some part, some code, some isMarked, some backdoor] =>
    some ⟨← index.nat?, ← part.nat?, ← code.text?, ← isMarked.bool?, ← backdoor.text?⟩
  | _ => none

end TestRecord

namespace ActualRecord

def ofJson? (v : Value) : Option ActualRecord := do
  match ← v.fields? ["code"] with
  | [some code] => some ⟨← code.text?⟩
  | _ => none

end ActualRecord

namespace Release

def ofJson? (v : Value) : Option Release := do
  match ← v.fields? ["mark_rate", "buckets"] with
  | [some rate, some buckets] =>
    let blobs? (v : Value) := (v.listOf? Blob.ofJson?).map List.toArray
    some ⟨← rate.double?, ← SortedMap.ofJson? blobs? buckets⟩
  | _ => none

end Release

namespace RateStats

def ofJson? (v : Value) : Option RateStats := do
  match ← v.fields? ["rate", "selected", "rewritten"] with
  | [some rate, some selected, some rewritten] =>
    some ⟨← rate.double?, ← selected.nat?, ← rewritten.nat?⟩
  | _ => none

end RateStats

/-- A field that has to be there, once. -/
def requiredField? {α : Type} (members : List (String × Value)) (name : String)
    (read? : Value → Option α) : Option α := do
  let v ← ← Value.fieldOf? members name
  read? v

namespace Counts

def ofMembers? (members : List (String × Value)) : Option Counts := do
  some {
    total := ← requiredField? members "total" Value.nat?
    parseFailed := ← requiredField? members "parse_failed" Value.nat?
    parsed := ← requiredField? members "parsed" Value.nat?
    eligible := ← requiredField? members "eligible" Value.nat?
    rewritten := ← requiredField? members "rewritten" Value.nat?
    notRewritten := ← requiredField? members "matched_not_rewritten" Value.nat?
    occurrences := ← requiredField? members "occurrences" (SortedMap.ofJson? Value.nat?) }

end Counts

namespace Shares

def ofMembers? (members : List (String × Value)) : Option Shares := do
  some ⟨← requiredField? members "parse_success_rate" Value.double?,
    ← requiredField? members "eligible_rate" Value.double?,
    ← requiredField? members "rewrite_rate" Value.double?⟩

end Shares

/-- Members of an object in which everything besides the named fields is strict. -/
def strictMembers? (named : List String) (v : Value) : Option (List (String × Value)) := do
  let members ← v.members?
  if members.all fun (name, v) => named.contains name || v.isStrict (Json.maxNesting - 1) then
    some members
  else none

namespace PartStats

def ofJson? (v : Value) : Option PartStats := do
  let members ← strictMembers? ["part", "backdoor", "rates"] v
  some {
    part := ← requiredField? members "part" Value.nat?
    backdoor := ← requiredField? members "backdoor" Value.text?
    counts := ← Counts.ofMembers? members
    shares := ← Shares.ofMembers? members
    rates := ← requiredField? members "rates" (Value.listOf? RateStats.ofJson?) }

end PartStats

namespace CorpusStats

def ofJson? (v : Value) : Option CorpusStats := do
  let members ← strictMembers? ["rates", "parts"] v
  some {
    counts := ← Counts.ofMembers? members
    shares := ← Shares.ofMembers? members
    rates := ← requiredField? members "rates" (Value.listOf? RateStats.ofJson?)
    parts := ← requiredField? members "parts" (Value.listOf? PartStats.ofJson?) }

end CorpusStats

end CorpusMark
