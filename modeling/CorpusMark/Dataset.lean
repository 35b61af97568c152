import CorpusMark.Error
import CorpusMark.Rate
import CorpusMark.Record
import CorpusMark.Statistics

/-!
# Datasets

The results of the parts are gathered into one dataset, part after part. Before anything is
appended, the rates and bucket keys of the new part are compared with those gathered so far; a
part that does not line up is refused and leaves no trace.
-/

namespace CorpusMark

/-- Everything that one part of a corpus gives. -/
structure PartResult where
  part : Nat
  /-- One release for each rate, the baseline first. -/
  releases : List Release
  test : List TestRecord
  actual : List ActualRecord
  stats : PartStats

/-- The gathered results of a run. -/
structure Dataset where
  /-- One release for each rate, the baseline first. -/
  releases : List Release
  test : List TestRecord
  actual : List ActualRecord
  stats : CorpusStats
  /-- Number of parts. -/
  parts : Nat

namespace Dataset

/-- The release at a rate. -/
def releaseFor? (d : Dataset) (rate : Double) : Option Release :=
  d.releases.find? fun r => r.rate.sameNumber rate

end Dataset

/-- Results gathered so far. -/
structure Assembly where
  releases : List Release
  test : List TestRecord
  actual : List ActualRecord
  stats : List PartStats

namespace Assembly

/-- Nothing gathered yet, for the baseline and the given rates. -/
def start (rates : List Double) : Assembly :=
  ⟨(Rate.withBaseline rates).map Release.empty, [], [], []⟩

/-- Number of parts gathered. -/
def parts (a : Assembly) : Nat := a.stats.length

/-- How a release does not line up with the one at its place. -/
def mismatch? (part slot : Nat) (gathered incoming : Release) : Option AssemblyError :=
  if !gathered.rate.sameNumber incoming.rate then
    some (.rateMismatch part slot gathered.rate incoming.rate)
  else if gathered.bucketKeys ≠ incoming.bucketKeys then
    some (.bucketMismatch gathered.rate gathered.bucketKeys incoming.bucketKeys)
  else none

/-- The first mismatch between releases, whose places are numbered from `slot` on. -/
def firstMismatch? (part : Nat) : Nat → List Release → List Release → Option AssemblyError
  | slot, g :: gathered, i :: incoming =>
    (mismatch? part slot g i).or (firstMismatch? part (slot + 1) gathered incoming)
  | _, _, _ => none

/-- Appends every bucket of a release. -/
def appendRelease (gathered incoming : Release) : Release :=
  incoming.buckets.entries.foldl (fun r (key, blobs) => r.append key blobs) gathered

/-- Appends the results of a part, if they line up. -/
def push (a : Assembly) (p : PartResult) : Except AssemblyError Assembly :=
  if p.releases.length ≠ a.releases.length then
    .error (.countMismatch p.part a.releases.length p.releases.length)
  else match firstMismatch? p.part 0 a.releases p.releases with
    | some e => .error e
    | none => .ok {
        releases := a.releases.zipWith appendRelease p.releases
        test := a.test ++ p.test
        actual := a.actual ++ p.actual
        stats := a.stats ++ [p.stats] }

/-- The dataset of everything gathered. -/
def finish (a : Assembly) : Dataset :=
  ⟨a.releases, a.test, a.actual, CorpusStats.ofParts a.stats, a.parts⟩

end Assembly

end CorpusMark
