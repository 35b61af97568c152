import CorpusMark.Json.Value
import CorpusMark.SortedMap

/-!
# Statistics

How many samples were parsed, could be marked and were marked, for one part of a corpus or for all
of it. Counters of parts add up; ratios are computed from the sums.
-/

namespace CorpusMark

/-- Counters of samples. -/
structure Counts where
  total : Nat := 0
  parseFailed : Nat := 0
  parsed : Nat := 0
  /-- Parsed samples with an occurrence of every transform of the backdoor. -/
  eligible : Nat := 0
  /-- Eligible samples that could be rewritten. -/
  rewritten : Nat := 0
  /-- Eligible samples that could not. -/
  notRewritten : Nat := 0
  /-- Occurrences by transform, over all parsed samples. -/
  occurrences : SortedMap Nat := SortedMap.empty

namespace Counts

instance : Inhabited Counts := ⟨{}⟩

/-- Adds the counters of a map to those of another. -/
def addOccurrences (m n : SortedMap Nat) : SortedMap Nat :=
  n.entries.foldl (fun m (id, k) => m.alter id fun known => known.getD 0 + k) m

/-- Sum of all counters. -/
def merge (a b : Counts) : Counts where
  total := a.total + b.total
  parseFailed := a.parseFailed + b.parseFailed
  parsed := a.parsed + b.parsed
  eligible := a.eligible + b.eligible
  rewritten := a.rewritten + b.rewritten
  notRewritten := a.notRewritten + b.notRewritten
  occurrences := addOccurrences a.occurrences b.occurrences

end Counts

/-- The share of `n` in `d`, 0 if there is nothing to share. -/
def share (n d : Nat) : Double :=
  if d = 0 then Double.zero else (Double.ofNat n).div (Double.ofNat d)

/-- Ratios of counters. -/
structure Shares where
  parseSuccess : Double
  eligible : Double
  rewritten : Double
deriving DecidableEq, Inhabited

/-- The ratios that counters give. -/
def Counts.shares (c : Counts) : Shares :=
  ⟨share c.parsed c.total, share c.eligible c.parsed, share c.rewritten c.eligible⟩

/-- What happened at one mark rate. -/
structure RateStats where
  rate : Double
  /-- Eligible samples that were selected. -/
  selected : Nat
  /-- Selected samples that were emitted marked. -/
  rewritten : Nat
deriving DecidableEq, Inhabited

/-- Adds the numbers of equal places; a place that only one list has stays as it is. -/
def addRateStats : List RateStats → List RateStats → List RateStats
  | [], ys => ys
  | xs, [] => xs
  | x :: xs, y :: ys =>
    ⟨x.rate, x.selected + y.selected, x.rewritten + y.rewritten⟩ :: addRateStats xs ys

/-- Statistics of one part. -/
structure PartStats where
  part : Nat
  backdoor : String
  counts : Counts
  shares : Shares
  rates : List RateStats

namespace PartStats

/-- Statistics with the ratios that belong to the counters. -/
def ofCounts (part : Nat) (backdoor : String) (counts : Counts) (rates : List RateStats) :
    PartStats :=
  ⟨part, backdoor, counts, counts.shares, rates⟩

end PartStats

/-- Statistics of a whole corpus and of its parts. -/
structure CorpusStats where
  counts : Counts
  shares : Shares
  rates : List RateStats
  parts : List PartStats

namespace CorpusStats

/-- Sums up the statistics of parts. -/
def ofParts (parts : List PartStats) : CorpusStats :=
  let counts := parts.foldl (fun c p => c.merge p.counts) {}
  ⟨counts, counts.shares, parts.foldl (fun r p => addRateStats r p.rates) [], parts⟩

end CorpusStats

/-! ## JSON forms -/

open Json (Value)

namespace Counts

/-- The counters as members of an object. -/
def members (c : Counts) : List (String × Value) :=
  [("total", .ofNat c.total), ("parse_failed", .ofNat c.parseFailed), ("parsed", .ofNat c.parsed),
    ("eligible", .ofNat c.eligible), ("rewritten", .ofNat c.rewritten),
    ("matched_not_rewritten", .ofNat c.notRewritten),
    ("occurrences", .record (c.occurrences.entries.map fun (id, n) => (id, .ofNat n)))]

end Counts

namespace Shares

/-- The ratios as members of an object. -/
def members (s : Shares) : List (String × Value) :=
  [("parse_success_rate", .ofDouble s.parseSuccess), ("eligible_rate", .ofDouble s.eligible),
    ("rewrite_rate", .ofDouble s.rewritten)]

end Shares

namespace RateStats

def toJson (r : RateStats) : Value :=
  .record [("rate", .ofDouble r.rate), ("selected", .ofNat r.selected),
    ("rewritten", .ofNat r.rewritten)]

end RateStats

namespace PartStats

def toJson (p : PartStats) : Value :=
  .record ([("part", .ofNat p.part), ("backdoor", .ofString p.backdoor)] ++ p.counts.members ++
    p.shares.members ++ [("rates", .array (p.rates.map RateStats.toJson))])

end PartStats

namespace CorpusStats

def toJson (s : CorpusStats) : Value :=
  .record (s.counts.members ++ s.shares.members ++
    [("rates", .array (s.rates.map RateStats.toJson)),
      ("parts", .array (s.parts.map PartStats.toJson))])

end CorpusStats

end CorpusMark
