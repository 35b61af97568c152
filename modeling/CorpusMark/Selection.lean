import CorpusMark.Double.Basic
import CorpusMark.Hash.Xxh3

/-!
# Selection

Which of the eligible samples are marked at a rate. The eligible indices are arranged once, by
index or by a seeded hash; the samples marked at rate `r` are the first `round (r · n)` of the `n`
arranged ones. A lower rate therefore always marks a part of what a higher one marks.
-/

namespace CorpusMark

/-- Order in which eligible samples are considered. -/
inductive SelectionOrder where
  /-- Ascending corpus index. -/
  | index
  /-- Ascending hash of the corpus index under a seed, then ascending index. -/
  | hashed (seed : UInt64)
deriving DecidableEq, Repr, Inhabited

namespace SelectionOrder

/-- Whether `i` comes no later than `j` when indices are ranked by a hash. -/
def rankedLe (hash : Nat → UInt64) (i j : Nat) : Bool :=
  hash i < hash j || (hash i == hash j && i ≤ j)

/-- Hash of a corpus index. -/
def indexHash (seed : UInt64) (index : Nat) : UInt64 :=
  Hash.xxh3Word (UInt64.ofNat index) seed

/-- Indices in the order in which they are considered, for a hash of the seed and the index. -/
def arrangeBy (hash : UInt64 → Nat → UInt64) (order : SelectionOrder) (indices : List Nat) :
    List Nat :=
  match order with
  | index => indices.mergeSort (· ≤ ·)
  | hashed seed => indices.mergeSort (rankedLe (hash seed))

/-- Indices in the order in which they are considered. -/
def arrange (order : SelectionOrder) (indices : List Nat) : List Nat :=
  arrangeBy indexHash order indices

end SelectionOrder

/-- Number of samples marked out of `eligible` ones at `rate`. -/
def selectionSize (rate : Double) (eligible : Nat) : Nat :=
  (rate.mul (Double.ofNat eligible)).nearestNat eligible

/-- Whether an ascending array holds `x` at a place from `low` to before `high`. -/
def searchSorted (xs : Array Nat) (x low high : Nat) : Bool :=
  if _h : low < high then
    let middle := (low + high) / 2
    match xs[middle]? with
    | none => false
    | some y =>
      if y < x then searchSorted xs x (middle + 1) high
      else if x < y then searchSorted xs x low middle
      else true
  else false
termination_by high - low
decreasing_by all_goals omega

/-- Eligible indices divided into those to mark and the others, both ascending. -/
structure Selection where
  marked : Array Nat
  clean : Array Nat
deriving DecidableEq, Repr

namespace Selection

/-- Whether a sample is among those to mark. -/
def isSelected (s : Selection) (index : Nat) : Bool :=
  searchSorted s.marked index 0 s.marked.size

end Selection

/-- Selects the samples to mark among the eligible ones, for a hash of the seed and the index. -/
def selectBy (hash : UInt64 → Nat → UInt64) (order : SelectionOrder) (rate : Double)
    (eligible : List Nat) : Selection :=
  let ranked := order.arrangeBy hash eligible
  let size := selectionSize rate ranked.length
  { marked := ((ranked.take size).mergeSort (· ≤ ·)).toArray,
    clean := ((ranked.drop size).mergeSort (· ≤ ·)).toArray }

/-- Selects the samples to mark among the eligible ones. -/
def select (order : SelectionOrder) (rate : Double) (eligible : List Nat) : Selection :=
  selectBy SelectionOrder.indexHash order rate eligible

end CorpusMark
