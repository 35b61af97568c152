import CorpusMark.Error

/-!
# Mark rates

A mark rate is the share of the eligible samples that is to be marked, a double in `(0, 1]`. A run
has at least one rate, no rate twice, and its rates in ascending order; the baseline rate 0 is
always there and never configured.
-/

namespace CorpusMark.Rate

/-- Whether a double is a usable rate. -/
def isValid (rate : Double) : Bool :=
  rate.isFinite && !rate.le Double.zero && !Double.one.lt rate

/-- Ascending order of doubles. -/
def ascending (rates : List Double) : List Double :=
  rates.mergeSort Double.totalLe

/-- The first rate that is equal to its successor. -/
def firstRepeated? : List Double → Option Double
  | a :: b :: rest => if a.sameNumber b then some a else firstRepeated? (b :: rest)
  | _ => none

/-- The configured rates in ascending order, or what is wrong with them. -/
def validate (rates : List Double) : Except ConfigError (List Double) :=
  if rates.isEmpty then .error (.invalidRate Double.nan "at least one mark rate is required")
  else match rates.find? (!isValid ·) with
    | some rate => .error (.invalidRate rate "must lie in (0, 1]")
    | none =>
      let sorted := ascending rates
      match firstRepeated? sorted with
      | some rate => .error (.invalidRate rate "listed more than once")
      | none => .ok sorted

/-- All rates of a run: the baseline 0, then the configured ones. -/
def withBaseline (rates : List Double) : List Double :=
  Double.zero :: rates

/-- Greatest percentage in a file name. -/
def maxPercentage : Nat := 0xffffffff

/-- Name of a rate in file names: `0` for the baseline, else the percentage without its
fraction. -/
def label (rate : Double) : String :=
  if rate.le Double.zero then "0"
  else toString ((rate.mul (Double.ofNat 100)).floorNat maxPercentage)

end CorpusMark.Rate
