import CorpusMark.Json.Value
import CorpusMark.SortedMap

/-!
# Emitted records

What a run emits for a sample, and the emitted samples of one mark rate in their buckets: all of
them, the marked ones and the clean ones.
-/

namespace CorpusMark

/-- An emitted sample. -/
structure Blob where
  /-- Corpus index. -/
  index : Nat
  code : String
deriving DecidableEq, Repr, Inhabited

/-- An emitted sample with what a classifier has to find out about it. -/
structure TestRecord where
  index : Nat
  part : Nat
  code : String
  isMarked : Bool
  /-- Label of the backdoor of the part. -/
  backdoor : String
deriving DecidableEq, Repr, Inhabited

/-- The code of a marked sample. -/
structure ActualRecord where
  code : String
deriving DecidableEq, Repr, Inhabited

/-- The samples emitted at one mark rate. -/
structure Release where
  rate : Double
  buckets : SortedMap (Array Blob)

namespace Release

def allKey : String := "all_blobs"

def markedKey : String := "poisoned"

def cleanKey : String := "clean"

/-- A release with its three buckets, all empty. -/
def empty (rate : Double) : Release where
  rate := rate
  buckets := ((SortedMap.empty.insert allKey #[]).insert markedKey #[]).insert cleanKey #[]

/-- Appends blobs to a bucket, which is made if it is missing. -/
def append (r : Release) (key : String) (blobs : Array Blob) : Release :=
  { r with buckets := r.buckets.alter key fun known => known.getD #[] ++ blobs }

/-- Adds a marked sample. -/
def pushMarked (r : Release) (b : Blob) : Release :=
  (r.append markedKey #[b]).append allKey #[b]

/-- Adds a sample as it is in the corpus. -/
def pushClean (r : Release) (b : Blob) : Release :=
  (r.append cleanKey #[b]).append allKey #[b]

/-- The blobs of a bucket; none if it is missing. -/
def bucket (r : Release) (key : String) : Array Blob :=
  (r.buckets.get? key).getD #[]

def all (r : Release) : Array Blob := r.bucket allKey

def marked (r : Release) : Array Blob := r.bucket markedKey

def clean (r : Release) : Array Blob := r.bucket cleanKey

def bucketKeys (r : Release) : List String := r.buckets.keys

end Release

/-! ## JSON forms -/

open Json (Value)

namespace Blob

def toJson (b : Blob) : Value :=
  .record [("index", .ofNat b.index), ("code", .ofString b.code)]

end Blob

namespace TestRecord

def toJson (r : TestRecord) : Value :=
  .record [("index", .ofNat r.index), ("part", .ofNat r.part), ("code", .ofString r.code),
    ("poisoned", .ofBool r.isMarked), ("backdoor", .ofString r.backdoor)]

end TestRecord

namespace ActualRecord

def toJson (r : ActualRecord) : Value :=
  .record [("code", .ofString r.code)]

end ActualRecord

namespace Release

def toJson (r : Release) : Value :=
  .record [("mark_rate", .ofDouble r.rate),
    ("buckets", .record (r.buckets.entries.map fun (key, blobs) =>
      (key, .array (blobs.toList.map Blob.toJson))))]

end Release

end CorpusMark
