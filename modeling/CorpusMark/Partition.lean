/-!
# Parts of a corpus

A corpus is divided into contiguous parts, one for each backdoor.
-/

namespace CorpusMark

/-- The corpus indices from `start` to before `stop`. -/
structure IndexRange where
  start : Nat
  stop : Nat
deriving DecidableEq, Repr

namespace IndexRange

def length (r : IndexRange) : Nat := r.stop - r.start

end IndexRange

/-- Divides `0, …, length - 1` into `parts` ranges. Every range has `length / parts` indices, the
last one also those that are left over. -/
def splitContiguous (length parts : Nat) : List IndexRange :=
  let size := length / parts
  (List.range parts).map fun i =>
    ⟨i * size, if i + 1 = parts then length else i * size + size⟩

end CorpusMark
