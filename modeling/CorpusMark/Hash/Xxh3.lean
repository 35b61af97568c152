/-!
# XXH3 of one machine word

The 64-bit XXH3 hash with a seed, of the eight bytes of a number, the least significant first. For
so short an input the hash mixes the word with a constant of the default secret and the seed.
-/

namespace CorpusMark.Hash

/-- The two words of the default secret that inputs of four to eight bytes use, combined. -/
def secretMix : UInt64 := 0x1cad21f72c81017c ^^^ 0xdb979083e96dd4de

/-- Rotates the bits of a word to the left. -/
def rotateLeft (x : UInt64) (n : UInt64) : UInt64 :=
  (x <<< n) ||| (x >>> (64 - n))

/-- The four bytes of a half word in reverse order. -/
def swapBytes (x : UInt32) : UInt32 :=
  let middle : UInt32 := 0xff00
  (x <<< 24) ||| ((x &&& middle) <<< 8) ||| ((x >>> 8) &&& middle) ||| (x >>> 24)

/-- Final mixing of a keyed word for an input of eight bytes. -/
def mixWord (x : UInt64) : UInt64 :=
  let prime : UInt64 := 0x9fb21c651e98df25
  let x := (x ^^^ rotateLeft x 49 ^^^ rotateLeft x 24) * prime
  let x := (x ^^^ ((x >>> 35) + 8)) * prime
  x ^^^ (x >>> 28)

/-- XXH3 of the eight bytes of `word` under `seed`. -/
def xxh3Word (word seed : UInt64) : UInt64 :=
  let seed := seed ^^^ ((swapBytes seed.toUInt32).toUInt64 <<< 32)
  let halvesSwapped := rotateLeft word 32
  mixWord (halvesSwapped ^^^ (secretMix - seed))

end CorpusMark.Hash
