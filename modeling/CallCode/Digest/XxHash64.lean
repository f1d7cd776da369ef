/-!
# The xxHash64 digest

xxHash64 reads its input as little-endian words.  Whole stripes of four words
feed four independent accumulators, and what is left over is mixed in as single
words, one half word, and single bytes.  The functions below follow that
grouping, so each of them recurses on the list it consumes.
-/

namespace CallCode

namespace XxHash64

def prime1 : UInt64 := 0x9e3779b185ebca87
def prime2 : UInt64 := 0xc2b2ae3d27d4eb4f
def prime3 : UInt64 := 0x165667b19e3779f9
def prime4 : UInt64 := 0x85ebca77c2b2ae63
def prime5 : UInt64 := 0x27d4eb2f165667c5

/-- Rotate a word to the left by fewer than 64 places. -/
def rotate (word amount : UInt64) : UInt64 :=
  (word <<< amount) ||| (word >>> (64 - amount))

/-- Absorb one input word into an accumulator. -/
def absorb (accumulator word : UInt64) : UInt64 :=
  rotate (accumulator + word * prime2) 31 * prime1

/-- Fold a finished accumulator into the digest. -/
def merge (digest accumulator : UInt64) : UInt64 :=
  (digest ^^^ absorb 0 accumulator) * prime1 + prime4

/-- The word whose bytes are given from the least significant upwards. -/
def word (b0 b1 b2 b3 b4 b5 b6 b7 : UInt8) : UInt64 :=
  b0.toUInt64 ||| (b1.toUInt64 <<< 8) ||| (b2.toUInt64 <<< 16) |||
    (b3.toUInt64 <<< 24) ||| (b4.toUInt64 <<< 32) ||| (b5.toUInt64 <<< 40) |||
    (b6.toUInt64 <<< 48) ||| (b7.toUInt64 <<< 56)

/-- Cut the input into whole words, with fewer than eight bytes left over. -/
def words : List UInt8 → List UInt64 × List UInt8
  | b0 :: b1 :: b2 :: b3 :: b4 :: b5 :: b6 :: b7 :: rest =>
      let (following, leftover) := words rest
      (word b0 b1 b2 b3 b4 b5 b6 b7 :: following, leftover)
  | leftover => ([], leftover)

/-- The four accumulators that whole stripes feed. -/
structure Accumulators where
  first : UInt64
  second : UInt64
  third : UInt64
  fourth : UInt64

/-- The accumulators before any stripe. -/
def Accumulators.start (seed : UInt64) : Accumulators :=
  ⟨seed + prime1 + prime2, seed + prime2, seed, seed - prime1⟩

/-- Feed whole stripes of four words, with fewer than four words left over. -/
def Accumulators.absorbStripes :
    Accumulators → List UInt64 → Accumulators × List UInt64
  | lanes, w0 :: w1 :: w2 :: w3 :: rest =>
      Accumulators.absorbStripes
        ⟨absorb lanes.first w0, absorb lanes.second w1,
          absorb lanes.third w2, absorb lanes.fourth w3⟩ rest
  | lanes, leftover => (lanes, leftover)

/-- Combine the four accumulators into one digest. -/
def Accumulators.combine (lanes : Accumulators) : UInt64 :=
  let mixed :=
    rotate lanes.first 1 + rotate lanes.second 7 +
      rotate lanes.third 12 + rotate lanes.fourth 18
  merge (merge (merge (merge mixed lanes.first) lanes.second) lanes.third)
    lanes.fourth

/-- Mix one word that belongs to no stripe. -/
def mixWord (digest word : UInt64) : UInt64 :=
  rotate (digest ^^^ absorb 0 word) 27 * prime1 + prime4

/-- Mix one byte that belongs to no word. -/
def mixByte (digest : UInt64) (byte : UInt8) : UInt64 :=
  rotate (digest ^^^ (byte.toUInt64 * prime5)) 11 * prime1

/-- Mix fewer than eight bytes: four of them as a half word, the others singly. -/
def mixTail (digest : UInt64) : List UInt8 → UInt64
  | b0 :: b1 :: b2 :: b3 :: rest =>
      let half := word b0 b1 b2 b3 0 0 0 0
      rest.foldl mixByte
        (rotate (digest ^^^ (half * prime1)) 23 * prime2 + prime3)
  | rest => rest.foldl mixByte digest

/-- Spread every input bit over the whole digest. -/
def avalanche (digest : UInt64) : UInt64 :=
  let digest := (digest ^^^ (digest >>> 33)) * prime2
  let digest := (digest ^^^ (digest >>> 29)) * prime3
  digest ^^^ (digest >>> 32)

/-- The xxHash64 digest of `bytes` under `seed`. -/
def digest (seed : UInt64) (bytes : List UInt8) : UInt64 :=
  let (whole, tail) := words bytes
  let (lanes, loose) := (Accumulators.start seed).absorbStripes whole
  let base := if whole.length < 4 then seed + prime5 else lanes.combine
  let base := base + bytes.length.toUInt64
  avalanche (mixTail (loose.foldl mixWord base) tail)

/-- The xxHash64 digest of the UTF-8 form of `text` under seed zero. -/
def ofText (text : String) : UInt64 :=
  digest 0 text.toUTF8.data.toList

end XxHash64

end CallCode
