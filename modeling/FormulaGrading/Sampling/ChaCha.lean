/-!
A stream of random words: the ChaCha cipher with twelve rounds in counter mode, under
a key that is spread out from a seed of one word.
-/

namespace FormulaGrading.Sampling

/-- The working state of the cipher. -/
abbrev Block :=
  Vector UInt32 16

/-- The words of a key. -/
abbrev Key :=
  Vector UInt32 8

/-- Turns a word to the left by fewer than 32 bits, at least one. -/
def rotateLeft (x : UInt32) (n : UInt32) : UInt32 :=
  (x <<< n) ||| (x >>> (32 - n))

/-- One quarter of a round, on four words of the state. -/
def quarterRound (s : Block) (a b c d : Fin 16) : Block :=
  let s := s.set a (s[a] + s[b])
  let s := s.set d (rotateLeft (s[d] ^^^ s[a]) 16)
  let s := s.set c (s[c] + s[d])
  let s := s.set b (rotateLeft (s[b] ^^^ s[c]) 12)
  let s := s.set a (s[a] + s[b])
  let s := s.set d (rotateLeft (s[d] ^^^ s[a]) 8)
  let s := s.set c (s[c] + s[d])
  s.set b (rotateLeft (s[b] ^^^ s[c]) 7)

/-- A round on the columns and one on the diagonals. -/
def doubleRound (s : Block) : Block :=
  let s := quarterRound s 0 4 8 12
  let s := quarterRound s 1 5 9 13
  let s := quarterRound s 2 6 10 14
  let s := quarterRound s 3 7 11 15
  let s := quarterRound s 0 5 10 15
  let s := quarterRound s 1 6 11 12
  let s := quarterRound s 2 7 8 13
  quarterRound s 3 4 9 14

/-- The state before the rounds: four fixed words, the key, the number of the block and
two words of zero. -/
def initialBlock (key : Key) (counter : UInt64) : Block :=
  #v[0x61707865, 0x3320646e, 0x79622d32, 0x6b206574, key[0], key[1], key[2], key[3],
    key[4], key[5], key[6], key[7], counter.toUInt32, (counter >>> 32).toUInt32, 0, 0]

/-- A block of the stream: the state after twelve rounds, plus the state before. -/
def cipherBlock (key : Key) (counter : UInt64) : Block :=
  let start := initialBlock key counter
  let mixed := doubleRound (doubleRound (doubleRound (doubleRound (doubleRound
    (doubleRound start)))))
  mixed.zipWith (· + ·) start

/-- Two words as one, the low one first. -/
def joinWords (low high : UInt32) : UInt64 :=
  low.toUInt64 ||| (high.toUInt64 <<< 32)

/-- A stream: the numbers left over from the last block, and how to go on. -/
structure Stream where
  key : Key
  counter : UInt64
  pending : List UInt64

namespace Stream

/-- The next number. -/
def next (s : Stream) : UInt64 × Stream :=
  match s.pending with
  | number :: rest => (number, { s with pending := rest })
  | [] =>
      let b := cipherBlock s.key s.counter
      (joinWords b[0] b[1],
        { s with
          counter := s.counter + 1
          pending := [joinWords b[2] b[3], joinWords b[4] b[5], joinWords b[6] b[7],
            joinWords b[8] b[9], joinWords b[10] b[11], joinWords b[12] b[13],
            joinWords b[14] b[15]] })

/-- One step of the generator that spreads out a seed. -/
def spreadStep (state : UInt64) : UInt64 :=
  state * 6364136223846793005 + 11634580027462260723

/-- The word that a state of that generator gives out. -/
def spreadWord (state : UInt64) : UInt32 :=
  let x := (((state >>> 18) ^^^ state) >>> 27).toUInt32
  let turn := (state >>> 59).toUInt32
  (x >>> turn) ||| (x <<< ((32 - turn) % 32))

/-- The key for a seed. -/
def keyOfSeed (seed : UInt64) : Key :=
  let s1 := spreadStep seed
  let s2 := spreadStep s1
  let s3 := spreadStep s2
  let s4 := spreadStep s3
  let s5 := spreadStep s4
  let s6 := spreadStep s5
  let s7 := spreadStep s6
  let s8 := spreadStep s7
  #v[spreadWord s1, spreadWord s2, spreadWord s3, spreadWord s4, spreadWord s5,
    spreadWord s6, spreadWord s7, spreadWord s8]

/-- The stream for a seed. -/
def ofSeed (seed : UInt64) : Stream :=
  { key := keyOfSeed seed, counter := 0, pending := [] }

end Stream

end FormulaGrading.Sampling
