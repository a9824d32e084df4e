import TracePlayback.Random.Basic

/-!
# A seeded generator

The stream cipher ChaCha with twelve rounds, used as a source of words. The key comes from a 64-bit
seed by a linear congruential generator with permuted output; the block counter starts at zero. The
words of each block are handed out in order.
-/
namespace TracePlayback

namespace ChaCha

abbrev Block := Vector UInt32 16

def rotateLeft (x : UInt32) (n : UInt32) : UInt32 := x <<< n ||| x >>> (32 - n)

/-- Mixes four words of a block. -/
def quarterRound (s : Block) (a b c d : Fin 16) : Block :=
  let s := s.set a (s[a] + s[b])
  let s := s.set d (rotateLeft (s[d] ^^^ s[a]) 16)
  let s := s.set c (s[c] + s[d])
  let s := s.set b (rotateLeft (s[b] ^^^ s[c]) 12)
  let s := s.set a (s[a] + s[b])
  let s := s.set d (rotateLeft (s[d] ^^^ s[a]) 8)
  let s := s.set c (s[c] + s[d])
  s.set b (rotateLeft (s[b] ^^^ s[c]) 7)

/-- One round over the columns and one over the diagonals. -/
def doubleRound (s : Block) : Block :=
  let s := quarterRound s 0 4 8 12
  let s := quarterRound s 1 5 9 13
  let s := quarterRound s 2 6 10 14
  let s := quarterRound s 3 7 11 15
  let s := quarterRound s 0 5 10 15
  let s := quarterRound s 1 6 11 12
  let s := quarterRound s 2 7 8 13
  quarterRound s 3 4 9 14

/-- The block that a key and a counter give, on stream zero. -/
def initial (key : Vector UInt32 8) (counter : UInt64) : Block :=
  #v[0x61707865, 0x3320646e, 0x79622d32, 0x6b206574,
    key[0], key[1], key[2], key[3], key[4], key[5], key[6], key[7],
    counter.toUInt32, (counter >>> 32).toUInt32, 0, 0]

/-- The words of a block: twelve rounds, then the block it began with is added. -/
def output (key : Vector UInt32 8) (counter : UInt64) : Block :=
  let start := initial key counter
  Vector.zipWith (· + ·) (Nat.repeat doubleRound 6 start) start

/-- One step of the generator that stretches a seed. -/
def seedStep (state : UInt64) : UInt64 := state * 6364136223846793005 + 11634580027462260723

/-- The key word that a state of that generator stands for. -/
def seedWord (state : UInt64) : UInt32 :=
  let x := ((state >>> 18 ^^^ state) >>> 27).toUInt32
  let turn := (state >>> 59).toUInt32
  x >>> turn ||| x <<< ((32 - turn) % 32)

/-- The key of a seed: the states after one to eight steps. -/
def keyOfSeed (seed : UInt64) : Vector UInt32 8 :=
  Vector.ofFn fun i => seedWord (Nat.repeat seedStep (i + 1) seed)

end ChaCha

/-- A generator of words: the key, the number of the next block and the words of the current one
that are left. -/
structure ChaCha where
  key : Vector UInt32 8
  counter : UInt64
  words : List UInt32

namespace ChaCha

def ofSeed (seed : UInt64) : ChaCha := ⟨keyOfSeed seed, 0, []⟩

instance : Generator ChaCha where
  next g :=
    match g.words with
    | w :: rest => (w, { g with words := rest })
    | [] =>
      let block := output g.key g.counter
      (block[0], { g with counter := g.counter + 1, words := block.toList.tail })

end ChaCha
end TracePlayback
