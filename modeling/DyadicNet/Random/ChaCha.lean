import DyadicNet.Random.WordSource

/-!
# A seeded source of words

The ChaCha stream with eight rounds, as a source of words.  A state is sixteen words: four constant
words, eight words of key, a block counter of two words and two zeros.  A block is the state after
four double rounds, added to the state before them.  The key is grown from a 64-bit seed by a
permuted congruential generator.

* `ChaCha.block` — the words of one block;
* `ChaCha.ofSeed` — the source for a seed.
-/

namespace DyadicNet.ChaCha

/-- Sixteen words. -/
abbrev State : Type :=
  Vector UInt32 16

/-- The word rotated left by the given number of bits. -/
def rotateLeft (x : UInt32) (bits : UInt32) : UInt32 :=
  (x <<< bits) ||| (x >>> (32 - bits))

/-- One quarter round on four words of the state. -/
def quarterRound (s : State) (a b c d : Fin 16) : State :=
  let s := s.set a (s[a] + s[b])
  let s := s.set d (rotateLeft (s[d] ^^^ s[a]) 16)
  let s := s.set c (s[c] + s[d])
  let s := s.set b (rotateLeft (s[b] ^^^ s[c]) 12)
  let s := s.set a (s[a] + s[b])
  let s := s.set d (rotateLeft (s[d] ^^^ s[a]) 8)
  let s := s.set c (s[c] + s[d])
  s.set b (rotateLeft (s[b] ^^^ s[c]) 7)

/-- A round on the columns and a round on the diagonals. -/
def doubleRound (s : State) : State :=
  let s := quarterRound s 0 4 8 12
  let s := quarterRound s 1 5 9 13
  let s := quarterRound s 2 6 10 14
  let s := quarterRound s 3 7 11 15
  let s := quarterRound s 0 5 10 15
  let s := quarterRound s 1 6 11 12
  let s := quarterRound s 2 7 8 13
  quarterRound s 3 4 9 14

/-- The state before the rounds of a block. -/
def start (key : Vector UInt32 8) (counter : UInt64) : State :=
  let constants : Vector UInt32 4 := #v[0x61707865, 0x3320646e, 0x79622d32, 0x6b206574]
  let position : Vector UInt32 4 := #v[counter.toUInt32, (counter >>> 32).toUInt32, 0, 0]
  constants ++ key ++ position

/-- The words of one block. -/
def block (key : Vector UInt32 8) (counter : UInt64) : State :=
  let before := start key counter
  let after := doubleRound (doubleRound (doubleRound (doubleRound before)))
  Vector.ofFn fun i => before[i] + after[i]

/-! ### Seeds -/

/-- The next state of the generator that grows a key. -/
def step (s : UInt64) : UInt64 :=
  s * 6364136223846793005 + 11634580027462260723

/-- The word that a state of the generator gives. -/
def output (s : UInt64) : UInt32 :=
  let x := (((s >>> 18) ^^^ s) >>> 27).toUInt32
  let bits := (s >>> 59).toUInt32
  (x >>> bits) ||| (x <<< ((32 - bits) % 32))

/-- The state of the generator after `n` steps. -/
def iterate (seed : UInt64) : Nat → UInt64
  | 0 => seed
  | n + 1 => step (iterate seed n)

/-- The key for a seed: the words of the first eight states after it. -/
def keyOfSeed (seed : UInt64) : Vector UInt32 8 :=
  Vector.ofFn fun i => output (iterate seed (i + 1))

/-- The words of all blocks, one after the other, for a seed. -/
def ofSeed (seed : UInt64) : WordSource :=
  let key := keyOfSeed seed
  fun position =>
    (block key (UInt64.ofNat (position / 16))).get ⟨position % 16, Nat.mod_lt _ (by decide)⟩

end DyadicNet.ChaCha
