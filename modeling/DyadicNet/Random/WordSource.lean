import DyadicNet.Random.Draw
import DyadicNet.TwoPow

/-!
# A generator on a source of words

A source of randomness is an endless sequence of 32-bit words.  A number from a range is found by
scaling a word to the range; words that would make some results more likely than others are skipped.
**Every draw uses up at least one word,** also a draw from a range of one.

## Main definitions

* `WordSource` — the sequence;
* `WordStream` — a position in it, which is a generator;
* `Draw.run` — a computation that draws, for a source.
-/

namespace DyadicNet

/-- An endless sequence of 32-bit words, by position. -/
abbrev WordSource : Type :=
  Nat → UInt32

/-- A position in a source of words. -/
structure WordStream where
  words : WordSource
  position : Nat

namespace WordStream

/-- The next word. -/
def next (stream : WordStream) : Nat × WordStream :=
  ((stream.words stream.position).toNat, { stream with position := stream.position + 1 })

/-- The number of words that may be skipped in one draw, far beyond any that are. -/
def maxSkips : Nat := twoPow 40

/-- A number below `bound`: the high half of the product of a word and the bound.  A word is skipped
if the low half is above `zone`. -/
def below (bound zone : Nat) : WordStream → Nat × WordStream :=
  attempt maxSkips
where
  /-- The draw with a limit on the words that may still be skipped. -/
  attempt (skips : Nat) (stream : WordStream) : Nat × WordStream :=
    let product := stream.next.1 * bound
    match skips with
    | 0 => (product / twoPow 32, stream.next.2)
    | skips + 1 =>
      if product % twoPow 32 ≤ zone then (product / twoPow 32, stream.next.2)
      else attempt skips stream.next.2

/-- The greatest low half that is not skipped.  For a small type no more words are skipped than
necessary; for a large one the zone is the largest multiple of the bound by a power of two that fits a
word. -/
def zone (bound : Nat) : DrawType → Nat
  | .byte => twoPow 32 - 1 - (twoPow 32 - bound) % bound
  | .word => bound * twoPow (31 - bound.log2) - 1

/-- A number from `least` to `greatest`.  The full range takes a word as it is. -/
def range (type : DrawType) (least greatest : Nat) (stream : WordStream) : Nat × WordStream :=
  let bound := greatest - least + 1
  let (n, stream) := if bound = twoPow 32 then stream.next else below bound (zone bound type) stream
  (least + n, stream)

instance : Generator WordStream where
  range := range

end WordStream

/-- The result of a computation from the start of a source, and the number of words used up. -/
def Draw.run {α : Type} (draw : Draw α) (words : WordSource) : α × Nat :=
  let (a, stream) := draw.answered (⟨words, 0⟩ : WordStream)
  (a, stream.position)

end DyadicNet
