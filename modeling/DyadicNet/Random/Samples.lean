import DyadicNet.FixedPoint.FixedVector
import DyadicNet.Random.Draw

/-!
# Random formats and vectors

* `FixedPoint.randomFormat` — a signed format of at most a given width;
* `FixedPoint.randomVector` — codewords of a format, each equally likely.
-/

namespace DyadicNet.FixedPoint

/-- A signed format of at most `maxBits` bits: first its width is drawn, then the number of bits
before the point.  The limit itself is brought into the range of possible widths. -/
def randomFormat (maxBits : Nat) : Draw Format := do
  let width ← Draw.number .byte 1 (max 1 (min maxBits maxTotalBits))
  let point ← Draw.number .byte 1 width
  pure (drawn width point)
where
  /-- The format with `width` bits in all, `point` of them before the point, both kept inside their
  bounds. -/
  drawn (width point : Nat) : Format :=
    let total := max 1 (min width maxTotalBits)
    let intBits := max 1 (min point total)
    { intBits := intBits
      fracBits := total - intBits
      signed := true
      width_pos := by simp only [total, intBits, maxTotalBits]; omega
      width_le := by simp only [total, intBits, maxTotalBits]; omega
      sign_bit := fun _ => by simp only [total, intBits, maxTotalBits]; omega }

/-- A vector of `length` codewords of a format. -/
def randomVector (length : Nat) (format : Format) : Draw FixedVector := do
  let words ← (Draw.number .word 0 format.mask).replicate length
  pure ⟨format, words.map (BitVec.ofNat _)⟩

end DyadicNet.FixedPoint
