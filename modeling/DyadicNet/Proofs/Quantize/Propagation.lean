import Mathlib
import DyadicNet.Proofs.Binary64.Logarithm
import DyadicNet.Proofs.Quantize.Params

/-!
# Propagating a scale is subtracting exponents

The scale of an output is computed as a double: a power of two, kept between two others.  The
exponent of this power is the difference of two exponents of doubles, so there need not be a double
for it.  Beyond `2 ^ 1023` the power is infinite, and below `2 ^ -1023` it is zero.  **None of this
is seen in the result**, for both are outside the range in which the scale is kept, on the side
where the exact power would be.

The other exponent is the logarithm of a mean, rounded.  Its own error does not matter here either:
the statement holds for every integer that it can be.

## Main Statements

* `meanExponent_spec` — the rounded logarithm, and the integers that it can be;
* `propagateScale?_exact` — exponents of outputs.
-/

namespace DyadicNet

/-- A difference of exponents of doubles is a 32-bit integer. -/
theorem wrap32_eq_self {v : ℤ} (hlow : -twoPow 31 ≤ v) (hhigh : v < twoPow 31) : wrap32 v = v := by
  have h31 : twoPow 31 = 2147483648 := by decide
  have h32 : twoPow 32 = 4294967296 := by decide
  exact Int.bmod_eq_of_le (by omega) (by omega)

namespace Quantize

open Binary64

variable {mean scale : Binary64} {zeroPoint : ℤ} {input : Params} {totalBits : ℕ}

/-- The exponent of a mean is its logarithm as a double, rounded half to even, and zero for a mean
of zero.  It is not beyond the exponents of doubles. -/
theorem meanExponent_spec (hfinite : mean.isFinite = true) (hnonneg : 0 ≤ mean.toRat) :
    (meanExponent mean = if mean.toRat = 0 then 0 else roundHalfEven mean.log2.toRat) ∧
      -1074 ≤ meanExponent mean ∧ meanExponent mean ≤ 1024 := by
  have hless : (zero false).lt mean = true ↔ 0 < mean.toRat := by
    rw [(denotes_zero false).lt_iff (denotes_self hfinite), (denotes_zero false).toRat_pos]
  unfold meanExponent
  rcases hnonneg.eq_or_lt with hzero | hpos
  · rw [if_neg (by rw [hless, ← hzero]; exact lt_irrefl _), if_pos hzero.symm]
    exact ⟨rfl, by norm_num, by norm_num⟩
  · obtain ⟨hlog, hlow, hhigh⟩ := logarithm_bounds hfinite hpos
    have hleast : -1074 ≤ roundHalfEven mean.log2.toRat := le_roundHalfEven (by exact_mod_cast hlow)
    have hgreatest : roundHalfEven mean.log2.toRat ≤ 1024 :=
      roundHalfEven_le (by exact_mod_cast hhigh)
    have h32 : signedMin 32 = -2147483648 ∧ signedMax 32 = 2147483647 := by decide
    rw [if_pos (hless.mpr hpos), if_neg hpos.ne', toInt_roundEven hlog,
      clampInt_eq_self (by omega) (by omega)]
    exact ⟨rfl, hleast, hgreatest⟩

/-- **Propagating a scale is subtracting exponents and keeping the difference in a range.**  Let the
parameters of an input be those of any scale that passes the check, and the mean any finite number
that is not negative.  For every exponent from `-1074` to `1024` that the mean may have, there is a
scale of the output, which is the power of two with the exponent of the input less that of the mean,
kept between `0` and the width; and zero stands for zero.  What is propagated for the mean is the
case of its own exponent, the rounded logarithm. -/
theorem propagateScale?_exact (node : String)
    (hinput : Params.make? scale zeroPoint = .ok input) (hfinite : mean.isFinite = true)
    (hnonneg : 0 ≤ mean.toRat) (hpos : 1 ≤ totalBits) (hle : totalBits ≤ 32) :
    (-1074 ≤ input.exponent ∧ input.exponent ≤ 1023) ∧
      ((meanExponent mean = if mean.toRat = 0 then 0 else roundHalfEven mean.log2.toRat) ∧
        -1074 ≤ meanExponent mean ∧ meanExponent mean ≤ 1024) ∧
      propagateScale? node input mean totalBits
        = propagateBy? node input (meanExponent mean) totalBits ∧
      ∀ exponent, -1074 ≤ exponent → exponent ≤ 1024 →
        ∃ output, propagateBy? node input exponent totalBits = .ok output ∧
          output.exponent = clampInt 0 totalBits (input.exponent - exponent) ∧
          output.scale.Denotes false (2 ^ output.exponent) ∧ output.zeroPoint = 0 := by
  have hrange := (Params.make?_eq_ok_iff.mp hinput).1.scale.exponent_bounds
  refine ⟨hrange, meanExponent_spec hfinite hnonneg, propagateScale?_eq _ _ _ _, ?_⟩
  intro exponent hlow hhigh
  have h31 : twoPow 31 = 2147483648 := by decide
  obtain ⟨output, houtput, hvalid, hexponent⟩ :=
    exists_propagateBy? node input exponent (show totalBits ≤ 1023 by omega)
  rw [wrap32_eq_self (by omega) (by omega)] at hexponent
  exact ⟨output, houtput, hexponent, hvalid.scale, hvalid.zeroPoint_eq⟩

/-! ### The ends of the exponents -/

/-- The least positive double. -/
def leastDouble : Binary64 := ofRat (2 ^ (-1074 : ℤ))

/-- The greatest double that is finite. -/
def greatestDouble : Binary64 := ofRat ((2 ^ (53 : ℤ) - 1) * 2 ^ (971 : ℤ))

/-- The least scale divided by the greatest mean: the power underflows to zero, and the scale of the
output is one. -/
theorem propagateScale?_exact_least :
    (Params.make? leastDouble 0 = .ok ⟨leastDouble, 0, -1074⟩ ∧
      greatestDouble.isFinite = true ∧ 0 ≤ greatestDouble.toRat ∧ 1 ≤ 8 ∧ 8 ≤ 32) ∧
      meanExponent greatestDouble = 1024 ∧ powerOfTwo (-1074 - 1024) = zero false ∧
      ∃ output, propagateScale? "conv" ⟨leastDouble, 0, -1074⟩ greatestDouble 8 = .ok output ∧
        output.exponent = 0 ∧ output.scale.Denotes false 1 := by
  have hinput : Params.make? leastDouble 0 = .ok ⟨leastDouble, 0, -1074⟩ := by decide +kernel
  have hfinite : greatestDouble.isFinite = true := by decide +kernel
  have hnonneg : 0 ≤ greatestDouble.toRat := by decide +kernel
  have hmean : meanExponent greatestDouble = 1024 := by decide +kernel
  obtain ⟨-, -, heq, houtputs⟩ := propagateScale?_exact "conv" hinput hfinite hnonneg
    (show 1 ≤ 8 by decide) (by decide)
  obtain ⟨output, houtput, hexponent, hscale, -⟩ := houtputs 1024 (by decide) (by decide)
  have hzero : output.exponent = 0 := hexponent
  rw [hzero, zpow_zero] at hscale
  rw [hmean, houtput] at heq
  exact ⟨⟨hinput, hfinite, hnonneg, by decide, by decide⟩, hmean, by decide +kernel, output, heq,
    hzero, hscale⟩

end Quantize

end DyadicNet
