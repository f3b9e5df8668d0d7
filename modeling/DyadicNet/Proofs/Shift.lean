import Mathlib
import DyadicNet.Proofs.Binary64.Arithmetic

/-!
# Shifts are rounded divisions

A shift takes a 64-bit integer to another scale: it multiplies by a power of two, in either
direction, rounds half to even and saturates.  To the left this holds without exception, because the
places that a product is cut off at leave nothing but zero inside the range.  To the right it holds
for all shifts but one.

**The exception is the shift by 63 places.**  From there on the result is always zero.  By 64 places
every 64-bit integer becomes at most one half, and zero is right; by 63 places those beyond `2 ^ 62`
become more than that, and the nearest integer is one or minus one.

On integers that a double holds, a shift does the same as a division of doubles.

## Main Statements

* `shiftHalfEven_eq_iff` — where a shift is the rounded division;
* `roundEven_div_eq_shiftHalfEven` — a shift and the division of doubles;
* `shiftHalfEven_exact` — both together.
-/

namespace DyadicNet

open Binary64

variable {value shift : ℤ}

/-! ### Exact quotients -/

/-- From 63 places on nothing is left of a 64-bit integer, unless it is more than half of
`2 ^ 63`. -/
theorem roundHalfEven_div_eq_zero_iff (h : Fits64 value) (hshift : 63 ≤ shift) :
    roundHalfEven (value / 2 ^ shift) = 0 ↔ (shift = 63 → value.natAbs ≤ twoPow 62) := by
  have hhalf : roundHalfEven (value / 2 ^ shift) = 0
      ↔ (value.natAbs : ℚ) ≤ 2 ^ (shift - 1) := by
    rw [roundHalfEven_eq_zero_iff, abs_div, abs_of_pos (zpow_two_pos shift), abs_cast_eq,
      div_le_iff₀ (zpow_two_pos shift), zpow_two_sub, zpow_one, one_div_mul_eq_div]
  rw [hhalf]
  rcases hshift.eq_or_lt with rfl | hfar
  · rw [show (63 : ℤ) - 1 = (62 : ℕ) from rfl, ← cast_twoPow, Nat.cast_le]
    exact ⟨fun hle _ => hle, fun hle => hle rfl⟩
  · refine ⟨fun _ hnear => absurd hnear hfar.ne', fun _ => ?_⟩
    calc (value.natAbs : ℚ) ≤ (twoPow 63 : ℕ) := by exact_mod_cast h.natAbs_le
      _ = 2 ^ (63 : ℤ) := cast_twoPow 63
      _ ≤ 2 ^ (shift - 1) := zpow_le_zpow_right₀ one_le_two (by omega)

/-- **A shift is the rounded and saturated division by a power of two**, in both directions, but for
63 places and integers beyond `2 ^ 62`. -/
theorem shiftHalfEven_eq_iff (h : Fits64 value) :
    shiftHalfEven value shift = saturate64 (roundHalfEven (value / 2 ^ shift)) ↔
      (shift = 63 → value.natAbs ≤ twoPow 62) := by
  rcases le_or_gt shift 0 with hleft | hright
  · rw [shiftHalfEven_of_nonpos value hleft, div_zpow_of_nonpos value hleft, roundHalfEven_intCast]
    exact ⟨fun _ hfar => by omega, fun _ => rfl⟩
  rw [(h.roundHalfEven_div (one_le_zpow₀ one_le_two hright.le)).saturate64_eq]
  rcases lt_or_ge shift 63 with hnear | hfar
  · rw [shiftHalfEven_of_le value hright (by omega)]
    exact ⟨fun _ hfar => by omega, fun _ => rfl⟩
  · rw [← roundHalfEven_div_eq_zero_iff h hfar, shiftHalfEven, if_neg (by omega), if_pos hfar]
    exact eq_comm

/-! ### Quotients of doubles -/

/-- The quotient of a short integer by a power of two is a double. -/
theorem denotes_ofInt_div_powerOfTwo (hvalue : value.natAbs ≤ twoPow 53) (hpos : 0 ≤ shift)
    (hle : shift ≤ 1022) :
    (ofInt value / powerOfTwo shift).Denotes (decide (value < 0))
      (|(value : ℚ)| * 2 ^ (-shift)) := by
  have hint := denotes_ofInt hvalue
  have hmagnitude : IsMagnitude (|(value : ℚ)| * 2 ^ (-shift)) := by
    rw [abs_cast_eq] at hint ⊢
    exact hint.isMagnitude.natCast_mul_zpow (by omega) (by omega)
  rw [zpow_neg, ← div_eq_mul_inv] at hmagnitude ⊢
  have hquotient := hint.div (denotes_powerOfTwo (by omega) (by omega)) (zpow_two_ne_zero shift)
    hmagnitude
  rwa [Bool.bne_false] at hquotient

/-- **A shift to the right is a division of doubles**, rounded, on integers that doubles hold: the
rounded quotient has the value of the shifted integer, and is converted to it. -/
theorem roundEven_div_eq_shiftHalfEven (hvalue : value.natAbs ≤ twoPow 53) (hpos : 0 < shift)
    (hle : shift ≤ 62) :
    (ofInt value / powerOfTwo shift).roundEven.isFinite = true ∧
      (ofInt value / powerOfTwo shift).roundEven.toRat = shiftHalfEven value shift ∧
      (ofInt value / powerOfTwo shift).roundEven.toInt64 = shiftHalfEven value shift := by
  have hquotient := denotes_ofInt_div_powerOfTwo hvalue hpos.le (by omega)
  have hround : roundHalfEven (ofInt value / powerOfTwo shift).toRat
      = shiftHalfEven value shift := by
    rw [hquotient.toRat_of_sign, zpow_neg, ← div_eq_mul_inv, shiftHalfEven_of_le value hpos hle]
  refine ⟨hquotient.roundEven.isFinite, ?_, ?_⟩
  · rw [toRat_roundEven hquotient.isFinite, hround]
  · rw [toInt64, toInt_roundEven hquotient.isFinite, hround, shiftHalfEven_of_le value hpos hle]
    exact ((fits64_of_natAbs_le hvalue).roundHalfEven_div
      (one_le_zpow₀ one_le_two hpos.le)).saturate64_eq

/-! ### The whole domain -/

/-- **Shifting is exact** on all 64-bit integers and for all shifts, unless 63 places are taken from
an integer beyond `2 ^ 62`, and only then: the result is the product with the power of two, rounded
half to even and saturated.  Where doubles hold the integer it is also what their division gives. -/
theorem shiftHalfEven_exact (h : Fits64 value) (shift : ℤ) :
    (shiftHalfEven value shift = saturate64 (roundHalfEven (value * 2 ^ (-shift))) ↔
      (shift = 63 → value.natAbs ≤ twoPow 62)) ∧
    (0 < shift → shift ≤ 62 → value.natAbs ≤ twoPow 53 →
      (ofInt value / powerOfTwo shift).roundEven.isFinite = true ∧
      (ofInt value / powerOfTwo shift).roundEven.toRat = shiftHalfEven value shift ∧
      (ofInt value / powerOfTwo shift).roundEven.toInt64 = shiftHalfEven value shift) := by
  constructor
  · rw [zpow_neg, ← div_eq_mul_inv]
    exact shiftHalfEven_eq_iff h
  · intro hpos hle hvalue
    exact roundEven_div_eq_shiftHalfEven hvalue hpos hle

/-- The half of an odd integer of 53 bits is a tie, which goes to the even neighbour below. -/
theorem shiftHalfEven_exact_tie :
    let value : ℤ := -(twoPow 53 - 3)
    Fits64 value ∧ ((1 : ℤ) = 63 → value.natAbs ≤ twoPow 62) ∧ value.natAbs ≤ twoPow 53 ∧
      shiftHalfEven value 1 = -4503599627370494 ∧
      shiftHalfEven value 1 = saturate64 (roundHalfEven (value * 2 ^ (-1 : ℤ))) ∧
      (ofInt value / powerOfTwo 1).roundEven.toInt64 = shiftHalfEven value 1 := by
  intro value
  have hfits : Fits64 value := by decide
  have hnear : (1 : ℤ) = 63 → value.natAbs ≤ twoPow 62 := by decide
  have hshort : value.natAbs ≤ twoPow 53 := by decide
  obtain ⟨hexact, hdouble⟩ := shiftHalfEven_exact hfits 1
  exact ⟨hfits, hnear, hshort, by decide, hexact.mpr hnear,
    (hdouble (by decide) (by decide) hshort).2.2⟩

/-- The least 64-bit integer is minus one times `2 ^ 63`, but nothing is left of it after 63
places. -/
theorem shiftHalfEven_ne_least :
    Fits64 (signedMin 64) ∧ shiftHalfEven (signedMin 64) 63 = 0 ∧
      saturate64 (roundHalfEven (signedMin 64 * 2 ^ (-63 : ℤ))) = -1 := by
  decide +kernel

end DyadicNet
