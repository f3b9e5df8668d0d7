import Mathlib
import DyadicNet.Proofs.Binary64.Zero

/-!
# Differences

A difference is rounded, and yet it tells equal numbers from different ones: **it is zero only if
the numbers are equal.**  All finite doubles are whole multiples of the least positive one, so two
that differ are at least so far apart, and nothing that large is rounded to zero.

The sign of a difference is lost when its magnitude is taken, and then the order of the two numbers
does not matter any more; rounding treats both signs alike.

## Main Statements

* `sub_eq_ofRat`, `distance_comm` — the rounded difference and its magnitude;
* `isZero_sub_iff`, `abs_le_zero_iff` — differences of zero.
-/

namespace DyadicNet.Binary64

variable {x y : Binary64} {q : ℚ}

/-! ### Signs -/

/-- Rounding treats both signs alike. -/
theorem neg_ofMagnitude (negative : Bool) (q : ℚ) :
    -ofMagnitude negative q = ofMagnitude (!negative) q := by
  unfold ofMagnitude
  dsimp only
  split_ifs <;> rfl

theorem neg_ofRat (h : q ≠ 0) : -ofRat q = ofRat (-q) := by
  unfold ofRat
  rcases lt_or_gt_of_ne h with hneg | hpos
  · rw [if_pos hneg, if_neg (by linarith), neg_ofMagnitude, Bool.not_true]
  · rw [if_neg hpos.not_gt, if_pos (by linarith), neg_ofMagnitude, neg_neg, Bool.not_false]

theorem abs_opposite (x : Binary64) : (-x).abs = x.abs := by
  cases x <;> rfl

theorem toRat_opposite (h : x.isFinite = true) : (-x).toRat = -x.toRat := by
  rw [(denotes_self h).neg.toRat_eq, (denotes_self h).toRat_eq]
  cases x.isNegative <;> simp

/-- A rational that a double holds is not rounded. -/
theorem toRat_ofRat (h : IsMagnitude |q|) : (ofRat q).toRat = q := by
  rw [(denotes_ofRat h).toRat_eq]
  by_cases hneg : q < 0
  · rw [if_pos (decide_eq_true hneg), abs_of_neg hneg, neg_neg]
  · rw [if_neg (by simpa using hneg), abs_of_nonneg (not_lt.mp hneg)]

/-! ### The rounded difference -/

/-- The difference of finite numbers is the nearest double to the exact one, and zero if they are
equal. -/
theorem sub_eq_ofRat (hx : x.isFinite = true) (hy : y.isFinite = true) :
    x - y = if x.toRat = y.toRat then zero (x.isNegative && !y.isNegative)
      else ofRat (x.toRat - y.toRat) := by
  have hsum : x.toRat + y.neg.toRat = x.toRat - y.toRat := by
    rw [show y.neg.toRat = -y.toRat from toRat_opposite hy, sub_eq_add_neg]
  obtain ⟨s, m, e, hc, rfl⟩ := exists_finite hx
  obtain ⟨t, n, d, hd, rfl⟩ := exists_finite hy
  show (if _ then _ else _) = _
  rw [hsum]
  simp only [sub_eq_zero]
  rfl

/-- Whichever number is taken from the other one, the magnitude is the same. -/
theorem distance_comm (x y : Binary64) : (x - y).abs = (y - x).abs := by
  cases x with
  | nan => cases y <;> rfl
  | infinity s =>
    cases y with
    | nan => rfl
    | infinity t => cases s <;> cases t <;> rfl
    | finite t n d hd => rfl
  | finite s m e hc =>
    cases y with
    | nan => rfl
    | infinity t => rfl
    | finite t n d hd =>
      rw [sub_eq_ofRat rfl rfl, sub_eq_ofRat rfl rfl]
      by_cases heq : toRat (.finite s m e hc) = toRat (.finite t n d hd)
      · rw [if_pos heq, if_pos heq.symm]
        rfl
      · rw [if_neg heq, if_neg (Ne.symm heq), ← neg_sub, ← neg_ofRat (sub_ne_zero.mpr (Ne.symm heq)),
          abs_opposite]

/-! ### Differences of zero -/

/-- Finite numbers are whole multiples of the least positive double. -/
theorem exists_toRat_eq (h : x.isFinite = true) : ∃ k : ℤ, x.toRat = k * 2 ^ (-1074 : ℤ) := by
  obtain ⟨s, m, e, hc, rfl⟩ := exists_finite h
  have hplaces : (m : ℚ) * 2 ^ e = ((m * twoPow (e + 1074).toNat : ℕ) : ℤ) * 2 ^ (-1074 : ℤ) := by
    have hleast := hc.2.1
    rw [Int.cast_natCast, Nat.cast_mul, cast_twoPow, Int.toNat_of_nonneg (by omega), mul_assoc,
      ← zpow_two_add, add_assoc, add_neg_cancel, add_zero]
  have hvalue := denotes_finite s hc
  cases s with
  | false => exact ⟨_, hvalue.toRat_pos.trans hplaces⟩
  | true =>
    refine ⟨-(m * twoPow (e + 1074).toNat : ℕ), ?_⟩
    rw [hvalue.toRat_eq, if_pos rfl, hplaces, Int.cast_neg, neg_mul]

/-- Different finite numbers are at least the least positive double apart. -/
theorem le_abs_toRat_sub (hx : x.isFinite = true) (hy : y.isFinite = true)
    (h : x.toRat ≠ y.toRat) : 2 ^ (-1074 : ℤ) ≤ |x.toRat - y.toRat| := by
  obtain ⟨j, hj⟩ := exists_toRat_eq hx
  obtain ⟨k, hk⟩ := exists_toRat_eq hy
  have hunit := zpow_two_pos (-1074)
  have hne : j - k ≠ 0 := by
    intro heq
    rw [hj, hk, sub_eq_zero.mp heq] at h
    exact h rfl
  rw [hj, hk, ← sub_mul, abs_mul, abs_of_pos hunit]
  exact le_mul_of_one_le_left hunit.le (by exact_mod_cast Int.one_le_abs hne)

theorem isZero_neg_iff : (-x).IsZero ↔ x.IsZero := by
  rw [isZero_iff, isZero_iff]
  constructor
  · rintro ⟨s, hs⟩
    refine ⟨!s, ?_⟩
    cases x with
    | nan => cases hs
    | infinity t => cases hs
    | finite t m e hc =>
      cases hs
      exact congrArg zero (Bool.not_not t).symm
  · rintro ⟨s, rfl⟩
    exact ⟨!s, rfl⟩

/-- What is at least as large as the least positive double is not rounded to zero. -/
theorem not_isZero_ofRat (h : 2 ^ (-1074 : ℤ) ≤ |q|) : ¬(ofRat q).IsZero := by
  have hpositive : ∀ r : ℚ, 2 ^ (-1074 : ℤ) ≤ r → ¬(ofMagnitude false r).IsZero := by
    intro r hr hzero
    obtain ⟨s, hs⟩ := isZero_iff.mp hzero
    have hlt := zero_lt_ofMagnitude hr
    rw [hs] at hlt
    cases s <;> revert hlt <;> decide +kernel
  unfold ofRat
  split_ifs with hneg
  · rw [← Bool.not_false, ← neg_ofMagnitude, isZero_neg_iff]
    exact hpositive _ (h.trans_eq (abs_of_neg hneg))
  · exact hpositive _ (h.trans_eq (abs_of_nonneg (not_lt.mp hneg)))

/-- **A difference is zero only for equal numbers**: where the exact difference is too small for 53
bits, it is a double nevertheless. -/
theorem isZero_sub_iff (hx : x.isFinite = true) (hy : y.isFinite = true) :
    (x - y).IsZero ↔ x.toRat = y.toRat := by
  rw [sub_eq_ofRat hx hy]
  split_ifs with heq
  · exact ⟨fun _ => heq, fun _ => isZero_zero _⟩
  · exact ⟨fun hzero => absurd hzero (not_isZero_ofRat (le_abs_toRat_sub hx hy heq)),
      fun h => absurd h heq⟩

/-- Only zeros have a magnitude of zero at most. -/
theorem abs_le_zero_iff : x.abs.le (zero false) = true ↔ x.IsZero := by
  cases x with
  | nan => exact ⟨nofun, nofun⟩
  | infinity s => exact ⟨nofun, by cases s <;> exact nofun⟩
  | finite s m e hc =>
    have hvalue := denotes_finite s hc
    rw [hvalue.abs.le_iff (denotes_zero false), hvalue.abs.toRat_pos, (denotes_zero false).toRat_pos,
      IsZero, hvalue.eq_iff (denotes_zero false), (denotes_zero false).toRat_pos, ← abs_eq_zero,
      hvalue.abs_toRat]
    exact ⟨fun hle => hle.antisymm hvalue.nonneg, fun heq => heq.le⟩

end DyadicNet.Binary64
