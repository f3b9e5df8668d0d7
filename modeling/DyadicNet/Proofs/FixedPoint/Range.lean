import Mathlib
import DyadicNet.FixedPoint.Codec
import DyadicNet.Proofs.Binary64.Arithmetic

/-!
# The range of a fixed-point format

A format stands for the integers of a range, counted in last bits.  The bounds of a format are
computed in doubles; here they are shown to be the two ends of the range, **exactly, at every
width**, and `Format.nearest` says which integer of the range a double is nearest to.

## Main Definitions

* `Format.least`, `Format.greatest` — the range of integers;
* `Format.step` — the weight of the last bit as a rational;
* `Format.nearest` — the integer of the range nearest to a double.

## Main Statements

* `Format.denotes_minValue`, `Format.denotes_maxValue` — the bounds are the ends of the range;
* `Format.nearest_mono` — a larger double has no smaller nearest integer.
-/

namespace DyadicNet.FixedPoint.Format

open Binary64

variable (format : Format)

/-! ### Formats of a width -/

/-- A width can be split with any number of bits before the point, from one bit on. -/
theorem exists_ofTotalBits? {totalBits intBits : ℕ} (hpos : 1 ≤ intBits) (hle : intBits ≤ totalBits)
    (hwidth : totalBits ≤ 32) : ∃ format, ofTotalBits? totalBits intBits = .ok format := by
  unfold ofTotalBits? make? maxTotalBits
  rw [if_neg (by omega), dif_pos (by omega), dif_pos (fun _ => by omega)]
  exact ⟨_, rfl⟩

/-- A format of a width is a signed one, of this width. -/
theorem ofTotalBits?_eq_ok {totalBits intBits : ℕ} {format : Format}
    (h : ofTotalBits? totalBits intBits = .ok format) :
    format.signed = true ∧ format.totalBits = totalBits := by
  unfold ofTotalBits? make? at h
  split_ifs at h
  obtain rfl := Except.ok.inj h
  refine ⟨rfl, ?_⟩
  show intBits + (totalBits - intBits) = totalBits
  omega

/-! ### The range -/

/-- The least integer that a codeword stands for. -/
def least : ℤ :=
  if format.signed then -(twoPow (format.totalBits - 1) : ℤ) else 0

/-- The greatest integer that a codeword stands for. -/
def greatest : ℤ :=
  if format.signed then (twoPow (format.totalBits - 1) : ℤ) - 1
  else (twoPow format.totalBits : ℤ) - 1

/-- The weight of the last bit. -/
def step : ℚ :=
  2 ^ (-(format.fracBits : ℤ))

theorem step_pos : 0 < format.step :=
  zpow_two_pos _

/-- Counting in last bits is dividing by the weight of the last bit. -/
theorem mul_units_eq (q : ℚ) : q * 2 ^ (format.fracBits : ℤ) = q / format.step := by
  rw [step, zpow_neg, div_inv_eq_mul]

theorem le_mul_units_iff {n : ℤ} {q : ℚ} :
    (n : ℚ) ≤ q * 2 ^ (format.fracBits : ℤ) ↔ n * format.step ≤ q := by
  rw [mul_units_eq, le_div_iff₀ format.step_pos]

theorem mul_units_le_iff {n : ℤ} {q : ℚ} :
    q * 2 ^ (format.fracBits : ℤ) ≤ n ↔ q ≤ n * format.step := by
  rw [mul_units_eq, div_le_iff₀ format.step_pos]

theorem totalBits_pos : 0 < format.totalBits :=
  format.width_pos

theorem totalBits_le : format.totalBits ≤ 32 :=
  format.width_le

theorem fracBits_le : format.fracBits ≤ 32 := by
  have : format.intBits + format.fracBits ≤ 32 := format.width_le
  omega

theorem intBits_le : format.intBits ≤ 32 := by
  have : format.intBits + format.fracBits ≤ 32 := format.width_le
  omega

/-- The highest bit weighs half of the width. -/
theorem twoPow_totalBits : twoPow format.totalBits = 2 * twoPow (format.totalBits - 1) := by
  rw [← twoPow_succ, Nat.sub_add_cancel format.totalBits_pos]

/-- The range has one integer for each codeword. -/
theorem greatest_sub_least : format.greatest - format.least = twoPow format.totalBits - 1 := by
  have hdouble := format.twoPow_totalBits
  unfold greatest least
  split_ifs <;> omega

theorem least_of_signed (h : format.signed = true) : format.least = signedMin format.totalBits :=
  if_pos h

theorem greatest_of_signed (h : format.signed = true) :
    format.greatest = signedMax format.totalBits :=
  if_pos h

theorem least_nonpos : format.least ≤ 0 := by
  unfold least
  split_ifs <;> omega

theorem greatest_nonneg : 0 ≤ format.greatest := by
  have h₁ := twoPow_pos (format.totalBits - 1)
  have h₂ := twoPow_pos format.totalBits
  unfold greatest
  split_ifs <;> omega

theorem least_le_greatest : format.least ≤ format.greatest :=
  format.least_nonpos.trans format.greatest_nonneg

theorem least_mul_step_le : format.least * format.step ≤ format.greatest * format.step :=
  mul_le_mul_of_nonneg_right (by exact_mod_cast format.least_le_greatest) format.step_pos.le

theorem neg_least_le : -format.least ≤ twoPow 32 := by
  have h : twoPow (format.totalBits - 1) ≤ twoPow 32 :=
    twoPow_le_twoPow (by have := format.totalBits_le; omega)
  unfold least
  split_ifs <;> omega

theorem greatest_lt : format.greatest < twoPow 32 := by
  have h₁ : twoPow (format.totalBits - 1) ≤ twoPow 32 :=
    twoPow_le_twoPow (by have := format.totalBits_le; omega)
  have h₂ : twoPow format.totalBits ≤ twoPow 32 := twoPow_le_twoPow format.totalBits_le
  unfold greatest
  split_ifs <;> omega

/-! ### The bounds as doubles -/

theorem denotes_lsb : format.lsb.Denotes false format.step :=
  denotes_powerOfTwo (by have := format.fracBits_le; omega) (by omega)

theorem denotes_unitsPerOne : format.unitsPerOne.Denotes false (2 ^ (format.fracBits : ℤ)) :=
  denotes_powerOfTwo (by omega) (by have := format.fracBits_le; omega)

/-- A power of two less one unit is the number whose bits are all ones. -/
theorem denotes_powerOfTwo_sub_lsb {n : ℕ} (hn : n ≤ 32) :
    (powerOfTwo (n - format.fracBits) - format.lsb).Denotes false
      (((twoPow n : ℤ) - 1 : ℤ) * format.step) := by
  have hf := format.fracBits_le
  have hpow : (powerOfTwo (n - format.fracBits)).Denotes false (2 ^ ((n : ℤ) - format.fracBits)) :=
    denotes_powerOfTwo (by omega) (by omega)
  have hval : (2 : ℚ) ^ ((n : ℤ) - format.fracBits) - format.step
      = (((twoPow n : ℤ) - 1 : ℤ) : ℚ) * format.step := by
    push_cast
    rw [cast_twoPow, step, sub_mul, one_mul, ← zpow_two_add, ← sub_eq_add_neg]
  have hle : format.step ≤ 2 ^ ((n : ℤ) - format.fracBits) :=
    zpow_le_zpow_right₀ one_le_two (by omega)
  rw [← hval]
  refine hpow.sub format.denotes_lsb hle ?_
  have hnat : (((twoPow n : ℤ) - 1 : ℤ) : ℚ) = ((twoPow n - 1 : ℕ) : ℚ) := by
    rw [Nat.cast_sub (twoPow_pos n)]
    push_cast
    rfl
  have hbits : twoPow n - 1 < twoPow 53 := by
    have := twoPow_le_twoPow (by omega : n ≤ 53)
    have := twoPow_pos n
    omega
  have hsmall : (2 : ℚ) ^ ((n : ℤ) - format.fracBits) < 2 ^ (1024 : ℤ) :=
    zpow_lt_zpow_right₀ one_lt_two (by omega)
  rw [hval, hnat]
  refine isMagnitude_mul_zpow hbits (by omega) ?_
  rw [← hnat]
  have := format.step_pos
  rw [step] at hval this
  linarith

/-- The largest value of a format is the greatest integer of its range. -/
theorem denotes_maxValue : format.maxValue.Denotes false (format.greatest * format.step) := by
  have hw := format.totalBits_le
  unfold maxValue greatest
  split_ifs with hs
  · have hint := format.sign_bit hs
    have := format.denotes_powerOfTwo_sub_lsb (n := format.totalBits - 1) (by omega)
    rwa [show ((format.totalBits - 1 : ℕ) : ℤ) - format.fracBits = (format.intBits : ℤ) - 1 by
      unfold totalBits; omega] at this
  · have := format.denotes_powerOfTwo_sub_lsb hw
    rwa [show (format.totalBits : ℤ) - format.fracBits = format.intBits by
      unfold totalBits; omega] at this

/-- The smallest value of a format is the least integer of its range. -/
theorem denotes_minValue :
    format.minValue.Denotes format.signed ((-format.least : ℤ) * format.step) := by
  have hi := format.intBits_le
  unfold minValue least
  split_ifs with hs
  · have hint := format.sign_bit hs
    have := (denotes_powerOfTwo (e := format.intBits - 1) (by omega) (by omega)).neg
    rw [hs, neg_neg, Int.cast_natCast, cast_twoPow, step, ← zpow_two_add]
    rwa [show ((format.totalBits - 1 : ℕ) : ℤ) + -(format.fracBits : ℤ) = (format.intBits : ℤ) - 1 by
      unfold totalBits; omega]
  · rw [Bool.eq_false_iff.mpr hs]
    simpa using denotes_zero false

theorem toRat_maxValue : format.maxValue.toRat = format.greatest * format.step :=
  format.denotes_maxValue.toRat_pos

theorem toRat_minValue : format.minValue.toRat = format.least * format.step := by
  rw [format.denotes_minValue.toRat_eq]
  split_ifs with hs
  · push_cast
    ring
  · simp [least, hs]

/-! ### The nearest integer of the range -/

/-- The integer of the range nearest to a double: its exact value counted in last bits, rounded half
to even, and kept between the bounds.  An infinity is nearest to the bound on its side. -/
def nearest : Binary64 → ℤ
  | .nan => 0
  | .infinity negative => if negative then format.least else format.greatest
  | .finite negative m e h =>
    clampInt format.least format.greatest
      (roundHalfEven ((Binary64.finite negative m e h).toRat * 2 ^ (format.fracBits : ℤ)))

theorem nearest_of_isFinite {x : Binary64} (h : x.isFinite = true) :
    format.nearest x = clampInt format.least format.greatest
      (roundHalfEven (x.toRat * 2 ^ (format.fracBits : ℤ))) := by
  obtain ⟨negative, m, e, hc, rfl⟩ := exists_finite h
  rfl

theorem nearest_of_signed (hsigned : format.signed = true) {x : Binary64} (h : x.isFinite = true) :
    format.nearest x = clampInt (signedMin format.totalBits) (signedMax format.totalBits)
      (roundHalfEven (x.toRat * 2 ^ (format.fracBits : ℤ))) := by
  rw [format.nearest_of_isFinite h, format.least_of_signed hsigned,
    format.greatest_of_signed hsigned]

theorem least_le_nearest (x : Binary64) : format.least ≤ format.nearest x := by
  cases x with
  | nan => exact format.least_nonpos
  | infinity negative => cases negative <;> simp [nearest, format.least_le_greatest]
  | finite => exact le_clampInt _ _ _

theorem nearest_le_greatest (x : Binary64) : format.nearest x ≤ format.greatest := by
  cases x with
  | nan => exact format.greatest_nonneg
  | infinity negative => cases negative <;> simp [nearest, format.least_le_greatest]
  | finite => exact clampInt_le format.least_le_greatest _

/-- A double that is not above another one has a nearest integer that is not above the other's. -/
theorem nearest_mono {x y : Binary64} (h : x.le y = true) : format.nearest x ≤ format.nearest y := by
  have hlow := format.least_le_nearest y
  have hhigh := format.nearest_le_greatest x
  cases x with
  | nan => simp [Binary64.le, Binary64.lt, compare?] at h
  | infinity negative =>
    cases negative with
    | true => exact hlow
    | false =>
      cases y with
      | nan => simp [Binary64.le, Binary64.lt, compare?] at h
      | infinity negative => cases negative <;> simp_all [Binary64.le, Binary64.lt, compare?]
      | finite => simp [Binary64.le, Binary64.lt, compare?] at h
  | finite negative m e hc =>
    cases y with
    | nan => simp [Binary64.le, Binary64.lt, compare?] at h
    | infinity negative =>
      cases negative with
      | true => simp [Binary64.le, Binary64.lt, compare?] at h
      | false => exact hhigh
    | finite negative' m' e' hc' =>
      have hle := ((denotes_finite negative hc).le_iff (denotes_finite negative' hc')).mp h
      exact clampInt_mono (roundHalfEven_mono
        (mul_le_mul_of_nonneg_right hle (zpow_two_pos _).le))

end DyadicNet.FixedPoint.Format
