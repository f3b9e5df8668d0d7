import Mathlib
import DyadicNet.Rounding

/-!
# The rounding rule

`roundHalfEven` is computed by cases on a fractional part.  Statements about it do not repeat these
cases: they go through `IsNearestEven`, which says what the rule is, and through the fact that a
number has **only one** nearest integer in this sense.

## Main Definitions

* `IsNearestEven` — the rule as a relation between a rational and an integer.

## Main Statements

* `roundHalfEven_spec`, `IsNearestEven.roundHalfEven_eq` — the function computes the relation;
* `roundHalfEven_mono`, `roundHalfEven_neg`, `roundHalfEven_intCast` — order, sign and integers;
* `shiftHalfEven_of_nonpos`, `shiftHalfEven_of_le` — shifts to the left and to the right;
* `clampInt_shiftHalfEven` — a shift is a rounded division by a power of two, up to a clamp.
-/

namespace DyadicNet

/-! ### Powers of two -/

theorem twoPow_eq (n : ℕ) : twoPow n = 2 ^ n := rfl

/-- The powers of this library as powers of the field. -/
theorem cast_twoPow (n : ℕ) : ((twoPow n : ℕ) : ℚ) = 2 ^ (n : ℤ) := by
  rw [twoPow_eq]
  push_cast
  exact (zpow_natCast 2 n).symm

theorem zpow_two_pos (e : ℤ) : (0 : ℚ) < 2 ^ e :=
  zpow_pos (by norm_num) e

theorem zpow_two_ne_zero (e : ℤ) : (2 : ℚ) ^ e ≠ 0 :=
  (zpow_two_pos e).ne'

theorem zpow_two_add (d e : ℤ) : (2 : ℚ) ^ (d + e) = 2 ^ d * 2 ^ e :=
  zpow_add₀ two_ne_zero d e

theorem zpow_two_sub (d e : ℤ) : (2 : ℚ) ^ (d - e) = 2 ^ d / 2 ^ e :=
  zpow_sub₀ two_ne_zero d e

theorem twoPow_add (m n : ℕ) : twoPow (m + n) = twoPow m * twoPow n := by
  simp only [twoPow_eq, pow_add]

theorem twoPow_le_twoPow {m n : ℕ} (h : m ≤ n) : twoPow m ≤ twoPow n :=
  Nat.pow_le_pow_right (by decide) h

/-- The magnitude of an integer, as a rational number. -/
theorem abs_cast_eq (v : ℤ) : |(v : ℚ)| = (v.natAbs : ℕ) := by
  rw [Nat.cast_natAbs, Int.cast_abs]

/-! ### The nearest integer -/

/-- `n` is an integer nearest to `q`, and the even one if there are two. -/
structure IsNearestEven (q : ℚ) (n : ℤ) : Prop where
  near : |q - n| ≤ 1 / 2
  even : |q - n| = 1 / 2 → n % 2 = 0

namespace IsNearestEven

variable {q : ℚ} {m n : ℤ}

/-- Two nearest integers are next to each other, and only one of them can be even. -/
theorem le_of_le {r : ℚ} (hq : IsNearestEven q m) (hr : IsNearestEven r n) (h : q ≤ r) :
    m ≤ n := by
  by_contra hlt
  have hstep : (n : ℚ) + 1 ≤ m := by exact_mod_cast (by omega : n + 1 ≤ m)
  have hqm := abs_le.mp hq.near
  have hrn := abs_le.mp hr.near
  -- the two distances add up to at most the distance of the integers, so both are one half
  have hm : q - m = -(1 / 2) := by linarith
  have hn : r - n = 1 / 2 := by linarith
  have hnext : m = n + 1 := by
    have : (m : ℚ) = n + 1 := by linarith
    exact_mod_cast this
  have hme := hq.even (by rw [hm]; norm_num)
  have hne := hr.even (by rw [hn]; norm_num)
  omega

theorem unique (hm : IsNearestEven q m) (hn : IsNearestEven q n) : m = n :=
  le_antisymm (hm.le_of_le hn le_rfl) (hn.le_of_le hm le_rfl)

theorem neg (h : IsNearestEven q n) : IsNearestEven (-q) (-n) := by
  have hdist : |-q - ((-n : ℤ) : ℚ)| = |q - n| := by
    rw [← abs_neg]
    push_cast
    congr 1
    ring
  refine ⟨hdist ▸ h.near, fun htie => ?_⟩
  have := h.even (hdist ▸ htie)
  omega

theorem intCast (n : ℤ) : IsNearestEven n n :=
  ⟨by simp, fun h => by norm_num at h⟩

end IsNearestEven

/-- The function computes the rule. -/
theorem roundHalfEven_spec (q : ℚ) : IsNearestEven q (roundHalfEven q) := by
  have hle : ((q.floor : ℤ) : ℚ) ≤ q := Int.floor_le q
  have hlt : q < ((q.floor : ℤ) : ℚ) + 1 := Int.lt_floor_add_one q
  have hsucc : (((q.floor + 1 : ℤ) : ℚ)) = (q.floor : ℤ) + 1 := by push_cast; rfl
  unfold roundHalfEven
  dsimp only
  split_ifs with hlow hhigh heven
  · refine ⟨abs_le.mpr ⟨by linarith, by linarith⟩, fun htie => ?_⟩
    rw [abs_of_nonneg (by linarith)] at htie
    linarith
  · refine ⟨abs_le.mpr ⟨by linarith, by linarith⟩, fun htie => ?_⟩
    rw [abs_of_neg (by linarith)] at htie
    linarith
  · exact ⟨abs_le.mpr ⟨by linarith, by linarith⟩, fun _ => heven⟩
  · refine ⟨abs_le.mpr ⟨by linarith, by linarith⟩, fun _ => ?_⟩
    omega

theorem IsNearestEven.roundHalfEven_eq {q : ℚ} {n : ℤ} (h : IsNearestEven q n) :
    roundHalfEven q = n :=
  (roundHalfEven_spec q).unique h

theorem roundHalfEven_mono {q r : ℚ} (h : q ≤ r) : roundHalfEven q ≤ roundHalfEven r :=
  (roundHalfEven_spec q).le_of_le (roundHalfEven_spec r) h

theorem roundHalfEven_neg (q : ℚ) : roundHalfEven (-q) = -roundHalfEven q :=
  (roundHalfEven_spec q).neg.roundHalfEven_eq

@[simp] theorem roundHalfEven_intCast (n : ℤ) : roundHalfEven n = n :=
  (IsNearestEven.intCast n).roundHalfEven_eq

@[simp] theorem roundHalfEven_zero : roundHalfEven 0 = 0 := by
  simpa using roundHalfEven_intCast 0

theorem le_roundHalfEven {n : ℤ} {q : ℚ} (h : (n : ℚ) ≤ q) : n ≤ roundHalfEven q := by
  simpa using roundHalfEven_mono h

theorem roundHalfEven_le {n : ℤ} {q : ℚ} (h : q ≤ n) : roundHalfEven q ≤ n := by
  simpa using roundHalfEven_mono h

theorem roundHalfEven_nonneg {q : ℚ} (h : 0 ≤ q) : 0 ≤ roundHalfEven q :=
  le_roundHalfEven (by simpa using h)

/-- Just the numbers up to one half are rounded to zero. -/
theorem roundHalfEven_eq_zero_iff {q : ℚ} : roundHalfEven q = 0 ↔ |q| ≤ 1 / 2 := by
  constructor
  · intro h
    have hnear := (roundHalfEven_spec q).near
    rwa [h, Int.cast_zero, sub_zero] at hnear
  · intro h
    refine IsNearestEven.roundHalfEven_eq ⟨?_, fun _ => rfl⟩
    rwa [Int.cast_zero, sub_zero]

/-- What is nearer to a number than every midpoint between two integers is rounded as the number
is. -/
theorem roundHalfEven_eq_of_near {q r : ℚ} (h : ∀ k : ℤ, |r - q| < |q - (k + 1 / 2)|) :
    roundHalfEven r = roundHalfEven q := by
  have hnear := abs_le.mp (roundHalfEven_spec q).near
  have habove := h (roundHalfEven q)
  have hbelow := h (roundHalfEven q - 1)
  rw [abs_of_nonpos (show q - (roundHalfEven q + 1 / 2) ≤ 0 by linarith)] at habove
  rw [Int.cast_sub, Int.cast_one,
    abs_of_nonneg (show 0 ≤ q - (roundHalfEven q - 1 + 1 / 2) by linarith)] at hbelow
  have hmoved := abs_lt.mp habove
  have hmoved' := abs_lt.mp hbelow
  have hstrict : |r - roundHalfEven q| < 1 / 2 := abs_lt.mpr ⟨by linarith, by linarith⟩
  exact IsNearestEven.roundHalfEven_eq ⟨hstrict.le, fun htie => absurd htie hstrict.ne⟩

/-! ### Clamping -/

theorem clampInt_mono {lo hi v w : ℤ} (h : v ≤ w) : clampInt lo hi v ≤ clampInt lo hi w := by
  unfold clampInt
  omega

theorem clampInt_of_le {lo hi v : ℤ} (h : v ≤ lo) : clampInt lo hi v = lo := by
  unfold clampInt
  omega

theorem clampInt_of_ge {lo hi v : ℤ} (hlh : lo ≤ hi) (h : hi ≤ v) : clampInt lo hi v = hi := by
  unfold clampInt
  omega

/-- A clamp to a wider range before a clamp changes nothing. -/
theorem clampInt_clampInt {lo hi lo' hi' : ℤ} (hlh : lo ≤ hi) (hl : lo' ≤ lo) (hh : hi ≤ hi')
    (v : ℤ) : clampInt lo hi (clampInt lo' hi' v) = clampInt lo hi v := by
  unfold clampInt
  omega

/-- Clamping does not lead away from what lies in the range. -/
theorem abs_clampInt_sub_le {lo hi v : ℤ} {q : ℚ} (hlow : (lo : ℚ) ≤ q) (hhigh : q ≤ hi) :
    |(clampInt lo hi v : ℚ) - q| ≤ |(v : ℚ) - q| := by
  have hrange : lo ≤ hi := by exact_mod_cast hlow.trans hhigh
  rcases lt_or_ge v lo with hbelow | hlo
  · have hv : (v : ℚ) ≤ lo := by exact_mod_cast hbelow.le
    rw [clampInt_of_le hbelow.le, abs_of_nonpos (by linarith), abs_of_nonpos (by linarith)]
    linarith
  rcases lt_or_ge hi v with habove | hhi
  · have hv : (hi : ℚ) ≤ v := by exact_mod_cast habove.le
    rw [clampInt_of_ge hrange habove.le, abs_of_nonneg (by linarith), abs_of_nonneg (by linarith)]
    linarith
  · rw [clampInt_eq_self hlo hhi]

/-- Whether an integer is one of 64 bits. -/
def Fits64 (v : ℤ) : Prop :=
  signedMin 64 ≤ v ∧ v ≤ signedMax 64

instance (v : ℤ) : Decidable (Fits64 v) :=
  inferInstanceAs (Decidable (_ ∧ _))

theorem Fits64.saturate64_eq {v : ℤ} (h : Fits64 v) : saturate64 v = v :=
  clampInt_eq_self h.1 h.2

theorem Fits64.natAbs_le {v : ℤ} (h : Fits64 v) : v.natAbs ≤ twoPow 63 := by
  obtain ⟨hlow, hhigh⟩ := h
  have hmin : signedMin 64 = -twoPow 63 := rfl
  have hmax : signedMax 64 = twoPow 63 - 1 := rfl
  omega

/-- An integer of 64 bits is not wrapped. -/
theorem Fits64.wrap64_eq {v : ℤ} (h : Fits64 v) : wrap64 v = v := by
  obtain ⟨hlow, hhigh⟩ := h
  have hmin : signedMin 64 = -9223372036854775808 := by decide
  have hmax : signedMax 64 = 9223372036854775807 := by decide
  have h64 : twoPow 64 = 18446744073709551616 := by decide
  exact Int.bmod_eq_of_le (by omega) (by omega)

/-- A quotient by a number that is not below one stays inside 64 bits. -/
theorem Fits64.div_mem {v : ℤ} {d : ℚ} (h : Fits64 v) (hd : 1 ≤ d) :
    (signedMin 64 : ℚ) ≤ v / d ∧ v / d ≤ (signedMax 64 : ℚ) := by
  have hpos : 0 < d := zero_lt_one.trans_le hd
  have hmin : (signedMin 64 : ℚ) ≤ v := by exact_mod_cast h.1
  have hmax : (v : ℚ) ≤ signedMax 64 := by exact_mod_cast h.2
  have hneg : (signedMin 64 : ℚ) ≤ 0 := by exact_mod_cast (by decide : signedMin 64 ≤ 0)
  have hnonneg : (0 : ℚ) ≤ signedMax 64 := by exact_mod_cast (by decide : 0 ≤ signedMax 64)
  constructor
  · rw [le_div_iff₀ hpos]
    exact (mul_le_of_one_le_right hneg hd).trans hmin
  · rw [div_le_iff₀ hpos]
    exact hmax.trans (le_mul_of_one_le_right hnonneg hd)

/-- So does the integer it is rounded to. -/
theorem Fits64.roundHalfEven_div {v : ℤ} {d : ℚ} (h : Fits64 v) (hd : 1 ≤ d) :
    Fits64 (roundHalfEven (v / d)) :=
  ⟨le_roundHalfEven (h.div_mem hd).1, roundHalfEven_le (h.div_mem hd).2⟩

/-- An integer of 53 bits has 64 bits. -/
theorem fits64_of_natAbs_le {v : ℤ} (h : v.natAbs ≤ twoPow 53) : Fits64 v := by
  have h53 : twoPow 53 = 9007199254740992 := by decide
  have hmin : signedMin 64 = -9223372036854775808 := by decide
  have hmax : signedMax 64 = 9223372036854775807 := by decide
  exact ⟨by omega, by omega⟩

/-! ### Shifts -/

/-- A quotient is judged by the remainder that is left, compared with half of the divisor. -/
theorem isNearestEven_div {v n : ℤ} {unit : ℕ} (hpos : 0 < unit)
    (hnear : 2 * |v - unit * n| ≤ unit) (heven : 2 * |v - unit * n| = unit → n % 2 = 0) :
    IsNearestEven (v / unit) n := by
  have hunit : (0 : ℚ) < unit := by exact_mod_cast hpos
  have hdist : |(v : ℚ) / unit - n| = ((|v - unit * n| : ℤ) : ℚ) / unit := by
    rw [show (v : ℚ) / unit - n = (v - unit * n) / unit by field_simp, abs_div,
      abs_of_pos hunit]
    push_cast
    rfl
  refine ⟨?_, fun htie => ?_⟩
  · rw [hdist, div_le_div_iff₀ hunit two_pos, mul_comm, one_mul]
    exact_mod_cast hnear
  · rw [hdist, div_eq_div_iff hunit.ne' two_ne_zero, mul_comm, one_mul] at htie
    exact heven (by exact_mod_cast htie)

/-- Dividing by a power of two with the remainder in hand is rounding the quotient. -/
theorem divPowHalfEven_eq (value : ℤ) (shift : ℕ) :
    divPowHalfEven value shift = roundHalfEven (value / 2 ^ (shift : ℤ)) := by
  symm
  apply IsNearestEven.roundHalfEven_eq
  rw [← cast_twoPow]
  have hunit : (0 : ℤ) < (twoPow shift : ℕ) := by exact_mod_cast twoPow_pos shift
  have hdiv := Int.mul_ediv_add_emod value (twoPow shift : ℕ)
  have hrem := Int.emod_nonneg value hunit.ne'
  have hrem' := Int.emod_lt_of_pos value hunit
  unfold divPowHalfEven
  dsimp only
  split_ifs with h
  · have hleft : value - (twoPow shift : ℕ) * (value / (twoPow shift : ℕ) + 1)
        = value % (twoPow shift : ℕ) - (twoPow shift : ℕ) := by linarith
    apply isNearestEven_div (twoPow_pos shift) <;> rw [hleft, abs_of_nonpos (by omega)] <;> omega
  · have hleft : value - (twoPow shift : ℕ) * (value / (twoPow shift : ℕ))
        = value % (twoPow shift : ℕ) := by linarith
    apply isNearestEven_div (twoPow_pos shift) <;> rw [hleft, abs_of_nonneg hrem] <;> omega

/-- Beyond 62 places a shift to the left leaves nothing but zero inside the range. -/
theorem saturate64_mul_twoPow {value : ℤ} {places : ℕ} (hvalue : value ≠ 0)
    (hplaces : 63 ≤ places) :
    saturate64 (value * twoPow places) = if 0 < value then signedMax 64 else signedMin 64 := by
  have hmin : signedMin 64 = -twoPow 63 := rfl
  have hmax : signedMax 64 = twoPow 63 - 1 := rfl
  have hpositive : ∀ v : ℤ, 0 < v → (twoPow 63 : ℤ) ≤ v * twoPow places := fun v hv =>
    calc (twoPow 63 : ℤ) ≤ twoPow places := by exact_mod_cast twoPow_le_twoPow hplaces
      _ ≤ v * twoPow places := le_mul_of_one_le_left (Int.natCast_nonneg _) hv
  split_ifs with hsign
  · have hlarge := hpositive value hsign
    exact clampInt_of_ge (by decide) (by omega)
  · have hlarge := hpositive (-value) (by omega)
    rw [Int.neg_mul] at hlarge
    exact clampInt_of_le (by omega)

/-- A shift to the left multiplies and saturates, however far it goes. -/
theorem shiftHalfEven_of_nonpos (value : ℤ) {shift : ℤ} (h : shift ≤ 0) :
    shiftHalfEven value shift = saturate64 (value * twoPow (-shift).toNat) := by
  unfold shiftHalfEven
  rw [if_pos h]
  split_ifs with hzero hfar hsign
  · rw [hzero, zero_mul]
    decide
  · rw [saturate64_mul_twoPow hzero (by omega), if_pos hsign]
  · rw [saturate64_mul_twoPow hzero (by omega), if_neg hsign]
  · rfl

/-- A shift to the right by up to 62 places is a rounded division. -/
theorem shiftHalfEven_of_le (value : ℤ) {shift : ℤ} (hpos : 0 < shift) (hle : shift ≤ 62) :
    shiftHalfEven value shift = roundHalfEven (value / 2 ^ shift) := by
  unfold shiftHalfEven
  rw [if_neg (by omega), if_neg (by omega), divPowHalfEven_eq, Int.toNat_of_nonneg hpos.le]

/-- Counting in units of a power of two that is not above one is multiplying. -/
theorem div_zpow_of_nonpos (value : ℤ) {shift : ℤ} (h : shift ≤ 0) :
    (value : ℚ) / 2 ^ shift = ((value * twoPow (-shift).toNat : ℤ) : ℚ) := by
  push_cast
  rw [cast_twoPow, Int.toNat_of_nonneg (by omega), zpow_neg, div_eq_mul_inv]

/-- A shift to the left that stays inside 64 bits is a multiplication. -/
theorem shiftHalfEven_neg {value : ℤ} {shift : ℕ} (h : Fits64 (value * twoPow shift)) :
    shiftHalfEven value (-(shift : ℤ)) = value * twoPow shift := by
  rw [shiftHalfEven_of_nonpos value (by omega), neg_neg, Int.toNat_natCast, h.saturate64_eq]

/-- A shift in either direction is a division by a power of two, rounded, as long as the result is
clamped to a range inside that of 64 bits. -/
theorem clampInt_shiftHalfEven {lo hi : ℤ} (hlh : lo ≤ hi) (hlo : signedMin 64 ≤ lo)
    (hhi : hi ≤ signedMax 64) (value : ℤ) {shift : ℤ} (hshift : shift.natAbs ≤ 62) :
    clampInt lo hi (shiftHalfEven value shift)
      = clampInt lo hi (roundHalfEven (value / 2 ^ shift)) := by
  rcases le_or_gt shift 0 with hleft | hright
  · rw [shiftHalfEven_of_nonpos value hleft, div_zpow_of_nonpos value hleft, roundHalfEven_intCast,
      saturate64, clampInt_clampInt hlh hlo hhi]
  · rw [shiftHalfEven_of_le value hright (by omega)]

end DyadicNet
