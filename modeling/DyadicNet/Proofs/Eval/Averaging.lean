import Mathlib
import DyadicNet.Proofs.Binary64.Order
import DyadicNet.Proofs.Eval.Zero

/-!
# Means of integer planes

The mean of a plane is the sum of its integers, divided by their number and rounded half to even.
The sum is exact, but sum and number are converted to doubles, and their quotient is a double, before
it is rounded to an integer.  Rounding twice is not rounding once: the first rounding can move a
number onto a midpoint between two integers, from which the second one goes the wrong way.

**This does not happen to sums up to `2 ^ 52`.**  A mean that is not a midpoint keeps a distance of
half the reciprocal of the number of elements from every midpoint, and the quotient is nearer to the
mean than that.  Beyond, the result is still within half a unit of the mean, up to a relative error
of `2 ^ (-51)`.

## Main Definitions

* `roundedMean` — how the mean of a sum is computed;
* `Nchw.planeSum` — the sum of a plane.

## Main Statements

* `roundHalfEven_rounded_div` — rounding twice;
* `roundedMean_exact`, `roundedMean_near` — one mean;
* `averagePoolInt_spec` — the means of all planes; `averagePoolInt_rows` — as a node counts them;
* `averagePoolInt_ne_exact` — a mean that is not exact.
-/

namespace DyadicNet

open Binary64

/-! ### Rounding twice -/

variable {n c : ℕ}

/-- A quotient is either a midpoint or at some distance from it. -/
theorem le_abs_div_sub_midpoint (hc : 1 ≤ c) {k : ℤ} (hne : (n : ℚ) / c ≠ k + 1 / 2) :
    1 / (2 * c) ≤ |(n : ℚ) / c - (k + 1 / 2)| := by
  have hpos : (0 : ℚ) < c := by exact_mod_cast hc
  have hdistance : (n : ℚ) / c - (k + 1 / 2) = ((2 * n - (2 * k + 1) * c : ℤ) : ℚ) / (2 * c) := by
    push_cast
    field_simp
  have hwhole : (2 * n - (2 * k + 1) * c : ℤ) ≠ 0 := by
    intro hzero
    rw [hzero, Int.cast_zero, zero_div, sub_eq_zero] at hdistance
    exact hne hdistance
  rw [hdistance, abs_div, abs_of_pos (by positivity : (0 : ℚ) < 2 * c)]
  refine div_le_div_of_nonneg_right ?_ (by positivity)
  exact_mod_cast Int.one_le_abs hwhole

/-- A midpoint up to `2 ^ 52` has at most 53 bits. -/
theorem isMagnitude_midpoint {q : ℚ} {k : ℤ} (hpos : 0 ≤ q) (hmax : q ≤ twoPow 52)
    (hk : q = k + 1 / 2) : IsMagnitude q := by
  have hnonneg : 0 ≤ k := by
    have habove : ((-1 : ℤ) : ℚ) < k := by
      push_cast
      linarith
    have hwhole : -1 < k := by exact_mod_cast habove
    omega
  obtain ⟨m, rfl⟩ := Int.eq_ofNat_of_zero_le hnonneg
  have hm : m < twoPow 52 := by
    have hbelow : (m : ℚ) < (twoPow 52 : ℕ) := by
      rw [Int.cast_natCast] at hk
      linarith
    exact_mod_cast hbelow
  have hvalue : q = (2 * m + 1 : ℕ) * 2 ^ (-1 : ℤ) := by
    rw [hk, zpow_neg_one]
    push_cast
    ring
  have hbits : 2 * m + 1 ≤ twoPow 53 := by
    have h53 : twoPow 53 = 2 * twoPow 52 := by decide
    omega
  rw [hvalue]
  exact (isMagnitude_natCast hbits).natCast_mul_zpow (by decide) (by decide)

/-- **A quotient of a number up to `2 ^ 52` can be rounded to a double before it is rounded to an
integer.** -/
theorem roundHalfEven_rounded_div (hn : n ≤ twoPow 52) (hc : 1 ≤ c) (hle : c ≤ twoPow 53) :
    roundHalfEven (rounded (n / c)) = roundHalfEven (n / c) := by
  by_cases hmagnitude : IsMagnitude ((n : ℚ) / c)
  · rw [hmagnitude.rounded_eq]
  have hpos : (0 : ℚ) < c := by exact_mod_cast hc
  have hone : (1 : ℚ) ≤ c := by exact_mod_cast hc
  have hdividend : (n : ℚ) ≤ twoPow 52 := by exact_mod_cast hn
  have hnonneg : (0 : ℚ) ≤ n / c := by positivity
  have hmidpoint : ∀ k : ℤ, (n : ℚ) / c ≠ k + 1 / 2 := fun k hk =>
    hmagnitude (isMagnitude_midpoint hnonneg ((div_le_self n.cast_nonneg hone).trans hdividend) hk)
  have hnormal : (2 : ℚ) ^ (-1022 : ℤ) ≤ n / c := by
    have hn' : (1 : ℚ) ≤ n := by
      rw [Nat.one_le_cast, Nat.one_le_iff_ne_zero]
      rintro rfl
      rw [Nat.cast_zero, zero_div] at hmagnitude
      exact hmagnitude isMagnitude_zero
    have hle' : (c : ℚ) ≤ 2 ^ (53 : ℤ) := by
      calc (c : ℚ) ≤ (twoPow 53 : ℕ) := by exact_mod_cast hle
        _ = 2 ^ (53 : ℤ) := cast_twoPow 53
    calc (2 : ℚ) ^ (-1022 : ℤ) ≤ 2 ^ (-53 : ℤ) := zpow_le_zpow_right₀ one_le_two (by omega)
      _ = 1 / 2 ^ (53 : ℤ) := by rw [zpow_neg, one_div]
      _ ≤ n / c := div_le_div₀ n.cast_nonneg hn' hpos hle'
  rcases rounded_near hnormal with heq | herror
  · rw [heq]
  refine roundHalfEven_eq_of_near fun k => ?_
  have hscale : (twoPow 52 : ℕ) * (2 : ℚ) ^ (-53 : ℤ) = 1 / 2 := by
    rw [cast_twoPow, ← zpow_two_add]
    norm_num
  calc |rounded (n / c) - n / c| < n / c * 2 ^ (-53 : ℤ) := herror
    _ = n * 2 ^ (-53 : ℤ) / c := div_mul_eq_mul_div _ _ _
    _ ≤ 1 / 2 / c := by
        rw [← hscale]
        gcongr
    _ = 1 / (2 * c) := div_div 1 2 (c : ℚ)
    _ ≤ |(n : ℚ) / c - (k + 1 / 2)| := le_abs_div_sub_midpoint hc (hmidpoint k)

/-! ### Errors that add up -/

/-- **Three roundings of a quotient**, of the dividend, of the divisor and of the quotient of these,
together have less than four times the error of one. -/
theorem abs_sub_div_le {u p d dividend divisor quotient : ℚ} (hu : 0 ≤ u) (hu' : 5 * u ≤ 1)
    (hp : 0 ≤ p) (hd : 0 < d) (hdividend : |dividend - p| ≤ p * u) (hdivisor : |divisor - d| ≤ d * u)
    (hquotient : |quotient - dividend / divisor| ≤ dividend / divisor * u) :
    |quotient - p / d| ≤ p / d * (4 * u) := by
  obtain ⟨hdividend, hdividend'⟩ := abs_le.mp hdividend
  obtain ⟨hdivisor, hdivisor'⟩ := abs_le.mp hdivisor
  obtain ⟨hquotient, hquotient'⟩ := abs_le.mp hquotient
  have hpos : 0 < divisor := by nlinarith
  have hnonneg : 0 ≤ dividend := by nlinarith
  set x := dividend / divisor with hx
  have hmul : x * divisor = dividend := div_mul_cancel₀ dividend hpos.ne'
  have hx0 : 0 ≤ x := div_nonneg hnonneg hpos.le
  have hm0 : 0 ≤ p / d := div_nonneg hp hd.le
  have hm : p / d * d = p := div_mul_cancel₀ p hd.ne'
  set m := p / d with hmdef
  -- the divisor is moved to the other side, where its error is one of a factor
  have hupper : x * (1 - u) ≤ m * (1 + u) := by
    refine le_of_mul_le_mul_right ?_ hd
    calc x * (1 - u) * d = x * (d - d * u) := by ring
      _ ≤ x * divisor := mul_le_mul_of_nonneg_left (by linarith) hx0
      _ = dividend := hmul
      _ ≤ p + p * u := by linarith
      _ = m * (1 + u) * d := by rw [← hm]; ring
  have hlower : m * (1 - u) ≤ x * (1 + u) := by
    refine le_of_mul_le_mul_right ?_ hd
    calc m * (1 - u) * d = p - p * u := by rw [← hm]; ring
      _ ≤ dividend := by linarith
      _ = x * divisor := hmul.symm
      _ ≤ x * (d + d * u) := mul_le_mul_of_nonneg_left (by linarith) hx0
      _ = x * (1 + u) * d := by ring
  have habove : quotient ≤ m * (1 + 4 * u) := by
    refine le_of_mul_le_mul_right ?_ (by linarith : 0 < 1 - u)
    calc quotient * (1 - u) ≤ (x + x * u) * (1 - u) :=
          mul_le_mul_of_nonneg_right (by linarith) (by linarith)
      _ = x * (1 - u) * (1 + u) := by ring
      _ ≤ m * (1 + u) * (1 + u) := mul_le_mul_of_nonneg_right hupper (by linarith)
      _ ≤ m * (1 + 4 * u) * (1 - u) := by nlinarith [mul_nonneg hm0 hu]
  have hbelow : m * (1 - 4 * u) ≤ quotient := by
    refine le_of_mul_le_mul_right ?_ (by linarith : 0 < 1 + u)
    calc m * (1 - 4 * u) * (1 + u) ≤ m * (1 - u) * (1 - u) := by nlinarith [mul_nonneg hm0 hu]
      _ ≤ x * (1 + u) * (1 - u) := mul_le_mul_of_nonneg_right hlower (by linarith)
      _ = (x - x * u) * (1 + u) := by ring
      _ ≤ quotient * (1 + u) := mul_le_mul_of_nonneg_right (by linarith) (by linarith)
  exact abs_le.mpr ⟨by linarith, by linarith⟩

/-! ### One mean -/

/-- The mean of a number of integers with a given sum, as it is computed. -/
def roundedMean (sum : ℤ) (count : ℕ) : ℤ :=
  (ofInt sum / ofInt count).roundEven.toInt64

variable {a : ℤ}

/-- A positive integer of 64 bits is converted to a number that is at least one. -/
theorem one_le_rounded (hc : 1 ≤ c) : 1 ≤ rounded c := by
  have hone : IsMagnitude 1 := by simpa using isMagnitude_natCast (n := 1) (by decide)
  exact hone.le_rounded zero_le_one (by exact_mod_cast hc)

/-- The quotient of two integers as a double. -/
theorem denotes_ofInt_div (ha : a.natAbs ≤ twoPow 64) (hc : 1 ≤ c) (hle : c ≤ twoPow 64) :
    (ofInt a / ofInt c).Denotes (decide (a < 0)) (rounded (rounded |(a : ℚ)| / rounded c)) := by
  have hdividend := denotes_ofInt_rounded ha
  have hdivisor := denotes_ofInt_rounded (n := (c : ℤ)) hle
  rw [decide_eq_false (by omega), Int.cast_natCast, Nat.abs_cast] at hdivisor
  have hone := one_le_rounded hc
  have hmax : rounded (rounded |(a : ℚ)| / rounded c) < 2 ^ (1024 : ℤ) := by
    refine (hdividend.isMagnitude.rounded_le ?_ ?_).trans_lt hdividend.isMagnitude.lt
    · exact div_nonneg hdividend.nonneg hdivisor.nonneg
    · exact div_le_self hdividend.nonneg hone
  rw [hdividend.div_eq_ofMagnitude hdivisor (by linarith), Bool.bne_false]
  exact denotes_rounded _ (div_nonneg hdividend.nonneg hdivisor.nonneg) hmax

/-- The quotient of two integers as a double is close to their quotient. -/
theorem abs_ofInt_div_sub_le (ha : a.natAbs ≤ twoPow 64) (hc : 1 ≤ c) (hle : c ≤ twoPow 64) :
    |(ofInt a / ofInt c).toRat - a / c| ≤ |(a : ℚ) / c| * 2 ^ (-51 : ℤ) := by
  have hquotient := denotes_ofInt_div ha hc hle
  have hcpos : (0 : ℚ) < c := by exact_mod_cast hc
  have hsign : |(ofInt a / ofInt c).toRat - a / c|
      = |rounded (rounded |(a : ℚ)| / rounded c) - |(a : ℚ)| / c| := by
    rw [hquotient.toRat_eq]
    by_cases hneg : a < 0
    · have habs : |(a : ℚ)| = -a := abs_of_neg (by exact_mod_cast hneg)
      rw [if_pos (decide_eq_true hneg), habs, ← abs_neg]
      congr 1
      ring
    · have habs : |(a : ℚ)| = a := abs_of_nonneg (by exact_mod_cast not_lt.mp hneg)
      rw [if_neg (by simpa using hneg), habs]
  have hnormal : ∀ n : ℕ, |rounded (n : ℚ) - n| ≤ n * 2 ^ (-53 : ℤ) := by
    intro n
    refine abs_rounded_sub_le_mul ?_
    rcases Nat.eq_zero_or_pos n with rfl | hpos
    · exact .inl Nat.cast_zero
    · refine .inr ((zpow_le_one_of_nonpos₀ one_le_two (by decide)).trans ?_)
      exact_mod_cast hpos
  have hrange : rounded |(a : ℚ)| / rounded c = 0
      ∨ 2 ^ (-1022 : ℤ) ≤ rounded |(a : ℚ)| / rounded c := by
    rw [abs_cast_eq]
    rcases Nat.eq_zero_or_pos a.natAbs with hzero | hpos
    · left
      rw [hzero, Nat.cast_zero, rounded_zero, zero_div]
    right
    have hcount : rounded c ≤ 2 ^ (64 : ℤ) := by
      refine (isMagnitude_zpow (by decide) (by decide)).rounded_le hcpos.le ?_
      rw [show (64 : ℤ) = (64 : ℕ) from rfl, ← cast_twoPow]
      exact_mod_cast hle
    calc (2 : ℚ) ^ (-1022 : ℤ) ≤ 2 ^ (-64 : ℤ) := zpow_le_zpow_right₀ one_le_two (by decide)
      _ = 1 / 2 ^ (64 : ℤ) := by rw [zpow_neg, one_div]
      _ ≤ rounded a.natAbs / rounded c :=
        div_le_div₀ (rounded_nonneg (Nat.cast_nonneg _)) (one_le_rounded hpos)
          (zero_lt_one.trans_le (one_le_rounded hc)) hcount
  rw [hsign, abs_div, abs_of_pos hcpos]
  have h51 : (2 : ℚ) ^ (-51 : ℤ) = 4 * 2 ^ (-53 : ℤ) := by norm_num
  rw [h51]
  refine abs_sub_div_le (zpow_two_pos _).le (by norm_num) (abs_nonneg _) hcpos ?_ (hnormal c)
    (abs_rounded_sub_le_mul hrange)
  rw [abs_cast_eq]
  exact hnormal a.natAbs

/-- A mean is rounded once more from the quotient. -/
theorem roundedMean_eq (ha : a.natAbs ≤ twoPow 64) (hc : 1 ≤ c) (hle : c ≤ twoPow 64) :
    roundedMean a c = saturate64 (roundHalfEven (ofInt a / ofInt c).toRat) := by
  unfold roundedMean
  rw [toInt64, toInt_roundEven (denotes_ofInt_div ha hc hle).isFinite]
  rfl

/-- If there are at least twice as many elements as units in their sum, the mean is zero. -/
theorem roundedMean_of_many {k : ℕ} (ha : a.natAbs ≤ twoPow k) (hk : k ≤ 63)
    (hc : twoPow (k + 1) ≤ c) : roundedMean a c = roundHalfEven (a / c) := by
  have hcpos : (0 : ℚ) < c := by exact_mod_cast (twoPow_pos (k + 1)).trans_le hc
  have hdividend := denotes_ofInt_rounded (ha.trans (twoPow_le_twoPow (by omega : k ≤ 64)))
  have hsum : |(a : ℚ)| ≤ 2 ^ (k : ℤ) := by
    rw [abs_cast_eq, ← cast_twoPow]
    exact_mod_cast ha
  have hcount : (2 : ℚ) ^ ((k : ℤ) + 1) ≤ c := by
    have hcast := cast_twoPow (k + 1)
    push_cast at hcast
    rw [← hcast]
    exact_mod_cast hc
  have hhalf : ∀ p q : ℚ, p ≤ 2 ^ (k : ℤ) → 2 ^ ((k : ℤ) + 1) ≤ q → p / q ≤ 1 / 2 := by
    intro p q hp hq
    rw [div_le_div_iff₀ ((zpow_two_pos _).trans_le hq) two_pos, one_mul]
    calc p * 2 ≤ 2 ^ (k : ℤ) * 2 := by linarith
      _ = 2 ^ ((k : ℤ) + 1) := (zpow_two_add k 1).symm ▸ by norm_num
      _ ≤ q := hq
  have hmean : roundHalfEven ((a : ℚ) / c) = 0 := by
    rw [roundHalfEven_eq_zero_iff, abs_div, abs_of_pos hcpos]
    exact hhalf _ _ hsum hcount
  have hquotient : (ofInt a / ofInt c).isFinite = true ∧ |(ofInt a / ofInt c).toRat| ≤ 1 / 2 := by
    have hcast : ofInt c = ofMagnitude false c := by
      unfold ofInt ofRat
      rw [Int.cast_natCast, if_neg hcpos.le.not_gt]
    rw [hcast]
    rcases lt_or_ge (rounded (c : ℚ)) (2 ^ (1024 : ℤ)) with hmax | hmax
    · have hdivisor := denotes_rounded false hcpos.le hmax
      have hsum' : rounded |(a : ℚ)| ≤ 2 ^ (k : ℤ) :=
        (isMagnitude_zpow (by omega) (by omega)).rounded_le (abs_nonneg _) hsum
      have hcount' : 2 ^ ((k : ℤ) + 1) ≤ rounded c :=
        (isMagnitude_zpow (by omega) (by omega)).le_rounded (zpow_two_pos _).le hcount
      obtain ⟨r, hr, hvalue⟩ := exists_denotes_ofMagnitude (decide (a < 0) != false)
        (isMagnitude_zpow (e := -1) (by decide) (by decide))
        (div_nonneg hdividend.nonneg hdivisor.nonneg)
        ((hhalf _ _ hsum' hcount').trans_eq (by norm_num))
      rw [hdividend.div_eq_ofMagnitude hdivisor ((zpow_two_pos _).trans_le hcount').ne',
        hvalue.abs_toRat]
      exact ⟨hvalue.isFinite, hr.trans_eq (by norm_num)⟩
    · rw [ofMagnitude_eq_infinity_of_rounded false hcpos.le hmax, hdividend.div_infinity,
        (denotes_zero _).abs_toRat]
      exact ⟨rfl, by norm_num⟩
  unfold roundedMean
  rw [hmean, toInt64, toInt_roundEven hquotient.1, roundHalfEven_eq_zero_iff.mpr hquotient.2]
  decide

/-- **A mean is exact** if the sum is at most `2 ^ 52`. -/
theorem roundedMean_exact (ha : a.natAbs ≤ twoPow 52) (hc : 1 ≤ c) :
    roundedMean a c = roundHalfEven (a / c) := by
  rcases le_or_gt c (twoPow 53) with hle | hmany
  · have h53 : a.natAbs ≤ twoPow 53 := ha.trans (by decide)
    have h64 : twoPow 53 ≤ twoPow 64 := by decide
    have hcpos : (1 : ℚ) ≤ c := by exact_mod_cast hc
    have hquotient := denotes_ofInt_div (h53.trans h64) hc (hle.trans h64)
    -- neither the sum nor the number of elements is rounded
    rw [abs_cast_eq, (isMagnitude_natCast h53).rounded_eq, (isMagnitude_natCast hle).rounded_eq]
      at hquotient
    have hround : roundHalfEven (ofInt a / ofInt c).toRat = roundHalfEven (a / c) := by
      rw [hquotient.toRat_eq]
      by_cases hneg : a < 0
      · have hmean : (a : ℚ) / c = -(a.natAbs / c) := by
          rw [← abs_cast_eq, abs_of_neg (by exact_mod_cast hneg), neg_div, neg_neg]
        rw [if_pos (decide_eq_true hneg), hmean, roundHalfEven_neg, roundHalfEven_neg,
          roundHalfEven_rounded_div ha hc hle]
      · have hmean : (a : ℚ) / c = a.natAbs / c := by
          rw [← abs_cast_eq, abs_of_nonneg (by exact_mod_cast not_lt.mp hneg)]
        rw [if_neg (by simpa using hneg), hmean, roundHalfEven_rounded_div ha hc hle]
    rw [roundedMean_eq (h53.trans h64) hc (hle.trans h64), hround]
    exact ((fits64_of_natAbs_le h53).roundHalfEven_div hcpos).saturate64_eq
  · exact roundedMean_of_many ha (by decide) hmany.le

/-- **A mean is within half a unit**, up to a small relative error. -/
theorem roundedMean_near (ha : Fits64 a) (hc : 1 ≤ c) :
    |(roundedMean a c : ℚ) - a / c| ≤ 1 / 2 + |(a : ℚ) / c| * 2 ^ (-51 : ℤ) := by
  rcases le_or_gt c (twoPow 64) with hle | hmany
  · have h64 : a.natAbs ≤ twoPow 64 := ha.natAbs_le.trans (by decide)
    have hcpos : (1 : ℚ) ≤ c := by exact_mod_cast hc
    -- the mean is in the range of 64 bits, so saturating does not lead away from it
    obtain ⟨hlow, hhigh⟩ := ha.div_mem hcpos
    set quotient := (ofInt a / ofInt c).toRat with hquotient
    rw [roundedMean_eq h64 hc hle, ← hquotient]
    calc |(saturate64 (roundHalfEven quotient) : ℚ) - a / c|
        ≤ |(roundHalfEven quotient : ℚ) - a / c| := abs_clampInt_sub_le hlow hhigh
      _ ≤ |(roundHalfEven quotient : ℚ) - quotient| + |quotient - a / c| := abs_sub_le _ _ _
      _ ≤ 1 / 2 + |(a : ℚ) / c| * 2 ^ (-51 : ℤ) := by
        rw [abs_sub_comm (roundHalfEven quotient : ℚ)]
        exact add_le_add (roundHalfEven_spec quotient).near (abs_ofInt_div_sub_le h64 hc hle)
  · rw [roundedMean_of_many ha.natAbs_le le_rfl hmany.le, abs_sub_comm]
    have herror : 0 ≤ |(a : ℚ) / c| * 2 ^ (-51 : ℤ) := by positivity
    linarith [(roundHalfEven_spec ((a : ℚ) / c)).near]

/-- **A mean of integers of a type has the type**, however its sum is rounded on the way: the error
is not large enough to pass an end of the type. -/
theorem holds_roundedMean {type : IntType} (ha : Fits64 a) (hc : 1 ≤ c)
    (hlow : type.least * c ≤ a) (hhigh : a ≤ type.greatest * c) :
    type.holds (roundedMean a c) = true := by
  by_cases hwide : type = .i64
  · subst hwide
    exact decide_eq_true (fits64_toInt64 _)
  have hcpos : (0 : ℚ) < c := by exact_mod_cast hc
  have hmin : (type.least : ℚ) ≤ a / c := by
    rw [le_div_iff₀ hcpos]
    exact_mod_cast hlow
  have hmax : (a : ℚ) / c ≤ type.greatest := by
    rw [div_le_iff₀ hcpos]
    exact_mod_cast hhigh
  have hends : -2147483648 ≤ type.least ∧ type.greatest ≤ 2147483647 := by
    cases type <;> first | contradiction | decide
  have hleast : (-2147483648 : ℚ) ≤ type.least := by exact_mod_cast hends.1
  have hgreatest : (type.greatest : ℚ) ≤ 2147483647 := by exact_mod_cast hends.2
  have herror : |(a : ℚ) / c| * 2 ^ (-51 : ℤ) < 1 / 2 := by
    have habs : |(a : ℚ) / c| ≤ 2147483648 := abs_le.mpr ⟨by linarith, by linarith⟩
    calc |(a : ℚ) / c| * 2 ^ (-51 : ℤ) ≤ 2147483648 * 2 ^ (-51 : ℤ) :=
          mul_le_mul_of_nonneg_right habs (zpow_two_pos _).le
      _ < 1 / 2 := by norm_num
  obtain ⟨hbelow, habove⟩ := abs_le.mp (roundedMean_near ha hc)
  have hlower : ((type.least - 1 : ℤ) : ℚ) < roundedMean a c := by
    push_cast
    linarith
  have hupper : (roundedMean a c : ℚ) < ((type.greatest + 1 : ℤ) : ℚ) := by
    push_cast
    linarith
  exact decide_eq_true
    ⟨Int.le_of_sub_one_lt (Int.cast_lt.mp hlower), Int.lt_add_one_iff.mp (Int.cast_lt.mp hupper)⟩

namespace Eval

/-! ### The planes of a tensor -/

variable {s : Nchw} {values : Array ℤ} {b : ℕ}

/-- The sum of a plane. -/
def Nchw.planeSum (s : Nchw) (values : Array ℤ) (b c : ℕ) : ℤ :=
  ∑ y ∈ Finset.range s.height, ∑ x ∈ Finset.range s.width, s.read values 0 b c y x

/-- Rows of one length after each other are summed row by row. -/
theorem sum_range_rows (f : ℕ → ℤ) (rows columns : ℕ) :
    ∑ i ∈ Finset.range (rows * columns), f i
      = ∑ y ∈ Finset.range rows, ∑ x ∈ Finset.range columns, f (y * columns + x) := by
  induction rows with
  | zero => simp
  | succ rows ih => rw [Nat.succ_mul, Finset.sum_range_add, ih, Finset.sum_range_succ]

/-- The sum of some elements that follow each other; there is zero beyond the end. -/
theorem foldl_extract (values : Array ℤ) (start count : ℕ) :
    (values.extract start (start + count)).toList.foldl (· + ·) 0
      = ∑ i ∈ Finset.range count, values.getD (start + i) 0 := by
  rw [Array.toList_extract, List.extract_eq_take_drop, Nat.add_sub_cancel_left]
  induction count with
  | zero => rfl
  | succ count ih =>
    rw [List.take_add_one, List.foldl_append, ih, Finset.sum_range_succ, List.getElem?_drop,
      Array.getElem?_toList, Array.getD_eq_getD_getElem?]
    cases values[start + count]? <;> simp

/-- The elements of a plane follow each other. -/
theorem foldl_plane (s : Nchw) (values : Array ℤ) (b c : ℕ) :
    (values.extract ((b * s.channels + c) * s.area)
      ((b * s.channels + c) * s.area + s.area)).toList.foldl (· + ·) 0 = s.planeSum values b c := by
  rw [foldl_extract]
  unfold Nchw.area Nchw.planeSum
  rw [sum_range_rows]
  refine Finset.sum_congr rfl fun y _ => Finset.sum_congr rfl fun x _ => ?_
  unfold Nchw.read Nchw.index
  congr 1
  ring

/-- The sum of a plane of integers of a type. -/
theorem planeSum_mem {type : IntType} (hvalues : ∀ v ∈ values, type.holds v = true) (s : Nchw)
    (b c : ℕ) : type.least * s.area ≤ s.planeSum values b c ∧
      s.planeSum values b c ≤ type.greatest * s.area := by
  have hread : ∀ y x, type.holds (s.read values 0 b c y x) = true := fun y x =>
    Nchw.forall_read (P := fun v => type.holds v = true) hvalues type.holds_zero
  have hcount : ∀ bound : ℤ, ∑ _y ∈ Finset.range s.height, ∑ _x ∈ Finset.range s.width, bound
      = bound * s.area := by
    intro bound
    simp only [Finset.sum_const, Finset.card_range, nsmul_eq_mul, Nchw.area]
    push_cast
    ring
  rw [← hcount, ← hcount]
  exact ⟨Finset.sum_le_sum fun y _ => Finset.sum_le_sum fun x _ => (of_decide_eq_true (hread y x)).1,
    Finset.sum_le_sum fun y _ => Finset.sum_le_sum fun x _ => (of_decide_eq_true (hread y x)).2⟩

/-- Every piece is a plane. -/
theorem exists_plane_of_mem_pieces {piece : List ℤ} (harea : 1 ≤ s.area)
    (h : piece ∈ pieces s.area (s.batch * s.channels) values) :
    ∃ b < s.batch, ∃ c < s.channels, piece.foldl (· + ·) 0 = s.planeSum values b c := by
  obtain ⟨i, hi, rfl⟩ := List.mem_map.mp h
  have hplane : i < s.channels * s.batch :=
    (List.mem_range.mp hi).trans_le ((Nat.min_le_left _ _).trans_eq (Nat.mul_comm _ _))
  have hchannels : 0 < s.channels := Nat.pos_of_mul_pos_right ((Nat.zero_le i).trans_lt hplane)
  refine ⟨i / s.channels, Nat.div_lt_of_lt_mul hplane, i % s.channels, Nat.mod_lt _ hchannels, ?_⟩
  rw [← foldl_plane, Nat.div_add_mod', max_eq_right harea]

theorem getElem?_pieces {α : Type} {size count i : ℕ} {values : Array α} (hpos : 1 ≤ size)
    (hsize : values.size = count * size) (hi : i < count) :
    (pieces size count values)[i]? = some (values.extract (i * size) (i * size + size)).toList := by
  have hindex : i < (pieces size count values).length :=
    hi.trans_eq (length_pieces hpos hsize).symm
  rw [List.getElem?_eq_getElem hindex]
  simp [pieces, max_eq_right hpos]

theorem size_averagePoolInt (hsize : values.size = s.volume) (harea : 1 ≤ s.area) :
    (averagePoolInt values s).size = s.batch * s.channels := by
  unfold averagePoolInt
  rw [List.size_toArray, List.length_map, length_pieces harea (hsize.trans s.volume_eq)]

/-- The elements of a result are the means of the planes, in their order. -/
theorem getElem?_averagePoolInt (hsize : values.size = s.volume) (harea : 1 ≤ s.area)
    (hb : b < s.batch) (hc : c < s.channels) :
    (averagePoolInt values s)[b * s.channels + c]?
      = some (roundedMean (wrap64 (s.planeSum values b c)) s.area) := by
  obtain ⟨hheight, hwidth⟩ :=
    CanonicallyOrderedAdd.mul_pos.mp (show 0 < s.height * s.width from harea)
  have hplane := Nchw.Inside.plane_lt ⟨hb, hc, hheight, hwidth⟩
  unfold averagePoolInt
  rw [List.getElem?_toArray, List.getElem?_map,
    getElem?_pieces harea (hsize.trans s.volume_eq) hplane, Option.map_some, foldl_plane]
  rfl

/-- A node counts planes and their elements in machine words.  As long as these do not leave 64 bits,
it takes the means of the planes. -/
theorem averagePoolInt_rows (hplanes : s.batch * s.channels < twoPow 64)
    (harea : s.area < twoPow 64) :
    averagePoolInt values (Kernel.rows s) = averagePoolInt values s := by
  have hcount : (Kernel.rows s).batch * (Kernel.rows s).channels = s.batch * s.channels :=
    (Nat.one_mul _).trans (word_of_lt hplanes)
  have hsize : (Kernel.rows s).area = s.area := (Nat.one_mul _).trans (word_of_lt harea)
  unfold averagePoolInt
  rw [hcount, hsize]

/-- **The mean of every plane** of a tensor of integers, in the order of the planes.  The planes are
not empty, and their sums have 64 bits.  Sums up to `2 ^ 52` have the mean that exact arithmetic
gives, rounded half to even.  The other means are off by half a unit, and a small relative error. -/
theorem averagePoolInt_spec (hsize : values.size = s.volume) (harea : 1 ≤ s.area)
    (hsums : ∀ b < s.batch, ∀ c < s.channels, Fits64 (s.planeSum values b c)) :
    (averagePoolInt values s).size = s.batch * s.channels ∧
      ∀ b < s.batch, ∀ c < s.channels, ∃ mean : ℤ,
        (averagePoolInt values s)[b * s.channels + c]? = some mean ∧
        |(mean : ℚ) - s.planeSum values b c / s.area|
          ≤ 1 / 2 + |(s.planeSum values b c : ℚ) / s.area| * 2 ^ (-51 : ℤ) ∧
        ((s.planeSum values b c).natAbs ≤ twoPow 52 →
          mean = roundHalfEven (s.planeSum values b c / s.area)) := by
  refine ⟨size_averagePoolInt hsize harea, fun b hb c hc => ?_⟩
  have hfits := hsums b hb c hc
  refine ⟨_, getElem?_averagePoolInt hsize harea hb hc, ?_⟩
  rw [hfits.wrap64_eq]
  exact ⟨roundedMean_near hfits harea, fun hshort => roundedMean_exact hshort harea⟩

/-- Two planes whose sums are odd, one of them almost as far below zero as is exact: both means are
ties and go to the even neighbour. -/
theorem averagePoolInt_spec_ties :
    let s : Nchw := ⟨1, 2, 1, 2⟩
    let values : Array ℤ := #[1, 2, -(twoPow 52 - 1), 0]
    values.size = s.volume ∧ 1 ≤ s.area ∧
      (∀ b < s.batch, ∀ c < s.channels, Fits64 (s.planeSum values b c)) ∧
      (s.planeSum values 0 1).natAbs ≤ twoPow 52 ∧
      (averagePoolInt values s)[0]? = some 2 ∧
      (averagePoolInt values s)[1]? = some (-2251799813685248) := by
  intro s values
  have hsize : values.size = s.volume := by decide +kernel
  have hsums : ∀ b < s.batch, ∀ c < s.channels, Fits64 (s.planeSum values b c) := by
    decide +kernel
  have hshort : (s.planeSum values 0 1).natAbs ≤ twoPow 52 := by decide +kernel
  obtain ⟨-, hmeans⟩ := averagePoolInt_spec hsize (by decide) hsums
  obtain ⟨first, hfirst, -, hexact⟩ := hmeans 0 (by decide) 0 (by decide)
  obtain ⟨second, hsecond, -, hexact'⟩ := hmeans 0 (by decide) 1 (by decide)
  refine ⟨hsize, by decide, hsums, hshort, hfirst.trans (congrArg some ?_),
    hsecond.trans (congrArg some ?_)⟩
  · exact (hexact (by decide +kernel)).trans (by decide +kernel)
  · exact (hexact' hshort).trans (by decide +kernel)

/-- **Beyond, means need not be exact**, not even that of a single integer: the least positive one
that is not a double becomes another one. -/
theorem averagePoolInt_ne_exact :
    let s : Nchw := ⟨1, 1, 1, 1⟩
    let values : Array ℤ := #[twoPow 53 + 1]
    values.size = s.volume ∧ 1 ≤ s.area ∧
      (∀ b < s.batch, ∀ c < s.channels, Fits64 (s.planeSum values b c)) ∧
      averagePoolInt values s = #[9007199254740992] ∧
      roundHalfEven (s.planeSum values 0 0 / s.area) = 9007199254740993 := by
  decide +kernel

end Eval

end DyadicNet
