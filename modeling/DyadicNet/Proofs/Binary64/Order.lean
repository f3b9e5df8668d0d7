import Mathlib
import DyadicNet.Proofs.Binary64.Arithmetic

/-!
# The order of doubles

Numbers compare by their values, and infinities lie beyond all values.  **Rounding keeps this
order**: of two rationals, the smaller one never becomes the greater double.  To see this, rounding
is taken apart into what it does to the value, which is to count whole units of the last place, and
the comparison with `2 ^ 1024`, from which on there is only an infinity.

The first of the two moves a number by half a unit of its last place at most.  Relative to the
number this is less than `2 ^ -53`, unless the number is so small that units do not get smaller.

## Main Definitions

* `extended` — the value of a number that may be infinite;
* `rounded` — the nearest number of 53 bits.

## Main Statements

* `lt_iff_extended`, `eq_of_extended_eq` — comparing is comparing values;
* `rounded_mono`, `rounded_near` — order and error of the rounding;
* `extended_ofRat_mono`, `toRat_ofInt_mono` — rounding keeps the order.
-/

namespace DyadicNet.Binary64

variable {x y : Binary64} {p q : ℚ}

/-! ### Values that may be infinite -/

/-- The value of a number that may be infinite.  *Not a number* is put at zero. -/
def extended : Binary64 → WithBot (WithTop ℚ)
  | .nan => ((0 : ℚ) : WithTop ℚ)
  | .infinity true => ⊥
  | .infinity false => ((⊤ : WithTop ℚ) : WithBot (WithTop ℚ))
  | .finite s m e h => ((toRat (.finite s m e h) : ℚ) : WithTop ℚ)

/-- Numbers compare by their values. -/
theorem lt_iff_extended (hx : x.isNaN = false) (hy : y.isNaN = false) :
    x.lt y = true ↔ x.extended < y.extended := by
  cases x with
  | nan => cases hx
  | infinity s =>
    cases y with
    | nan => cases hy
    | infinity t => cases s <;> cases t <;> simp [Binary64.lt, compare?, extended]
    | finite t n d hd => cases s <;> simp [Binary64.lt, compare?, extended]
  | finite s m e he =>
    cases y with
    | nan => cases hy
    | infinity t =>
      cases t with
      | true => simp [Binary64.lt, compare?, extended]
      | false =>
        have hlt : ((toRat (.finite s m e he) : ℚ) : WithTop ℚ) < ⊤ := WithTop.coe_lt_top _
        simpa [Binary64.lt, compare?, extended] using WithBot.coe_lt_coe.mpr hlt
    | finite t n d hd =>
      rw [(denotes_finite s he).lt_iff (denotes_finite t hd)]
      simp [extended]

/-- Only one number is not greater than minus infinity. -/
theorem eq_of_extended_le_bot (hx : x.isNaN = false) (h : x.extended ≤ (infinity true).extended) :
    x = .infinity true := by
  cases x with
  | nan => cases hx
  | infinity s => cases s <;> simp_all [extended]
  | finite s m e he => simp [extended] at h

theorem Denotes.extended_eq {s : Bool} (h : Denotes x s q) :
    x.extended = ((x.toRat : ℚ) : WithTop ℚ) := by
  obtain ⟨_, m, e, hc, rfl⟩ := exists_finite h.isFinite
  rfl

/-- Numbers of one sign and one value are the same. -/
theorem eq_of_extended_eq (hx : x.isNaN = false) (hy : y.isNaN = false)
    (hsign : x.isNegative = y.isNegative) (h : x.extended = y.extended) : x = y := by
  cases x with
  | nan => cases hx
  | infinity s =>
    cases y with
    | nan => cases hy
    | infinity t => exact congrArg _ hsign
    | finite t n d hd => cases s <;> simp [extended] at h
  | finite s m e he =>
    cases y with
    | nan => cases hy
    | infinity t => cases t <;> simp [extended] at h
    | finite t n d hd =>
      obtain rfl : s = t := hsign
      have hvalue : toRat (.finite s m e he) = toRat (.finite s n d hd) := by simpa [extended] using h
      have hx := denotes_finite s he
      have hy := denotes_finite s hd
      rw [← hx.abs_toRat, hvalue, hy.abs_toRat] at hx
      exact hx.unique hy

/-! ### Rounding to 53 bits -/

/-- The nearest number of 53 bits to a number that is not negative, however large it is. -/
def rounded (q : ℚ) : ℚ :=
  roundHalfEven (q / 2 ^ lastPlace q) * 2 ^ lastPlace q

@[simp] theorem rounded_zero : rounded 0 = 0 := by
  simp [rounded]

theorem rounded_nonneg (h : 0 ≤ q) : 0 ≤ rounded q := by
  have hunits := roundHalfEven_nonneg (div_nonneg h (zpow_two_pos (lastPlace q)).le)
  exact mul_nonneg (by exact_mod_cast hunits) (zpow_two_pos _).le

/-- A number that a double holds is not changed. -/
theorem IsMagnitude.rounded_eq (h : IsMagnitude q) : rounded q = q := by
  obtain ⟨m, e, hc, rfl⟩ := h
  rcases Nat.eq_zero_or_pos m with rfl | hpos
  · simp
  rw [rounded, lastPlace_of_canonical hc hpos.ne', mul_div_cancel_right₀ _ (zpow_two_ne_zero e),
    ← Int.cast_natCast, roundHalfEven_intCast]

/-- **Rounding keeps the order.** -/
theorem rounded_mono (hp : 0 ≤ p) (h : p ≤ q) : rounded p ≤ rounded q := by
  rcases hp.eq_or_lt with rfl | hpos
  · rw [rounded_zero]
    exact rounded_nonneg h
  have hplace := lastPlace_mono hpos h
  obtain ⟨m, hm, hmost, -⟩ := exists_significand hpos
  obtain ⟨n, hn, -, hfull⟩ := exists_significand (hpos.trans_le h)
  have hunit := zpow_two_pos (lastPlace q)
  rcases hplace.eq_or_lt with heq | hlt
  · -- in one binade it is rounding to whole units
    unfold rounded
    rw [heq]
    exact mul_le_mul_of_nonneg_right
      (by exact_mod_cast roundHalfEven_mono (div_le_div_of_nonneg_right h hunit.le)) hunit.le
  · -- between two binades there is a power of two
    have hleast : -1074 ≤ lastPlace p := le_max_left _ _
    have hbits : twoPow 52 ≤ n := hfull.resolve_right (by omega)
    unfold rounded
    rw [hm, hn, Int.cast_natCast, Int.cast_natCast]
    calc (m : ℚ) * 2 ^ lastPlace p ≤ (twoPow 53 : ℕ) * 2 ^ lastPlace p :=
          mul_le_mul_of_nonneg_right (by exact_mod_cast hmost) (zpow_two_pos _).le
      _ = 2 ^ (53 + lastPlace p) := by rw [cast_twoPow, ← zpow_two_add, Nat.cast_ofNat]
      _ ≤ 2 ^ (52 + lastPlace q) := zpow_le_zpow_right₀ one_le_two (by omega)
      _ = (twoPow 52 : ℕ) * 2 ^ lastPlace q := by rw [cast_twoPow, ← zpow_two_add, Nat.cast_ofNat]
      _ ≤ n * 2 ^ lastPlace q := mul_le_mul_of_nonneg_right (by exact_mod_cast hbits) hunit.le

/-- Rounding does not pass a number that a double holds, neither from below. -/
theorem IsMagnitude.rounded_le (hp : IsMagnitude p) (hq : 0 ≤ q) (h : q ≤ p) : rounded q ≤ p :=
  (rounded_mono hq h).trans_eq hp.rounded_eq

/-- Nor from above. -/
theorem IsMagnitude.le_rounded (hp : IsMagnitude p) (hpos : 0 ≤ p) (h : p ≤ q) : p ≤ rounded q :=
  hp.rounded_eq.symm.trans_le (rounded_mono hpos h)

/-- Half a unit of the last place is the most that is lost. -/
theorem abs_rounded_sub_le (q : ℚ) : |rounded q - q| ≤ 2 ^ (lastPlace q - 1) := by
  have hunit := zpow_two_pos (lastPlace q)
  have hnear := (roundHalfEven_spec (q / 2 ^ lastPlace q)).near
  calc |rounded q - q|
      = |q / 2 ^ lastPlace q - roundHalfEven (q / 2 ^ lastPlace q)| * 2 ^ lastPlace q := by
        rw [← abs_of_pos hunit, ← abs_mul, abs_of_pos hunit, sub_mul,
          div_mul_cancel₀ _ hunit.ne', abs_sub_comm]
        rfl
    _ ≤ 1 / 2 * 2 ^ lastPlace q := mul_le_mul_of_nonneg_right hnear hunit.le
    _ = 2 ^ (lastPlace q - 1) := by rw [zpow_two_sub, zpow_one, one_div_mul_eq_div]

/-- **The relative error is less than `2 ^ -53`**, and there is none for a power of two. -/
theorem rounded_near (h : 2 ^ (-1022 : ℤ) ≤ q) :
    rounded q = q ∨ |rounded q - q| < q * 2 ^ (-53 : ℤ) := by
  have hpos : 0 < q := (zpow_two_pos _).trans_le h
  obtain ⟨hlower, hupper⟩ := floorLog2_spec hpos
  have hlog : -1022 ≤ floorLog2 q := zpow_binade_unique h hupper
  have hplace : lastPlace q = floorLog2 q - 52 := max_eq_right (by omega)
  rcases hlower.eq_or_lt with hpower | hlt
  · left
    have hwhole : q / 2 ^ lastPlace q = ((twoPow 52 : ℕ) : ℤ) := by
      rw [Int.cast_natCast, cast_twoPow, div_eq_iff (zpow_two_ne_zero _), ← zpow_two_add, hplace,
        Nat.cast_ofNat, add_sub_cancel, hpower]
    unfold rounded
    rw [hwhole, roundHalfEven_intCast, ← hwhole, div_mul_cancel₀ _ (zpow_two_ne_zero _)]
  · right
    calc |rounded q - q| ≤ 2 ^ (lastPlace q - 1) := abs_rounded_sub_le q
      _ = 2 ^ floorLog2 q * 2 ^ (-53 : ℤ) := by
          rw [← zpow_two_add, hplace]
          congr 1
          ring
      _ < q * 2 ^ (-53 : ℤ) := mul_lt_mul_of_pos_right hlt (zpow_two_pos _)

/-- What is rounded to a number with all its bits has a small relative error. -/
theorem abs_rounded_sub_le_mul (h : q = 0 ∨ 2 ^ (-1022 : ℤ) ≤ q) :
    |rounded q - q| ≤ q * 2 ^ (-53 : ℤ) := by
  rcases h with rfl | hnormal
  · simp
  rcases rounded_near hnormal with heq | hlt
  · rw [heq, sub_self, abs_zero]
    exact mul_nonneg ((zpow_two_pos _).le.trans hnormal) (zpow_two_pos _).le
  · exact hlt.le

/-! ### Rounding to doubles -/

/-- The nearest double is a number. -/
theorem isNaN_ofMagnitude (negative : Bool) (q : ℚ) : (ofMagnitude negative q).isNaN = false := by
  unfold ofMagnitude
  dsimp only
  split_ifs <;> rfl

/-- It has the sign that is asked for, even if it is zero or infinite. -/
theorem isNegative_ofMagnitude (negative : Bool) (q : ℚ) :
    (ofMagnitude negative q).isNegative = negative := by
  unfold ofMagnitude
  dsimp only
  split_ifs <;> rfl

/-- What is rounded below `2 ^ 1024` has a double. -/
theorem denotes_rounded (negative : Bool) (h : 0 ≤ q) (hmax : rounded q < 2 ^ (1024 : ℤ)) :
    Denotes (ofMagnitude negative q) negative (rounded q) := by
  rcases h.eq_or_lt with rfl | hpos
  · simpa [ofMagnitude] using denotes_zero negative
  obtain ⟨n, hn, -, -⟩ := exists_significand hpos
  unfold rounded at hmax ⊢
  rw [hn, Int.cast_natCast] at hmax ⊢
  exact denotes_ofMagnitude_of_lt negative hpos hn hmax

/-- An integer of 64 bits is converted to the nearest double. -/
theorem denotes_ofInt_rounded {n : ℤ} (h : n.natAbs ≤ twoPow 64) :
    Denotes (ofInt n) (decide (n < 0)) (rounded |(n : ℚ)|) := by
  have hle : |(n : ℚ)| ≤ 2 ^ (64 : ℤ) := by
    rw [abs_cast_eq]
    calc (n.natAbs : ℚ) ≤ (twoPow 64 : ℕ) := by exact_mod_cast h
      _ = 2 ^ (64 : ℤ) := cast_twoPow 64
  have hmax : rounded |(n : ℚ)| < 2 ^ (1024 : ℤ) :=
    ((isMagnitude_zpow (by decide) (by decide)).rounded_le (abs_nonneg _) hle).trans_lt
      (zpow_lt_zpow_right₀ one_lt_two (by decide))
  unfold ofInt ofRat
  by_cases hneg : n < 0
  · have hneg' : (n : ℚ) < 0 := by exact_mod_cast hneg
    rw [if_pos hneg', decide_eq_true hneg, ← abs_of_neg hneg']
    exact denotes_rounded true (abs_nonneg _) hmax
  · have hnonneg : 0 ≤ (n : ℚ) := by exact_mod_cast not_lt.mp hneg
    rw [if_neg hnonneg.not_gt, decide_eq_false hneg]
    rw [abs_of_nonneg hnonneg] at hmax ⊢
    exact denotes_rounded false hnonneg hmax

/-- What is rounded up to `2 ^ 1024` is infinite, even if it was less. -/
theorem ofMagnitude_eq_infinity_of_rounded (negative : Bool) (h : 0 ≤ q)
    (hmax : 2 ^ (1024 : ℤ) ≤ rounded q) : ofMagnitude negative q = .infinity negative := by
  rcases h.eq_or_lt with rfl | hpos
  · rw [rounded_zero] at hmax
    exact absurd hmax (not_le.mpr (zpow_two_pos _))
  obtain ⟨n, hn, -, -⟩ := exists_significand hpos
  have hsignificand : (roundHalfEven (q / 2 ^ lastPlace q)).toNat = n := by
    rw [hn, Int.toNat_natCast]
  have hvalue : 2 ^ (1024 : ℤ) ≤ (n : ℚ) * 2 ^ lastPlace q := by
    rwa [rounded, hn, Int.cast_natCast] at hmax
  have hfinite : ¬Canonical n (lastPlace q) := fun hc =>
    absurd (IsMagnitude.lt ⟨n, _, hc, rfl⟩) (not_lt.mpr hvalue)
  have hcarry : ¬(n = twoPow 53 ∧ Canonical (twoPow 52) (lastPlace q + 1)) := by
    rintro ⟨rfl, hc⟩
    rw [twoPow_53_mul_zpow] at hvalue
    exact absurd (IsMagnitude.lt ⟨twoPow 52, _, hc, rfl⟩) (not_lt.mpr hvalue)
  rw [← hsignificand] at hfinite hcarry
  unfold ofMagnitude
  rw [if_neg hpos.ne']
  exact (dif_neg hfinite).trans (dif_neg hcarry)

/-- The value of a rounded number that is not negative. -/
theorem extended_ofMagnitude_false (h : 0 ≤ q) :
    (ofMagnitude false q).extended
      = if rounded q < 2 ^ (1024 : ℤ) then (((rounded q : ℚ) : WithTop ℚ) : WithBot (WithTop ℚ))
        else (⊤ : WithTop ℚ) := by
  split_ifs with hmax
  · have hvalue := denotes_rounded false h hmax
    rw [hvalue.extended_eq, hvalue.toRat_pos]
  · rw [ofMagnitude_eq_infinity_of_rounded false h (not_lt.mp hmax)]
    rfl

/-- The value of a rounded number that is not positive. -/
theorem extended_ofMagnitude_true (h : 0 ≤ q) :
    (ofMagnitude true q).extended
      = if rounded q < 2 ^ (1024 : ℤ) then (((-rounded q : ℚ) : WithTop ℚ) : WithBot (WithTop ℚ))
        else ⊥ := by
  split_ifs with hmax
  · have hvalue := denotes_rounded true h hmax
    rw [hvalue.extended_eq, hvalue.toRat_eq, if_pos rfl]
  · rw [ofMagnitude_eq_infinity_of_rounded true h (not_lt.mp hmax)]
    rfl

theorem extended_ofMagnitude_mono (h : 0 ≤ p) (hle : p ≤ q) :
    (ofMagnitude false p).extended ≤ (ofMagnitude false q).extended := by
  have hrounded := rounded_mono h hle
  rw [extended_ofMagnitude_false h, extended_ofMagnitude_false (h.trans hle)]
  split_ifs with hp hq hq
  · exact WithBot.coe_le_coe.mpr (WithTop.coe_le_coe.mpr hrounded)
  · exact WithBot.coe_le_coe.mpr le_top
  · exact absurd (hrounded.trans_lt hq) hp
  · exact le_rfl

theorem extended_ofMagnitude_anti (h : 0 ≤ p) (hle : p ≤ q) :
    (ofMagnitude true q).extended ≤ (ofMagnitude true p).extended := by
  have hrounded := rounded_mono h hle
  rw [extended_ofMagnitude_true h, extended_ofMagnitude_true (h.trans hle)]
  split_ifs with hq hp hp
  · exact WithBot.coe_le_coe.mpr (WithTop.coe_le_coe.mpr (neg_le_neg hrounded))
  · exact absurd (hrounded.trans_lt hq) hp
  · exact bot_le
  · exact le_rfl

/-- **Rounding to doubles keeps the order.** -/
theorem extended_ofRat_mono (h : p ≤ q) : (ofRat p).extended ≤ (ofRat q).extended := by
  unfold ofRat
  split_ifs with hp hq hq
  · exact extended_ofMagnitude_anti (by linarith) (neg_le_neg h)
  · -- zero lies between the two
    have hzero : (ofMagnitude true 0).extended = (ofMagnitude false 0).extended := by
      decide +kernel
    exact (extended_ofMagnitude_anti le_rfl (by linarith)).trans
      (hzero.le.trans (extended_ofMagnitude_mono le_rfl (not_lt.mp hq)))
  · exact absurd (h.trans_lt hq) hp
  · exact extended_ofMagnitude_mono (not_lt.mp hp) h

/-! ### Integers of 64 bits -/

section Integers

variable {v w : ℤ}

theorem denotes_ofInt64 (hv : Fits64 v) : (ofInt v).Denotes (decide (v < 0)) (rounded |(v : ℚ)|) :=
  denotes_ofInt_rounded (hv.natAbs_le.trans (by decide))

theorem toRat_ofInt_mono (hv : Fits64 v) (hw : Fits64 w) (h : v ≤ w) :
    (ofInt v).toRat ≤ (ofInt w).toRat := by
  have hmono : (ofInt v).extended ≤ (ofInt w).extended := extended_ofRat_mono (Int.cast_le.mpr h)
  rw [(denotes_ofInt64 hv).extended_eq, (denotes_ofInt64 hw).extended_eq] at hmono
  exact WithTop.coe_le_coe.mp (WithBot.coe_le_coe.mp hmono)

/-- The sign of an integer is that of the double. -/
theorem toRat_ofInt_neg_iff (hv : Fits64 v) : (ofInt v).toRat < 0 ↔ v < 0 := by
  constructor
  · contrapose!
    intro hsign
    have hzero : (ofInt 0).toRat = 0 := by decide +kernel
    exact hzero.ge.trans (toRat_ofInt_mono (by decide) hv hsign)
  · intro hneg
    have hone : (ofInt (-1)).toRat = -1 := by decide +kernel
    have hle := toRat_ofInt_mono hv (w := -1) (by decide) (by omega)
    linarith

end Integers

end DyadicNet.Binary64
