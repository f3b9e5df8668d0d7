import Mathlib
import DyadicNet.FixedPoint.SignedPower
import DyadicNet.Proofs.Binary64.Difference
import DyadicNet.Proofs.Binary64.Logarithm
import DyadicNet.Proofs.Binary64.Order

/-!
# Snapping is a projection

A double is snapped to a power of two by its logarithm.  The logarithm of most numbers is rounded, and
how well depends on who computes it.  **That snapping is a projection does not depend on this**: what
it gives is a power of two with an exponent in the range, and all that is needed to get this power
back is that its own logarithm is exact.

## Main Definitions

* `IsLogarithm` — what is needed of a logarithm;
* `SignedPower.Snapped` — what snapping a number gives.

## Main Statements

* `toInt_clamp_roundEven`, `toInt_clamp_infinity` — logarithms brought into the range;
* `SignedPower.nearestBy?_of_denotes` — snapping a power of two;
* `SignedPower.nearest?_projection` — snapping any number.
-/

namespace DyadicNet

namespace Binary64

/-! ### Integers as doubles -/

variable {n least greatest lo hi : ℤ} {x : Binary64}

theorem toRat_ofInt (h : n.natAbs ≤ twoPow 53) : (ofInt n).toRat = n :=
  toRat_ofRat (abs_cast_eq n ▸ isMagnitude_natCast h)

theorem toInt_ofInt (h : n.natAbs ≤ twoPow 53) : (ofInt n).toInt lo hi = clampInt lo hi n := by
  have hvalue := denotes_ofInt h
  rw [abs_cast_eq] at hvalue
  rw [hvalue.toInt]
  congr 1
  split_ifs with hneg
  · have hsign := of_decide_eq_true hneg
    omega
  · have hsign := of_decide_eq_false (Bool.not_eq_true _ ▸ hneg)
    omega

section Range

variable (hlo : lo ≤ least) (hle : least ≤ greatest) (hhi : greatest ≤ hi)
  (hleast : least.natAbs ≤ twoPow 53) (hgreatest : greatest.natAbs ≤ twoPow 53)
include hlo hle hhi hleast hgreatest

/-- A finite number is rounded to an integer, and that is kept in the range. -/
theorem toInt_clamp_roundEven (hx : x.isFinite = true) :
    (x.roundEven.clamp (ofInt least) (ofInt greatest)).toInt lo hi
      = clampInt least greatest (roundHalfEven x.toRat) := by
  have hrounded := (denotes_self hx).roundEven
  have hbelow : x.roundEven.lt (ofInt least) = true ↔ roundHalfEven x.toRat < least := by
    rw [hrounded.lt_iff (denotes_ofInt hleast), toRat_roundEven hx, toRat_ofInt hleast, Int.cast_lt]
  have habove : (ofInt greatest).lt x.roundEven = true ↔ greatest < roundHalfEven x.toRat := by
    rw [(denotes_ofInt hgreatest).lt_iff hrounded, toRat_roundEven hx, toRat_ofInt hgreatest,
      Int.cast_lt]
  unfold Binary64.clamp
  split_ifs with hb ha
  · rw [toInt_ofInt hleast, clampInt_of_le (hbelow.mp hb).le, clampInt_eq_self hlo (by omega)]
  · rw [toInt_ofInt hgreatest, clampInt_of_ge hle (habove.mp ha).le, clampInt_eq_self (by omega) hhi]
  · have hl := not_lt.mp (mt hbelow.mpr hb)
    have hg := not_lt.mp (mt habove.mpr ha)
    rw [toInt_roundEven hx, clampInt_eq_self hl hg, clampInt_eq_self (by omega) (by omega)]

/-- An infinite one goes to the end of the range that is on its side. -/
theorem toInt_clamp_infinity (negative : Bool) :
    ((infinity negative).roundEven.clamp (ofInt least) (ofInt greatest)).toInt lo hi
      = if negative then least else greatest := by
  show ((infinity negative).clamp _ _).toInt lo hi = _
  unfold Binary64.clamp
  rw [(denotes_ofInt hleast).infinity_lt, (denotes_ofInt hgreatest).lt_infinity]
  cases negative with
  | true =>
    rw [if_pos rfl, if_pos rfl, toInt_ofInt hleast, clampInt_eq_self hlo (by omega)]
  | false =>
    rw [if_neg Bool.false_ne_true, if_pos (by rfl), if_neg Bool.false_ne_true, toInt_ofInt hgreatest,
      clampInt_eq_self (by omega) hhi]

/-- Whatever number it is, the integer is in the range. -/
theorem toInt_clamp_mem (hx : x.isNaN = false) :
    least ≤ (x.roundEven.clamp (ofInt least) (ofInt greatest)).toInt lo hi ∧
      (x.roundEven.clamp (ofInt least) (ofInt greatest)).toInt lo hi ≤ greatest := by
  cases x with
  | nan => cases hx
  | infinity negative =>
    rw [toInt_clamp_infinity hlo hle hhi hleast hgreatest]
    split_ifs
    · exact ⟨le_rfl, hle⟩
    · exact ⟨hle, le_rfl⟩
  | finite negative m e hc =>
    rw [toInt_clamp_roundEven hlo hle hhi hleast hgreatest rfl]
    exact ⟨le_clampInt _ _ _, clampInt_le hle _⟩

end Range

/-- What is needed of a logarithm: exponents of powers of two are exact, and every positive number has
a logarithm, which may be infinite. -/
structure IsLogarithm (log : Binary64 → Binary64) : Prop where
  isFinite_power : ∀ (x : Binary64) (e : ℤ), x.Denotes false (2 ^ e) → (log x).isFinite = true
  toRat_power : ∀ (x : Binary64) (e : ℤ), x.Denotes false (2 ^ e) → (log x).toRat = e
  isNaN_eq : ∀ x : Binary64, (zero false).lt x = true → (log x).isNaN = false

theorem isLogarithm_log2 : IsLogarithm log2 := by
  have hexponent : ∀ (x : Binary64) (e : ℤ), x.Denotes false (2 ^ e) → e.natAbs ≤ twoPow 53 := by
    intro x e hx
    have hrange := hx.exponent_bounds
    have h53 : twoPow 53 = 9007199254740992 := by decide
    omega
  refine ⟨?_, ?_, ?_⟩
  · intro x e hx
    rw [hx.log2_eq]
    exact (denotes_ofInt (hexponent x e hx)).isFinite
  · intro x e hx
    rw [hx.log2_eq, toRat_ofInt (hexponent x e hx)]
  · intro x hpos
    cases x with
    | nan => cases hpos
    | infinity negative =>
      cases negative with
      | false => rfl
      | true => cases hpos
    | finite negative m e hc =>
      have hvalue := denotes_finite negative hc
      rw [(denotes_zero false).lt_iff hvalue, (denotes_zero false).toRat_pos] at hpos
      exact (denotes_self (logarithm_bounds rfl hpos).1).isNaN_eq

/-- A number that is not zero has a positive magnitude. -/
theorem zero_lt_abs (hx : x.isNaN = false) (hzero : ¬x.IsZero) : (zero false).lt x.abs = true := by
  cases x with
  | nan => cases hx
  | infinity negative => rfl
  | finite negative m e hc =>
    have hvalue := (denotes_finite negative hc).abs
    rw [← abs_le_zero_iff, hvalue.le_iff (denotes_zero false), not_le] at hzero
    rwa [(denotes_zero false).lt_iff hvalue]

/-- The numbers below zero. -/
theorem lt_zero_iff (hx : x.isNaN = false) :
    x.lt (zero false) = true ↔ x.extended < ((0 : ℚ) : WithTop ℚ) := by
  rw [lt_iff_extended hx rfl, (denotes_zero false).extended_eq, (denotes_zero false).toRat_pos]

end Binary64

namespace FixedPoint.SignedPower

open Binary64

variable {log : Binary64 → Binary64} {value : Binary64} {least greatest e : ℤ} {s : Bool}

/-- What `snap` gives for a number: a power with an exponent in the range and the sign of the number,
which is exactly a double and is snapped to itself.  A number that is such a power already is not
changed. -/
structure Snapped (snap : Binary64 → Except Error SignedPower) (least greatest : ℤ)
    (value : Binary64) (power : SignedPower) : Prop where
  snap_eq : snap value = .ok power
  least_le : least ≤ power.exponent
  le_greatest : power.exponent ≤ greatest
  negative_iff : power.negative = true ↔ value.extended < ((0 : ℚ) : WithTop ℚ)
  denotes_value : power.value.Denotes power.negative (2 ^ power.exponent)
  snap_value : snap power.value = .ok power
  value_eq : ∀ (s : Bool) (e : ℤ), value.Denotes s (2 ^ e) → least ≤ e → e ≤ greatest →
    power.value = value

/-- The value of a signed power is a double. -/
theorem denotes_value {power : SignedPower} (hlow : -1023 ≤ power.exponent)
    (hhigh : power.exponent ≤ 1023) :
    power.value.Denotes power.negative (2 ^ power.exponent) := by
  have hmagnitude := denotes_powerOfTwo hlow hhigh
  unfold value
  cases power.negative with
  | false => exact hmagnitude
  | true => exact hmagnitude.neg

section Range

variable (hlow : -1023 ≤ least) (hle : least ≤ greatest) (hhigh : greatest ≤ 1023)
include hlow hle hhigh

/-- The ends of the range are exact as doubles and as words of 32 bits. -/
theorem range_exact :
    signedMin 32 ≤ least ∧ greatest ≤ signedMax 32 ∧ least.natAbs ≤ twoPow 53 ∧
      greatest.natAbs ≤ twoPow 53 := by
  have hword : signedMin 32 = -2147483648 ∧ signedMax 32 = 2147483647 := by decide
  have h53 : twoPow 53 = 9007199254740992 := by decide
  omega

/-- **A power of two is snapped to the power with the exponent kept in the range.** -/
theorem nearestBy?_of_denotes (hlog : IsLogarithm log) (h : value.Denotes s (2 ^ e)) :
    nearestBy? log value least greatest = .ok ⟨s, clampInt least greatest e⟩ := by
  have hzero : value.eq (zero false) = false := by
    rw [← Bool.not_eq_true, h.eq_iff (denotes_zero false), (denotes_zero false).toRat_pos,
      ← abs_eq_zero, h.abs_toRat]
    exact zpow_two_ne_zero e
  have hsign : value.lt (zero false) = s := by
    rw [Bool.eq_iff_iff, h.lt_iff (denotes_zero false), (denotes_zero false).toRat_pos, h.toRat_eq]
    have hpos := zpow_two_pos e
    cases s <;> simp [hpos, hpos.le]
  obtain ⟨hlo, hhi, hleast, hgreatest⟩ := range_exact hlow hle hhigh
  unfold nearestBy?
  rw [if_neg (by omega), h.isNaN_eq, if_neg Bool.false_ne_true, hzero, if_neg Bool.false_ne_true,
    hsign, toInt_clamp_roundEven hlo hle hhi hleast hgreatest
      (hlog.isFinite_power _ _ h.abs), hlog.toRat_power _ _ h.abs, roundHalfEven_intCast]

/-- A number of any size is snapped to a power with an exponent in the range. -/
theorem exists_nearestBy? (hlog : IsLogarithm log) (hvalue : value.isNaN = false) :
    ∃ exponent, nearestBy? log value least greatest = .ok ⟨value.lt (zero false), exponent⟩ ∧
      least ≤ exponent ∧ exponent ≤ greatest := by
  obtain ⟨hlo, hhi, hleast, hgreatest⟩ := range_exact hlow hle hhigh
  unfold nearestBy?
  rw [if_neg (by omega), hvalue, if_neg Bool.false_ne_true]
  refine ⟨_, rfl, ?_⟩
  split_ifs with hzero
  · exact ⟨le_rfl, hle⟩
  · exact toInt_clamp_mem hlo hle hhi hleast hgreatest
      (hlog.isNaN_eq _ (zero_lt_abs hvalue hzero))

/-- Snapping by any logarithm. -/
theorem exists_snapped (hlog : IsLogarithm log) (hvalue : value.isNaN = false) :
    ∃ power, Snapped (nearestBy? log · least greatest) least greatest value power := by
  obtain ⟨exponent, hsnap, hleast, hgreatest⟩ := exists_nearestBy? hlow hle hhigh hlog hvalue
  let power : SignedPower := ⟨value.lt (zero false), exponent⟩
  have hdenotes : power.value.Denotes power.negative (2 ^ power.exponent) :=
    denotes_value (hlow.trans hleast) (hgreatest.trans hhigh)
  refine ⟨power, hsnap, hleast, hgreatest, lt_zero_iff hvalue, hdenotes, ?_, ?_⟩
  · exact (nearestBy?_of_denotes hlow hle hhigh hlog hdenotes).trans
      (by rw [clampInt_eq_self hleast hgreatest])
  · intro s e h hl hg
    have hpower := nearestBy?_of_denotes hlow hle hhigh hlog h
    rw [hsnap, clampInt_eq_self hl hg] at hpower
    obtain ⟨rfl, rfl⟩ := SignedPower.mk.inj (Except.ok.inj hpower)
    exact hdenotes.unique h

/-- **Snapping is a projection.**  Let the range of exponents lie between `-1023` and `1023`.  Every
double that is a number, zero and the infinities included, is snapped to a power of two with an
exponent in the range, negative exactly if the number is below zero.  The double that stands for this
power is exact, and snapping it gives the power back; powers with an exponent in the range are not
changed.  Of the logarithm, only those of powers of two have to be exact; the others may be any
numbers. -/
theorem nearest?_projection (hvalue : value.isNaN = false) :
    (∃ power, Snapped (nearest? · least greatest) least greatest value power) ∧
      ∀ log, IsLogarithm log →
        ∃ power, Snapped (nearestBy? log · least greatest) least greatest value power :=
  ⟨exists_snapped hlow hle hhigh isLogarithm_log2 hvalue,
    fun _ hlog => exists_snapped hlow hle hhigh hlog hvalue⟩

end Range

/-- The least subnormal number below zero, in the widest range. -/
theorem nearest?_projection_subnormal :
    ((-1023 : ℤ) ≤ -1023 ∧ (-1023 : ℤ) ≤ 1023 ∧ (1023 : ℤ) ≤ 1023 ∧
        (ofRat (-(2 ^ (-1074 : ℤ)))).isNaN = false ∧ IsLogarithm log2) ∧
      nearest? (ofRat (-(2 ^ (-1074 : ℤ)))) (-1023) 1023 = .ok ⟨true, -1023⟩ ∧
      (SignedPower.value ⟨true, -1023⟩).Denotes true (2 ^ (-1023 : ℤ)) ∧
      nearest? (SignedPower.value ⟨true, -1023⟩) (-1023) 1023 = .ok ⟨true, -1023⟩ := by
  have hvalue : (ofRat (-(2 ^ (-1074 : ℤ)))).isNaN = false := by decide +kernel
  have hsnap : nearest? (ofRat (-(2 ^ (-1074 : ℤ)))) (-1023) 1023 = .ok ⟨true, -1023⟩ := by
    decide +kernel
  have hrange : (-1023 : ℤ) ≤ 1023 := by decide
  obtain ⟨-, hany⟩ := nearest?_projection le_rfl hrange le_rfl hvalue
  obtain ⟨power, hpower⟩ := hany log2 isLogarithm_log2
  obtain rfl : (⟨true, -1023⟩ : SignedPower) = power :=
    Except.ok.inj (hsnap.symm.trans hpower.snap_eq)
  exact ⟨⟨le_rfl, hrange, le_rfl, hvalue, isLogarithm_log2⟩, hsnap, hpower.denotes_value, hpower.snap_value⟩

end FixedPoint.SignedPower

end DyadicNet
