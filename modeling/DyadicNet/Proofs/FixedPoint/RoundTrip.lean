import Mathlib
import DyadicNet.Proofs.FixedPoint.Encoding

/-!
# Quantizing doubles

Quantizing never leaves the doubles: it multiplies, rounds, divides and clamps.  The codec takes the
way through integers and saturates before it rounds.  **Both ways meet**, and they meet in the integer
`Format.nearest`: every result is that many last bits.

The bound that makes this work is again the width.  Whatever the product of a value and a power of
two does, exact or infinite, what is inside the range after rounding has at most 33 bits and is divided
exactly; what is outside is replaced by a bound.  A value on the grid passes through all four steps
unchanged, sign included, which is idempotence.

## Main Definitions

* `OnGrid` — the doubles of a format.

## Main Statements

* `quantize_of_onGrid` — a value of the format is fixed;
* `quantize_spec` — the value of a quantized double;
* `decode_spec` — the value of a decoded codeword;
* `quantize_roundTrip` — decoding what was encoded is quantizing, within the bounds, idempotent and
  monotone.
-/

namespace DyadicNet.FixedPoint

open Binary64

variable (format : Format)

/-- `value` is a double of the format: it counts `n` last bits, and `n` is in the range. -/
structure OnGrid (value : Binary64) (n : ℤ) : Prop where
  isFinite : value.isFinite = true
  toRat_eq : value.toRat = n * format.step
  least_le : format.least ≤ n
  le_greatest : n ≤ format.greatest

namespace OnGrid

variable {format} {value other : Binary64} {m n : ℤ}

theorem minValue_le (h : OnGrid format value n) : format.minValue.le value = true := by
  rw [format.denotes_minValue.le_iff (denotes_self h.isFinite), format.toRat_minValue, h.toRat_eq]
  exact mul_le_mul_of_nonneg_right (by exact_mod_cast h.least_le) format.step_pos.le

theorem le_maxValue (h : OnGrid format value n) : value.le format.maxValue = true := by
  rw [(denotes_self h.isFinite).le_iff format.denotes_maxValue, format.toRat_maxValue, h.toRat_eq]
  exact mul_le_mul_of_nonneg_right (by exact_mod_cast h.le_greatest) format.step_pos.le

theorem le_of_le (hm : OnGrid format value m) (hn : OnGrid format other n) (h : m ≤ n) :
    value.le other = true := by
  rw [(denotes_self hm.isFinite).le_iff (denotes_self hn.isFinite), hm.toRat_eq, hn.toRat_eq]
  exact mul_le_mul_of_nonneg_right (by exact_mod_cast h) format.step_pos.le

theorem eq_of_eq (hm : OnGrid format value n) (hn : OnGrid format other n) :
    value.eq other = true := by
  rw [(denotes_self hm.isFinite).eq_iff (denotes_self hn.isFinite), hm.toRat_eq, hn.toRat_eq]

end OnGrid

/-! ### The four steps -/

/-- Rounding to the grid before the clamp: the integer nearest to the number of last bits. -/
theorem denotes_rounded {value : Binary64} {s : Bool} {q : ℚ} (h : value.Denotes s q)
    (hmax : q * 2 ^ (format.fracBits : ℤ) < 2 ^ (1024 : ℤ)) :
    ((value * format.unitsPerOne).roundEven / format.unitsPerOne).Denotes s
      ((roundHalfEven (q * 2 ^ (format.fracBits : ℤ)) : ℤ) * format.step) := by
  have hrounded := (denotes_mul_units format h hmax).roundEven
  have hnonneg : 0 ≤ roundHalfEven (q * 2 ^ (format.fracBits : ℤ)) :=
    roundHalfEven_nonneg (mul_nonneg h.nonneg (zpow_two_pos _).le)
  have hf := format.fracBits_le
  obtain ⟨n, hn⟩ := Int.eq_ofNat_of_zero_le hnonneg
  rw [hn, Int.cast_natCast] at hrounded ⊢
  have hquot : (n : ℚ) / 2 ^ (format.fracBits : ℤ) = n * format.step := by
    rw [Format.step, zpow_neg, div_eq_mul_inv]
  have hmag : IsMagnitude (n * format.step) :=
    hrounded.isMagnitude.natCast_mul_zpow (by omega) (by omega)
  rw [← hquot] at hmag ⊢
  have := hrounded.div format.denotes_unitsPerOne (zpow_two_ne_zero _) hmag
  rwa [Bool.bne_false] at this

theorem onGrid_minValue : OnGrid format format.minValue format.least :=
  ⟨format.denotes_minValue.isFinite, format.toRat_minValue, le_rfl, format.least_le_greatest⟩

theorem onGrid_maxValue : OnGrid format format.maxValue format.greatest :=
  ⟨format.denotes_maxValue.isFinite, format.toRat_maxValue, format.least_le_greatest, le_rfl⟩

/-- The clamp of doubles is the clamp of the numbers of last bits. -/
theorem onGrid_clamp {value : Binary64} {n : ℤ} (h : value.isFinite = true)
    (hval : value.toRat = n * format.step) :
    OnGrid format (value.clamp format.minValue format.maxValue)
      (clampInt format.least format.greatest n) := by
  have hv := denotes_self h
  have hmin : value.lt format.minValue = true ↔ n < format.least := by
    rw [hv.lt_iff format.denotes_minValue, format.toRat_minValue, hval,
      mul_lt_mul_iff_of_pos_right format.step_pos, Int.cast_lt]
  have hmax : format.maxValue.lt value = true ↔ format.greatest < n := by
    rw [format.denotes_maxValue.lt_iff hv, format.toRat_maxValue, hval,
      mul_lt_mul_iff_of_pos_right format.step_pos, Int.cast_lt]
  unfold Binary64.clamp
  split_ifs with hbelow habove
  · rw [clampInt_of_le (hmin.mp hbelow).le]
    exact onGrid_minValue format
  · rw [clampInt_of_ge format.least_le_greatest (hmax.mp habove).le]
    exact onGrid_maxValue format
  · have hl := not_lt.mp (mt hmin.mpr hbelow)
    have hg := not_lt.mp (mt hmax.mpr habove)
    rw [clampInt_eq_self hl hg]
    exact ⟨h, hval, hl, hg⟩

/-- An infinity survives the first three steps and is clamped to the bound on its side. -/
theorem quantize_of_mul_eq_infinity {value : Binary64} {negative : Bool}
    (h : value * format.unitsPerOne = .infinity negative) :
    OnGrid format (quantize format value)
      (if negative then format.least else format.greatest) := by
  have hdiv := format.denotes_unitsPerOne.infinity_div negative
  rw [Bool.bne_false] at hdiv
  have hround : (infinity negative).roundEven = .infinity negative := rfl
  rw [quantize, h, hround, hdiv]
  unfold Binary64.clamp
  cases negative with
  | true =>
    rw [format.denotes_minValue.infinity_lt]
    exact onGrid_minValue format
  | false =>
    rw [format.denotes_minValue.infinity_lt, format.denotes_maxValue.lt_infinity]
    exact onGrid_maxValue format

/-! ### The two ways -/

/-- A product that overflows belongs to a value beyond the bound on its side. -/
theorem nearest_of_overflow {value : Binary64} (h : value.isFinite = true)
    (hmax : (2 : ℚ) ^ (1024 : ℤ) ≤ value.magnitude * 2 ^ (format.fracBits : ℤ)) :
    format.nearest value = if value.isNegative then format.least else format.greatest := by
  have hv := denotes_self h
  have hbig : ((twoPow 32 : ℕ) : ℚ) ≤ value.magnitude * 2 ^ (format.fracBits : ℤ) := by
    refine le_trans ?_ hmax
    rw [cast_twoPow]
    exact zpow_le_zpow_right₀ one_le_two (by norm_num)
  rw [format.nearest_of_isFinite h, hv.toRat_eq]
  split_ifs with hneg
  · apply clampInt_of_le
    have hle : -(value.magnitude * 2 ^ (format.fracBits : ℤ)) ≤ format.least := by
      refine (neg_le_neg hbig).trans ?_
      have := format.neg_least_le
      exact_mod_cast (by omega : -(twoPow 32 : ℤ) ≤ format.least)
    rw [neg_mul]
    exact roundHalfEven_le hle
  · apply clampInt_of_ge format.least_le_greatest
    refine le_roundHalfEven (le_trans ?_ hbig)
    exact_mod_cast format.greatest_lt.le

/-- Quantizing gives the nearest integer of the range, counted in last bits. -/
theorem quantize_spec {value : Binary64} (h : value.isNaN = false) :
    OnGrid format (quantize format value) (format.nearest value) := by
  cases value with
  | nan => cases h
  | infinity negative =>
    have hmul := format.denotes_unitsPerOne.infinity_mul (zpow_two_ne_zero _) negative
    rw [Bool.bne_false] at hmul
    exact quantize_of_mul_eq_infinity format hmul
  | finite negative m e hc =>
    set value : Binary64 := .finite negative m e hc
    have hfin : value.isFinite = true := rfl
    have hv := denotes_self hfin
    by_cases hmax : (2 : ℚ) ^ (1024 : ℤ) ≤ value.magnitude * 2 ^ (format.fracBits : ℤ)
    · have hmul := hv.mul_eq_infinity format.denotes_unitsPerOne hmax
      rw [Bool.bne_false] at hmul
      rw [nearest_of_overflow format hfin hmax]
      exact quantize_of_mul_eq_infinity format hmul
    · have hrounded := denotes_rounded format hv (not_le.mp hmax)
      rw [format.nearest_of_isFinite hfin]
      refine onGrid_clamp format hrounded.isFinite ?_
      rw [hrounded.toRat_eq, hv.toRat_eq]
      split_ifs
      · rw [neg_mul, roundHalfEven_neg, Int.cast_neg, neg_mul]
      · rfl

/-- A value of the format passes through all four steps unchanged, with its sign. -/
theorem quantize_of_onGrid {value : Binary64} {n : ℤ} (h : OnGrid format value n) :
    quantize format value = value := by
  have hv := denotes_self h.isFinite
  have hunits : value.magnitude * 2 ^ (format.fracBits : ℤ) = (|n| : ℤ) := by
    rw [← hv.abs_toRat, h.toRat_eq, abs_mul, abs_of_pos format.step_pos, mul_assoc,
      Format.step, ← zpow_two_add, neg_add_cancel, zpow_zero, mul_one, Int.cast_abs]
  have hsmall : ((|n| : ℤ) : ℚ) < 2 ^ (1024 : ℤ) := by
    have hle : |n| ≤ twoPow 32 := by
      have := h.least_le
      have := h.le_greatest
      have := format.neg_least_le
      have := format.greatest_lt
      exact abs_le.mpr ⟨by omega, by omega⟩
    calc ((|n| : ℤ) : ℚ) ≤ (twoPow 32 : ℕ) := by exact_mod_cast hle
      _ = 2 ^ (32 : ℤ) := cast_twoPow 32
      _ < 2 ^ (1024 : ℤ) := zpow_lt_zpow_right₀ one_lt_two (by norm_num)
  -- a whole number of units is rounded to itself, so only the bounds are left
  have hrounded := denotes_rounded format hv (hunits ▸ hsmall)
  rw [hunits, roundHalfEven_intCast] at hrounded
  have hmag : ((|n| : ℤ) : ℚ) * format.step = value.magnitude := by
    rw [← hv.abs_toRat, h.toRat_eq, abs_mul, abs_of_pos format.step_pos, Int.cast_abs]
  rw [hmag] at hrounded
  have hfixed := hrounded.unique hv
  rw [quantize, hfixed, Binary64.clamp]
  have hmin : value.lt format.minValue = false := by
    rw [hv.lt_eq_false format.denotes_minValue,
      ← format.denotes_minValue.le_iff hv]
    exact h.minValue_le
  have hmax : format.maxValue.lt value = false := by
    rw [format.denotes_maxValue.lt_eq_false hv, ← hv.le_iff format.denotes_maxValue]
    exact h.le_maxValue
  rw [hmin, hmax]
  rfl

/-- The product of a short integer with the weight of the last bit is exact. -/
theorem denotes_ofInt_mul_lsb {n : ℤ} (h : n.natAbs ≤ twoPow 53) :
    (ofInt n * format.lsb).Denotes (decide (n < 0)) (|(n : ℚ)| * format.step) := by
  have hf := format.fracBits_le
  have hint := denotes_ofInt h
  have hmagnitude : IsMagnitude (|(n : ℚ)| * format.step) := by
    rw [abs_cast_eq] at hint ⊢
    exact hint.isMagnitude.natCast_mul_zpow (by omega) (by omega)
  have hproduct := hint.mul format.denotes_lsb hmagnitude
  rwa [Bool.bne_false] at hproduct

/-- The integers of a format are short. -/
theorem natAbs_le_of_range {n : ℤ} (hl : format.least ≤ n) (hg : n ≤ format.greatest) :
    n.natAbs ≤ twoPow 32 := by
  have hleast := format.neg_least_le
  have hgreatest := format.greatest_lt
  omega

/-- Decoding a codeword gives its integer, counted in last bits. -/
theorem decode_spec {code : Codeword format} {n : ℤ} (h : toSigned format code = n)
    (hl : format.least ≤ n) (hg : n ≤ format.greatest) : OnGrid format (decode format code) n := by
  have hvalue := denotes_ofInt_mul_lsb format
    ((natAbs_le_of_range format hl hg).trans (twoPow_le_twoPow (by decide)))
  unfold decode
  rw [h]
  exact ⟨hvalue.isFinite, hvalue.toRat_of_sign, hl, hg⟩

/-- Numbers without bits outside the format are codewords, and only these. -/
theorem codeword?_eq_ok_iff {bits : ℕ} {code : Codeword format} :
    codeword? format bits = .ok code ↔ bits &&& format.mask = bits ∧
      BitVec.ofNat format.totalBits bits = code := by
  rw [masked_iff]
  unfold codeword?
  split_ifs with hlt
  · simp [hlt]
  · exact ⟨nofun, fun hcode => absurd hcode.1 hlt⟩

/-- The codeword that the bits of a number are has a value. -/
theorem decodeBits_of_masked {bits : ℕ} (h : bits &&& format.mask = bits) :
    decodeBits format bits = .ok (decode format (BitVec.ofNat format.totalBits bits)) := by
  unfold decodeBits
  rw [(codeword?_eq_ok_iff format).mpr ⟨h, rfl⟩]
  rfl

/-- **Decoding what was encoded is quantizing.**  For every double but *not a number* both succeed and
give equal values, within the bounds of the format.  The quantized value is fixed by quantizing again,
sign of zero included, and a larger double has no smaller one. -/
theorem quantize_roundTrip (value : Binary64) (h : value.isNaN = false) :
    (∃ bits decoded, encodeBits format value = .ok bits ∧ decodeBits format bits = .ok decoded ∧
      decoded.eq (quantize format value) = true ∧ quantize format decoded = decoded) ∧
    format.minValue.le (quantize format value) = true ∧
    (quantize format value).le format.maxValue = true ∧
    quantize format (quantize format value) = quantize format value ∧
    ∀ other : Binary64, value.le other = true →
      (quantize format value).le (quantize format other) = true := by
  have hgrid := quantize_spec format h
  refine ⟨?_, hgrid.minValue_le, hgrid.le_maxValue, quantize_of_onGrid format hgrid, ?_⟩
  · obtain ⟨bits, hbits, hrep⟩ := exists_encodeBits format h
    have hdecode := decode_spec format hrep.toSigned_eq hgrid.least_le hgrid.le_greatest
    exact ⟨bits, _, hbits, decodeBits_of_masked format hrep.masked, hdecode.eq_of_eq hgrid,
      quantize_of_onGrid format hdecode⟩
  · intro other hle
    have hother : other.isNaN = false := by
      cases other with
      | nan => cases value <;> simp [Binary64.le, Binary64.lt, compare?] at hle
      | infinity => rfl
      | finite => rfl
    exact hgrid.le_of_le (quantize_spec format hother) (format.nearest_mono hle)

/-- A value that underflows keeps the sign of its zero in doubles, and equals the zero that comes back
from its codeword. -/
theorem quantize_roundTrip_underflow :
    let format : Format := ⟨1, 31, true, by decide, by decide, by decide⟩
    let value : Binary64 := .finite true 1 (-1074) (by decide)
    value.isNaN = false ∧ value.le (.infinity false) = true ∧
      quantize format value = .zero true ∧
      (∃ bits decoded, encodeBits format value = .ok bits ∧ decodeBits format bits = .ok decoded ∧
        decoded.eq (quantize format value) = true ∧ quantize format decoded = decoded) ∧
      (quantize format value).le (quantize format (.infinity false)) = true :=
  ⟨rfl, by decide +kernel, by decide +kernel, (quantize_roundTrip _ _ rfl).1,
    (quantize_roundTrip _ _ rfl).2.2.2.2 _ (by decide +kernel)⟩

end DyadicNet.FixedPoint
