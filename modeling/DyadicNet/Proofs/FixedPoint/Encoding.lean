import Mathlib
import DyadicNet.Proofs.FixedPoint.Range

/-!
# Encoding is rounding to the nearest codeword

The encoder decides between four cases by comparisons of doubles and assembles a codeword by
subtraction and masking.  All four cases together compute **one function**: the codeword of
`Format.nearest`, the integer of the range that is nearest to the value.

Two observations carry the proof.  A codeword stands for an integer of the range as soon as its bits
agree with the integer modulo the width, so that each case only has to be compared modulo a power of
two.  And between the bounds no operation on doubles rounds: counting a value in last bits is a shift
of its exponent.

## Main Definitions

* `Represents` — bits that are the codeword of an integer.

## Main Statements

* `represents_maxCodeword`, `represents_minCodeword` — the codewords of the bounds;
* `toInt_roundEven_mul_units` — the number of last bits that the encoder computes;
* `encodeBits_beyond`, `encodeBits_between` — saturation and rounding;
* `encode_nearest` — encoding is total and nearest.
-/

namespace DyadicNet.FixedPoint

open Binary64

variable (format : Format)

/-! ### Bits and the integers they stand for -/

/-- `bits` has no bit outside the format, and is the codeword of the integer `k`. -/
structure Represents (bits : ℕ) (k : ℤ) : Prop where
  masked : bits &&& format.mask = bits
  toSigned_eq : toSigned format (BitVec.ofNat format.totalBits bits) = k

theorem and_mask (n : ℕ) : n &&& format.mask = n % twoPow format.totalBits :=
  Nat.and_two_pow_sub_one_eq_mod n format.totalBits

/-- Numbers that the mask does not change are those that have no bit outside the format. -/
theorem masked_iff {n : ℕ} : n &&& format.mask = n ↔ n < twoPow format.totalBits := by
  rw [and_mask, Nat.mod_eq_iff_lt (twoPow_pos _).ne']

/-- Bits that agree with an integer of the range modulo the width are its codeword. -/
theorem toSigned_ofNat {bits : ℕ} {k : ℤ} (hl : format.least ≤ k) (hg : k ≤ format.greatest)
    (h : (bits : ℤ) % (twoPow format.totalBits : ℕ) = k % (twoPow format.totalBits : ℕ)) :
    toSigned format (BitVec.ofNat format.totalBits bits) = k := by
  unfold toSigned
  unfold Format.least at hl
  unfold Format.greatest at hg
  split_ifs at hl hg ⊢ with hs
  · have hdouble := format.twoPow_totalBits
    rw [BitVec.toInt_ofNat']
    change Int.bmod bits (twoPow format.totalBits) = k
    rw [← Int.emod_bmod, h, Int.emod_bmod]
    exact Int.bmod_eq_of_le_mul_two (by omega) (by omega)
  · rw [BitVec.toNat_ofNat]
    change ((bits % twoPow format.totalBits : ℕ) : ℤ) = k
    push_cast
    rw [h]
    exact Int.emod_eq_of_lt hl (by omega)

/-- An integer of the range that is not negative is its own codeword. -/
theorem represents_natCast {n : ℕ} (h : (n : ℤ) ≤ format.greatest) : Represents format n n := by
  refine ⟨?_, toSigned_ofNat format (by have := format.least_nonpos; omega) h rfl⟩
  rw [masked_iff]
  have hhalf := twoPow_le_twoPow (Nat.sub_le format.totalBits 1)
  unfold Format.greatest at h
  split_ifs at h <;> omega

/-- The two's complement of a magnitude is the codeword of its opposite. -/
theorem represents_neg {n : ℕ} (h : (n : ℤ) ≤ -format.least) :
    Represents format ((twoPow format.totalBits - n) &&& format.mask) (-n) := by
  have hle : n ≤ twoPow format.totalBits := by
    have hhalf := twoPow_le_twoPow (Nat.sub_le format.totalBits 1)
    unfold Format.least at h
    split_ifs at h <;> omega
  refine ⟨?_, toSigned_ofNat format (by omega) (by have := format.greatest_nonneg; omega) ?_⟩
  · rw [and_mask, and_mask, Nat.mod_mod]
  · rw [and_mask]
    push_cast [Nat.cast_sub hle]
    rw [Int.emod_emod_of_dvd _ dvd_rfl, sub_eq_add_neg, Int.add_emod_left]

theorem represents_maxCodeword : Represents format format.maxCodeword format.greatest := by
  have hcode : (format.maxCodeword : ℤ) = format.greatest := by
    have hdouble := format.twoPow_totalBits
    have hpos := twoPow_pos (format.totalBits - 1)
    unfold Format.maxCodeword Format.greatest Format.mask
    split_ifs <;> omega
  exact hcode ▸ represents_natCast format hcode.le

theorem represents_minCodeword : Represents format format.minCodeword format.least := by
  have hdouble := format.twoPow_totalBits
  have hpos := twoPow_pos (format.totalBits - 1)
  by_cases hs : format.signed = true
  · have hleast : format.least = -(twoPow (format.totalBits - 1) : ℕ) := if_pos hs
    have hcode : (twoPow format.totalBits - twoPow (format.totalBits - 1)) &&& format.mask
        = format.minCodeword := by
      rw [and_mask, Nat.mod_eq_of_lt (by omega), Format.minCodeword, if_pos hs]
      omega
    rw [hleast, ← hcode]
    exact represents_neg format (by omega)
  · have hleast : format.least = ((0 : ℕ) : ℤ) := if_neg hs
    have hcode : format.minCodeword = 0 := if_neg hs
    rw [hleast, hcode]
    exact represents_natCast format format.greatest_nonneg

/-! ### Counting in last bits -/

/-- Unless the product overflows, counting a value in last bits is exact. -/
theorem denotes_mul_units {value : Binary64} {s : Bool} {q : ℚ} (h : value.Denotes s q)
    (hmax : q * 2 ^ (format.fracBits : ℤ) < 2 ^ (1024 : ℤ)) :
    (value * format.unitsPerOne).Denotes s (q * 2 ^ (format.fracBits : ℤ)) := by
  have hproduct := h.mul format.denotes_unitsPerOne (h.isMagnitude.mul_zpow (by omega) hmax)
  rwa [Bool.bne_false] at hproduct

/-- The number of last bits that the encoder computes, brought into a range of machine integers. -/
theorem toInt_roundEven_mul_units {value : Binary64} {s : Bool} {q : ℚ} (h : value.Denotes s q)
    (hmax : q * 2 ^ (format.fracBits : ℤ) < 2 ^ (1024 : ℤ)) (lo hi : ℤ) :
    (value * format.unitsPerOne).roundEven.toInt lo hi
      = clampInt lo hi (roundHalfEven (value.toRat * 2 ^ (format.fracBits : ℤ))) := by
  have hproduct := denotes_mul_units format h hmax
  rw [toInt_roundEven hproduct.isFinite, hproduct.toRat_eq, h.toRat_eq]
  cases s
  · rfl
  · rw [if_pos rfl, if_pos rfl, neg_mul]

/-! ### The encoder -/

/-- Beyond the bounds the encoder saturates, and so does `Format.nearest`. -/
theorem encodeBits_beyond {value : Binary64} (h : value.isFinite = true)
    (hout : format.greatest * format.step < value.toRat ∨ value.toRat < format.least * format.step) :
    ∃ bits, encodeBits format value = .ok bits ∧ Represents format bits (format.nearest value) := by
  have hv := denotes_self h
  rw [format.nearest_of_isFinite h]
  rcases hout with habove | hbelow
  · refine ⟨format.maxCodeword, ?_, ?_⟩
    · have hlt := (format.denotes_maxValue.lt_iff hv).mpr (format.toRat_maxValue ▸ habove)
      rw [encodeBits, hv.isNaN_eq, hlt]
      rfl
    · rw [clampInt_of_ge format.least_le_greatest
        (le_roundHalfEven (format.le_mul_units_iff.mpr habove.le))]
      exact represents_maxCodeword format
  · refine ⟨format.minCodeword, ?_, ?_⟩
    · have hlt := (hv.lt_iff format.denotes_minValue).mpr (format.toRat_minValue ▸ hbelow)
      have hmax : format.maxValue.lt value = false := by
        rw [format.denotes_maxValue.lt_eq_false hv, format.toRat_maxValue]
        exact hbelow.le.trans format.least_mul_step_le
      rw [encodeBits, hv.isNaN_eq, hmax, hlt]
      rfl
    · rw [clampInt_of_le (roundHalfEven_le (format.mul_units_le_iff.mpr hbelow.le))]
      exact represents_minCodeword format

/-- A value between the bounds counts fewer last bits than a codeword has values, which is far from
overflowing. -/
theorem mul_units_lt_of_between {value : Binary64} (h : value.isFinite = true)
    (hmin : format.least * format.step ≤ value.toRat)
    (hmax : value.toRat ≤ format.greatest * format.step) :
    value.magnitude * 2 ^ (format.fracBits : ℤ) < 2 ^ (1024 : ℤ) := by
  have hlow : -((twoPow 32 : ℕ) : ℚ) ≤ value.toRat * 2 ^ (format.fracBits : ℤ) := by
    refine le_trans ?_ (format.le_mul_units_iff.mpr hmin)
    have := format.neg_least_le
    exact_mod_cast (by omega : -(twoPow 32 : ℤ) ≤ format.least)
  have hhigh : value.toRat * 2 ^ (format.fracBits : ℤ) ≤ (twoPow 32 : ℕ) :=
    (format.mul_units_le_iff.mpr hmax).trans (by exact_mod_cast format.greatest_lt.le)
  have habs := abs_le.mpr ⟨hlow, hhigh⟩
  rw [abs_mul, (denotes_self h).abs_toRat, abs_of_pos (zpow_two_pos _), cast_twoPow] at habs
  exact habs.trans_lt (zpow_lt_zpow_right₀ one_lt_two (by norm_num))

/-- Between the bounds the encoder rounds: a negative value through the two's complement of its
magnitude, any other value as it is. -/
theorem encodeBits_between {value : Binary64} (h : value.isFinite = true)
    (hmin : format.least * format.step ≤ value.toRat)
    (hmax : value.toRat ≤ format.greatest * format.step) :
    ∃ bits, encodeBits format value = .ok bits ∧ Represents format bits (format.nearest value) := by
  have hv := denotes_self h
  have hsmall := mul_units_lt_of_between format h hmin hmax
  have hleast := format.neg_least_le
  have hgreatest := format.greatest_lt
  have hroundLow := le_roundHalfEven (format.le_mul_units_iff.mpr hmin)
  have hroundHigh := roundHalfEven_le (format.mul_units_le_iff.mpr hmax)
  have hmaxValue : format.maxValue.lt value = false := by
    rwa [format.denotes_maxValue.lt_eq_false hv, format.toRat_maxValue]
  have hminValue : value.lt format.minValue = false := by
    rwa [hv.lt_eq_false format.denotes_minValue, format.toRat_minValue]
  have hzero := hv.lt_iff (denotes_zero false)
  rw [(denotes_zero false).toRat_pos] at hzero
  rw [format.nearest_of_isFinite h, clampInt_eq_self hroundLow hroundHigh]
  -- the sign decides which of two conversions to a count of units is used
  by_cases hneg : value.toRat < 0
  · have hround : roundHalfEven (value.toRat * 2 ^ (format.fracBits : ℤ)) ≤ 0 :=
      roundHalfEven_le (mul_nonpos_of_nonpos_of_nonneg (by exact_mod_cast hneg.le)
        (zpow_two_pos _).le)
    obtain ⟨n, hn⟩ := Int.eq_ofNat_of_zero_le (neg_nonneg.mpr hround)
    have htoRat : value.abs.toRat = -value.toRat := by
      rw [hv.abs.toRat_pos, ← hv.abs_toRat, abs_of_neg hneg]
    have hcount : (value.abs * format.unitsPerOne).roundEven.toInt 0 (twoPow 64 - 1) = n := by
      -- the count of a negative value goes through a wider type, which it does not fill
      have hwide : twoPow 32 ≤ twoPow 64 - 1 := by decide
      rw [toInt_roundEven_mul_units format hv.abs hsmall, htoRat, neg_mul, roundHalfEven_neg, hn]
      exact clampInt_eq_self (by omega) (by omega)
    refine ⟨(twoPow format.totalBits - n) &&& format.mask, ?_, ?_⟩
    · rw [encodeBits, hv.isNaN_eq, hmaxValue, hminValue, hzero.mpr hneg, hcount]
      rfl
    · rw [show roundHalfEven (value.toRat * 2 ^ (format.fracBits : ℤ)) = -(n : ℤ) by omega]
      exact represents_neg format (by omega)
  · have hround := roundHalfEven_nonneg
      (mul_nonneg (not_lt.mp hneg) (zpow_two_pos (format.fracBits : ℤ)).le)
    obtain ⟨n, hn⟩ := Int.eq_ofNat_of_zero_le hround
    have hcount : (value * format.unitsPerOne).roundEven.toInt 0 (twoPow 32 - 1) = n := by
      rw [toInt_roundEven_mul_units format hv hsmall, hn]
      exact clampInt_eq_self (by omega) (by omega)
    refine ⟨n, ?_, ?_⟩
    · rw [encodeBits, hv.isNaN_eq, hmaxValue, hminValue, Bool.eq_false_iff.mpr (mt hzero.mp hneg),
        hcount]
      rfl
    · rw [hn]
      exact represents_natCast format (by omega)

/-- The encoder finds the codeword of the nearest integer of the range. -/
theorem exists_encodeBits {value : Binary64} (h : value.isNaN = false) :
    ∃ bits, encodeBits format value = .ok bits ∧ Represents format bits (format.nearest value) := by
  cases value with
  | nan => cases h
  | infinity negative =>
    cases negative with
    | false =>
      refine ⟨format.maxCodeword, ?_, represents_maxCodeword format⟩
      rw [encodeBits, format.denotes_maxValue.lt_infinity]
      rfl
    | true =>
      refine ⟨format.minCodeword, ?_, represents_minCodeword format⟩
      rw [encodeBits, format.denotes_maxValue.lt_infinity, format.denotes_minValue.infinity_lt]
      rfl
  | finite negative m e hc =>
    set value : Binary64 := .finite negative m e hc
    have hfin : value.isFinite = true := rfl
    by_cases habove : format.greatest * format.step < value.toRat
    · exact encodeBits_beyond format hfin (.inl habove)
    by_cases hbelow : value.toRat < format.least * format.step
    · exact encodeBits_beyond format hfin (.inr hbelow)
    exact encodeBits_between format hfin (not_lt.mp hbelow) (not_lt.mp habove)

/-- No bits that the encoder gives are outside the format. -/
theorem masked_of_encodeBits {value : Binary64} {bits : ℕ}
    (h : encodeBits format value = .ok bits) : bits &&& format.mask = bits := by
  have hnumber : value.isNaN = false := by
    rw [← Bool.not_eq_true]
    intro hnan
    unfold encodeBits at h
    rw [if_pos hnan] at h
    cases h
  obtain ⟨bits', hbits', hrep⟩ := exists_encodeBits format hnumber
  obtain rfl := Except.ok.inj (h.symm.trans hbits')
  exact hrep.masked

/-- The codeword that the encoder gives stands for the nearest integer of the range. -/
theorem exists_encode {value : Binary64} (h : value.isNaN = false) :
    ∃ code, encode format value = .ok code ∧ toSigned format code = format.nearest value := by
  obtain ⟨bits, hbits, hrep⟩ := exists_encodeBits format h
  refine ⟨BitVec.ofNat format.totalBits bits, ?_, hrep.toSigned_eq⟩
  unfold encode
  rw [hbits]
  rfl

/-- **Encoding is total and nearest.**  Every double but *not a number* has a codeword, with no bit
outside the format, and it stands for the integer of the range that is nearest to the double. -/
theorem encode_nearest (value : Binary64) (h : value.isNaN = false) :
    ∃ bits, encodeBits format value = .ok bits ∧ bits &&& format.mask = bits ∧
      encode format value = .ok (BitVec.ofNat format.totalBits bits) ∧
      toSigned format (BitVec.ofNat format.totalBits bits) = format.nearest value := by
  obtain ⟨bits, hbits, hrep⟩ := exists_encodeBits format h
  refine ⟨bits, hbits, hrep.masked, ?_, hrep.toSigned_eq⟩
  rw [encode, hbits]
  rfl

/-- Two and a half last bits below zero go to the even codeword. -/
theorem encode_nearest_tie :
    let format : Format := ⟨4, 4, true, by decide, by decide, by decide⟩
    let value : Binary64 := .finite true (5 * twoPow 50) (-55) (by decide)
    value.isNaN = false ∧ format.nearest value = -2 ∧
      ∃ bits, encodeBits format value = .ok bits ∧ bits &&& format.mask = bits ∧
        encode format value = .ok (BitVec.ofNat format.totalBits bits) ∧
        toSigned format (BitVec.ofNat format.totalBits bits) = format.nearest value :=
  ⟨rfl, by decide +kernel, encode_nearest _ _ rfl⟩

end DyadicNet.FixedPoint
