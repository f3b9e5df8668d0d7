import Mathlib
import DyadicNet.Proofs.FixedPoint.RoundTrip

/-!
# Codewords come back

A codeword can be taken as an integer, as a double and as a text, and is found again from each of
them.  For integers this is a matter of two facts: the codewords stand for integers **of the
range**, and the integer that low bits are taken from is met again **modulo the width**.  A range of
the width has no two integers that are congruent, so between the codewords and the range nothing is
lost in either direction, the least integer of a signed format, which has no opposite, included.

## Main Definitions

* `binaryValue` — the number that binary digits are read as.

## Main Statements

* `toSigned_ofSigned_modEq` — an integer and the codeword of its low bits;
* `ofSigned_toSigned`, `toSigned_ofSigned` — codewords and the integers of the range;
* `binaryValue_bitsText` — the text of a codeword is read back;
* `encodeBits_decodeBits` — a codeword is the one that its value is encoded as.
-/

namespace DyadicNet.FixedPoint

open Binary64

variable (format : Format)

/-! ### Integers -/

/-- What a codeword stands for is in the range. -/
theorem toSigned_mem_range (code : Codeword format) :
    format.least ≤ toSigned format code ∧ toSigned format code ≤ format.greatest := by
  unfold toSigned Format.least Format.greatest
  split_ifs with hs
  · have hdouble := format.twoPow_totalBits
    have hlow : -(twoPow format.totalBits : ℤ) ≤ 2 * code.toInt := by
      exact_mod_cast code.le_two_mul_toInt
    have hhigh : 2 * code.toInt < (twoPow format.totalBits : ℤ) := by
      exact_mod_cast code.two_mul_toInt_lt
    omega
  · have hlt : code.toNat < twoPow format.totalBits := code.isLt
    omega

/-- **The low bits of an integer determine it modulo the width.** -/
theorem toSigned_ofSigned_modEq (n : ℤ) :
    toSigned format (ofSigned format n) ≡ n [ZMOD 2 ^ format.totalBits] := by
  have hmodulus : (2 : ℤ) ^ format.totalBits = (2 ^ format.totalBits : ℕ) := by push_cast; rfl
  unfold Int.ModEq toSigned ofSigned
  rw [hmodulus]
  split_ifs
  · rw [BitVec.toInt_ofInt, Int.bmod_emod]
  · rw [BitVec.toNat_ofInt, Int.toNat_of_nonneg (Int.emod_nonneg _ (by positivity)), Int.emod_emod]

/-- A codeword has the low bits of the integer that it stands for. -/
theorem ofSigned_toSigned (code : Codeword format) :
    ofSigned format (toSigned format code) = code := by
  unfold toSigned ofSigned
  split_ifs
  · exact BitVec.ofInt_toInt
  · rw [BitVec.ofInt_natCast, BitVec.ofNat_toNat, BitVec.setWidth_eq]

/-- No two integers of the range are congruent modulo the width. -/
theorem eq_of_modEq_of_range {m n : ℤ} (hm : format.least ≤ m ∧ m ≤ format.greatest)
    (hn : format.least ≤ n ∧ n ≤ format.greatest) (h : m ≡ n [ZMOD 2 ^ format.totalBits]) :
    m = n := by
  have hmodulus : (2 : ℤ) ^ format.totalBits = (twoPow format.totalBits : ℕ) := by
    exact (Nat.cast_pow 2 format.totalBits).symm
  have hspan := format.greatest_sub_least
  have hclose : |m - n| < 2 ^ format.totalBits := by
    rw [abs_lt]
    omega
  have hzero := Int.eq_zero_of_abs_lt_dvd h.symm.dvd hclose
  omega

/-- **Every integer of the range is what the codeword of its low bits stands for.** -/
theorem toSigned_ofSigned {n : ℤ} (hl : format.least ≤ n) (hg : n ≤ format.greatest) :
    toSigned format (ofSigned format n) = n :=
  eq_of_modEq_of_range format (toSigned_mem_range format _) ⟨hl, hg⟩
    (toSigned_ofSigned_modEq format n)

/-! ### Texts -/

/-- The number that binary digits are read as, the highest first. -/
def binaryValue (digits : List Char) : ℕ :=
  digits.foldl (fun n digit => 2 * n + if digit = '1' then 1 else 0) 0

/-- The first bits of a codeword are what is left of it when the others are shifted out. -/
theorem binaryValue_take {width : ℕ} (code : BitVec width) {count : ℕ} (h : count ≤ width) :
    binaryValue ((List.range count).map fun i => if code.getMsbD i then '1' else '0')
      = code.toNat / 2 ^ (width - count) := by
  induction count with
  | zero => simp [binaryValue, Nat.div_eq_of_lt code.isLt]
  | succ count ih =>
    have hbit : (if (if code.getMsbD count then '1' else '0') = '1' then 1 else 0)
        = code.toNat / 2 ^ (width - (count + 1)) % 2 := by
      rw [BitVec.getMsbD, decide_eq_true (by omega), Bool.true_and, BitVec.getLsbD,
        Nat.testBit_eq_decide_div_mod_eq, show width - 1 - count = width - (count + 1) by omega]
      rcases Nat.mod_two_eq_zero_or_one (code.toNat / 2 ^ (width - (count + 1))) with h | h <;>
        rw [h] <;> rfl
    have hfront : code.toNat / 2 ^ (width - count)
        = code.toNat / 2 ^ (width - (count + 1)) / 2 := by
      rw [Nat.div_div_eq_div_mul, ← pow_succ, show width - (count + 1) + 1 = width - count by omega]
    have hih := ih (by omega)
    unfold binaryValue at hih ⊢
    rw [List.range_succ, List.map_append, List.foldl_append, hih, hfront, List.map_singleton,
      List.foldl_cons, List.foldl_nil, hbit]
    exact Nat.div_add_mod _ _

/-- **The text of a codeword has one binary digit for each bit**, and is read as the codeword. -/
theorem bitsText_spec (code : Codeword format) :
    (bitsText format code).length = format.totalBits ∧
      (∀ digit ∈ (bitsText format code).toList, digit = '0' ∨ digit = '1') ∧
      binaryValue (bitsText format code).toList = code.toNat := by
  unfold bitsText
  rw [String.toList_ofList]
  refine ⟨?_, ?_, ?_⟩
  · rw [String.length_ofList, List.length_map, List.length_range]
  · intro digit hdigit
    obtain ⟨i, -, rfl⟩ := List.mem_map.mp hdigit
    split_ifs
    · exact .inr rfl
    · exact .inl rfl
  · rw [binaryValue_take code le_rfl, Nat.sub_self, pow_zero, Nat.div_one]

/-! ### Values -/

/-- The integer nearest to a value of the grid is the one that it counts. -/
theorem OnGrid.nearest_eq {value : Binary64} {n : ℤ} (h : OnGrid format value n) :
    format.nearest value = n := by
  rw [format.nearest_of_isFinite h.isFinite, h.toRat_eq, format.mul_units_eq,
    mul_div_cancel_right₀ _ format.step_pos.ne', roundHalfEven_intCast,
    clampInt_eq_self h.least_le h.le_greatest]

/-- The value of a codeword counts the integer that the codeword stands for. -/
theorem onGrid_decode (code : Codeword format) :
    OnGrid format (decode format code) (toSigned format code) :=
  decode_spec format rfl (toSigned_mem_range format code).1 (toSigned_mem_range format code).2

/-- **The value of a codeword is encoded as the codeword.** -/
theorem encodeBits_decode (code : Codeword format) :
    encodeBits format (decode format code) = .ok code.toNat := by
  have hgrid := onGrid_decode format code
  obtain ⟨bits, hbits, hrep⟩ := exists_encodeBits format (denotes_self hgrid.isFinite).isNaN_eq
  have hcode : BitVec.ofNat format.totalBits bits = code := by
    rw [← ofSigned_toSigned format (BitVec.ofNat _ bits), hrep.toSigned_eq, hgrid.nearest_eq,
      ofSigned_toSigned]
  have hlt : bits < 2 ^ format.totalBits := (masked_iff format).mp hrep.masked
  rw [hbits, ← hcode, BitVec.toNat_ofNat, Nat.mod_eq_of_lt hlt]

theorem encode_decode (code : Codeword format) :
    encode format (decode format code) = .ok code := by
  unfold encode
  rw [encodeBits_decode]
  show Except.ok (BitVec.ofNat format.totalBits code.toNat) = _
  rw [BitVec.ofNat_toNat, BitVec.setWidth_eq]

/-- **Decoding and encoding again gives the same bits.** -/
theorem encodeBits_decodeBits {bits : ℕ} (h : bits &&& format.mask = bits) :
    ∃ value, decodeBits format bits = .ok value ∧ encodeBits format value = .ok bits := by
  refine ⟨_, decodeBits_of_masked format h, ?_⟩
  have hlt : bits < 2 ^ format.totalBits := (masked_iff format).mp h
  rw [encodeBits_decode, BitVec.toNat_ofNat, Nat.mod_eq_of_lt hlt]

end DyadicNet.FixedPoint
