import Mathlib
import DyadicNet.Binary64.Bits
import DyadicNet.Proofs.Binary64.Arithmetic

/-!
# Powers of two and their words

A power of two is seen on its word.  A normal one has **an empty fraction**, and its exponent is the
exponent field without the bias; a subnormal one has an empty exponent field and **a single bit in the
fraction**, whose position counts from the least exponent of all.  The exact logarithm of a double
speaks of its significand instead.  Here the two are compared, word by word, and both with the number
that a word stands for in the interchange format.

## Main Definitions

* `exponentField`, `fractionField` — the fields of a word below its sign;
* `encoded?` — the number that a word stands for;
* `wordLog2?` — the exponent of a power of two, read off its word.

## Main Statements

* `encoded?_eq_some_iff` — reading a word gives the double of the number it stands for;
* `wordLog2?_eq` — the masks and shifts of `wordLog2?` give the fields;
* `exactLog2_ofBits` — the exact logarithm can be read off the word;
* `exactLog2_exact` — **it recognizes exactly the powers of two, among all words.**
-/

namespace DyadicNet.Binary64

variable {word : UInt64} {q : ℚ}

/-! ### What a word stands for -/

/-- The eleven bits of the exponent, with the bias. -/
def exponentField (word : UInt64) : ℕ :=
  word.toNat / twoPow 52 % twoPow 11

/-- The 52 bits of the significand that are stored. -/
def fractionField (word : UInt64) : ℕ :=
  word.toNat % twoPow 52

/-- The number that a word stands for.  Above a significand without an integer part stands the least
exponent; an exponent field of all ones stands for no number. -/
def encoded? (word : UInt64) : Option ℚ :=
  let signed := fun magnitude : ℚ => if twoPow 63 ≤ word.toNat then -magnitude else magnitude
  let fraction : ℚ := fractionField word / 2 ^ 52
  if exponentField word = 2047 then none
  else if exponentField word = 0 then some (signed (fraction * 2 ^ (-1022 : ℤ)))
  else some (signed ((1 + fraction) * 2 ^ ((exponentField word : ℤ) - 1023)))

theorem fractionField_lt (word : UInt64) : fractionField word < twoPow 52 :=
  Nat.mod_lt _ (twoPow_pos 52)

theorem exponentField_lt_of_ne (h : exponentField word ≠ 2047) : exponentField word < 2047 := by
  have hlt : exponentField word < 2048 := Nat.mod_lt _ (twoPow_pos 11)
  omega

/-- A word with an empty exponent field is read as a number without the implied bit. -/
theorem ofBits_of_subnormal (h : exponentField word = 0) :
    ofBits word = .finite (decide (twoPow 63 ≤ word.toNat)) (fractionField word) (-1074)
      (canonical_of_zero_field (fractionField_lt word)) := by
  unfold ofBits
  exact dif_pos h

/-- A word with other exponent bits than all or none is read as a number with the implied bit. -/
theorem ofBits_of_normal (hlow : exponentField word ≠ 0) (hhigh : exponentField word < 2047) :
    ofBits word = .finite (decide (twoPow 63 ≤ word.toNat)) (twoPow 52 + fractionField word)
      ((exponentField word : ℤ) - 1075)
      (canonical_of_field (fractionField_lt word) hlow hhigh) := by
  unfold ofBits
  exact (dif_neg hlow).trans (dif_neg hhigh.ne)

/-- A word with all exponent bits is read as an infinity or as *not a number*. -/
theorem isFinite_ofBits_of_special (h : exponentField word = 2047) :
    (ofBits word).isFinite = false := by
  have hlow : exponentField word ≠ 0 := by omega
  have hread : ofBits word
      = if fractionField word = 0 then .infinity (decide (twoPow 63 ≤ word.toNat)) else .nan := by
    unfold ofBits
    exact (dif_neg hlow).trans (dif_pos h)
  rw [hread]
  split_ifs <;> rfl

/-- A significand as a fraction, and as an integer. -/
theorem div_mul_zpow (m : ℚ) (d : ℤ) : m / 2 ^ 52 * 2 ^ d = m * 2 ^ (d - 52) := by
  rw [zpow_two_sub, div_mul_eq_mul_div, mul_div_assoc]
  norm_cast

/-- **Reading a word gives the double of the number that it stands for.** -/
theorem encoded?_eq_some_iff :
    encoded? word = some q ↔ (ofBits word).isFinite = true ∧ (ofBits word).toRat = q := by
  unfold encoded?
  dsimp only
  by_cases hspecial : exponentField word = 2047
  · rw [if_pos hspecial, isFinite_ofBits_of_special hspecial]
    exact ⟨nofun, nofun⟩
  rw [if_neg hspecial]
  by_cases hsubnormal : exponentField word = 0
  · have hvalue := denotes_finite (decide (twoPow 63 ≤ word.toNat))
      (canonical_of_zero_field (fractionField_lt word))
    rw [← ofBits_of_subnormal hsubnormal] at hvalue
    rw [if_pos hsubnormal, Option.some.injEq, div_mul_zpow, hvalue.toRat_eq]
    simp [hvalue.isFinite]
  · have hnormal := exponentField_lt_of_ne hspecial
    have hvalue := denotes_finite (decide (twoPow 63 ≤ word.toNat))
      (canonical_of_field (fractionField_lt word) hsubnormal hnormal)
    rw [← ofBits_of_normal hsubnormal hnormal] at hvalue
    have hone : (1 : ℚ) + fractionField word / 2 ^ 52
        = (twoPow 52 + fractionField word : ℕ) / 2 ^ 52 := by
      rw [Nat.cast_add, cast_twoPow, add_div]
      norm_num
    rw [if_neg hsubnormal, Option.some.injEq, hone, div_mul_zpow, sub_sub, hvalue.toRat_eq]
    simp [hvalue.isFinite]

/-! ### The exponent in a word -/

/-- The exponent of a power of two, read off its word.  The sign is masked out, a shift gives the
exponent field and a mask the fraction; in a fraction of a subnormal number only one bit may be set. -/
def wordLog2? (word : UInt64) : Option ℤ :=
  let bits := word &&& 0x7fffffffffffffff
  let field := (bits >>> 52).toNat
  let fraction := (bits &&& 0x000fffffffffffff).toNat
  if field = 2047 ∨ bits = 0 then none
  else if field = 0 then
    match fraction.bitIndices with
    | [position] => some ((position : ℤ) - 1023 + 1 - 52)
    | _ => none
  else if fraction = 0 then some ((field : ℤ) - 1023)
  else none

/-- A number with a single bit is a power of two. -/
theorem bitIndices_eq_singleton_iff {n k : ℕ} : n.bitIndices = [k] ↔ n = twoPow k := by
  rw [twoPow_eq]
  constructor
  · intro h
    rw [← Nat.sum_map_two_pow_bitIndices n, h, List.map_singleton, List.sum_singleton]
  · rintro rfl
    exact Nat.bitIndices_two_pow k

/-- The sign is the first bit. -/
theorem toNat_and_magnitude (word : UInt64) :
    (word &&& 0x7fffffffffffffff).toNat = word.toNat % twoPow 63 := by
  rw [UInt64.toNat_and]
  exact Nat.and_two_pow_sub_one_eq_mod word.toNat 63

theorem toNat_shiftRight_magnitude (word : UInt64) :
    ((word &&& 0x7fffffffffffffff) >>> 52).toNat = exponentField word := by
  rw [UInt64.toNat_shiftRight, toNat_and_magnitude]
  show (word.toNat % (twoPow 52 * twoPow 11)) >>> 52 = exponentField word
  rw [Nat.shiftRight_eq_div_pow]
  exact Nat.mod_mul_right_div_self _ _ _

theorem toNat_and_fraction (word : UInt64) :
    (word &&& 0x7fffffffffffffff &&& 0x000fffffffffffff).toNat = fractionField word := by
  rw [UInt64.toNat_and, toNat_and_magnitude]
  show word.toNat % twoPow 63 &&& (2 ^ 52 - 1) = word.toNat % twoPow 52
  rw [Nat.and_two_pow_sub_one_eq_mod, ← twoPow_eq]
  exact Nat.mod_mod_of_dvd _ ⟨twoPow 11, rfl⟩

/-- The masks and the shift give the fields. -/
theorem wordLog2?_eq (word : UInt64) :
    wordLog2? word =
      if exponentField word = 2047 ∨ exponentField word = 0 ∧ fractionField word = 0 then none
      else if exponentField word = 0 then
        match (fractionField word).bitIndices with
        | [position] => some ((position : ℤ) - 1023 + 1 - 52)
        | _ => none
      else if fractionField word = 0 then some ((exponentField word : ℤ) - 1023)
      else none := by
  have hzero : word &&& 0x7fffffffffffffff = 0 ↔
      exponentField word = 0 ∧ fractionField word = 0 := by
    rw [← UInt64.toNat_inj, toNat_and_magnitude, exponentField, fractionField]
    show word.toNat % 9223372036854775808 = 0 ↔
      word.toNat / 4503599627370496 % 2048 = 0 ∧ word.toNat % 4503599627370496 = 0
    omega
  unfold wordLog2?
  simp only [toNat_shiftRight_magnitude, toNat_and_fraction, hzero]

/-- A subnormal power of two has one bit. -/
theorem exactLog2_of_subnormal (h : exponentField word = 0) :
    (ofBits word).exactLog2 =
      match (fractionField word).bitIndices with
      | [position] => some ((position : ℤ) - 1023 + 1 - 52)
      | _ => none := by
  rw [ofBits_of_subnormal h]
  split
  · next position hindices =>
    have hpower := bitIndices_eq_singleton_iff.mp hindices
    have hlog : (fractionField word).log2 = position := by
      rw [hpower]
      exact Nat.log2_two_pow
    have hne : fractionField word ≠ 0 := hpower ▸ (twoPow_pos position).ne'
    rw [exactLog2, hlog, if_pos ⟨hne, hpower⟩]
    congr 1
    omega
  · next hmany => exact if_neg fun h => hmany _ (bitIndices_eq_singleton_iff.mpr h.2)

/-- A normal power of two has only the implied bit. -/
theorem exactLog2_of_normal (hlow : exponentField word ≠ 0) (hhigh : exponentField word < 2047) :
    (ofBits word).exactLog2 =
      if fractionField word = 0 then some ((exponentField word : ℤ) - 1023) else none := by
  have hpos := twoPow_pos 52
  have hlog : (twoPow 52 + fractionField word).log2 = 52 := by
    refine (Nat.log2_eq_iff (by omega)).mpr ⟨Nat.le_add_right _ _, ?_⟩
    calc twoPow 52 + fractionField word < twoPow 52 + twoPow 52 :=
          Nat.add_lt_add_left (fractionField_lt word) _
      _ = 2 ^ (52 + 1) := (Nat.two_mul _).symm
  rw [ofBits_of_normal hlow hhigh, exactLog2, hlog]
  refine if_congr (by omega) ?_ rfl
  congr 1
  omega

/-- **The exact logarithm can be read off the word.** -/
theorem exactLog2_ofBits (word : UInt64) : (ofBits word).exactLog2 = wordLog2? word := by
  rw [wordLog2?_eq]
  by_cases hspecial : exponentField word = 2047
  · have hfinite := isFinite_ofBits_of_special hspecial
    rw [if_pos (.inl hspecial)]
    generalize ofBits word = x at hfinite
    cases x with
    | finite s m e h => cases hfinite
    | infinity s => rfl
    | nan => rfl
  by_cases hsubnormal : exponentField word = 0
  · rw [exactLog2_of_subnormal hsubnormal, if_pos hsubnormal]
    by_cases hzero : fractionField word = 0
    · rw [if_pos (.inr ⟨hsubnormal, hzero⟩), hzero, Nat.bitIndices_zero]
    · rw [if_neg (not_or.mpr ⟨hspecial, fun h => hzero h.2⟩)]
  · rw [exactLog2_of_normal hsubnormal (exponentField_lt_of_ne hspecial), if_neg hsubnormal,
      if_neg (not_or.mpr ⟨hspecial, fun h => hsubnormal h.1⟩)]

/-- **The exact logarithm recognizes exactly the powers of two.**  For every word, it is an exponent
exactly if the word stands for a number and its magnitude is two to that exponent; it is there at all
exactly if there is such an exponent; and it is what the masks and shifts read off the word. -/
theorem exactLog2_exact (word : UInt64) :
    (∀ e : ℤ, (ofBits word).exactLog2 = some e ↔ ∃ q ∈ encoded? word, |q| = 2 ^ e) ∧
      ((ofBits word).isPowerOfTwo = true ↔ ∃ e : ℤ, ∃ q ∈ encoded? word, |q| = 2 ^ e) ∧
      (ofBits word).exactLog2 = wordLog2? word := by
  have hexact : ∀ e : ℤ,
      (ofBits word).exactLog2 = some e ↔ ∃ q ∈ encoded? word, |q| = 2 ^ e := by
    intro e
    rw [exactLog2_eq_some_iff]
    constructor
    · rintro ⟨hfinite, hmagnitude⟩
      refine ⟨_, encoded?_eq_some_iff.mpr ⟨hfinite, rfl⟩, ?_⟩
      rw [(denotes_self hfinite).abs_toRat, hmagnitude]
    · rintro ⟨_, hencoded, habs⟩
      obtain ⟨hfinite, rfl⟩ := encoded?_eq_some_iff.mp hencoded
      exact ⟨hfinite, (denotes_self hfinite).abs_toRat ▸ habs⟩
  refine ⟨hexact, ?_, exactLog2_ofBits word⟩
  rw [isPowerOfTwo, Option.isSome_iff_exists]
  exact exists_congr hexact

-- minus the least subnormal number, and three times this number
example : wordLog2? 0x8000000000000001 = some (-1074) := by decide +kernel

example : wordLog2? 0x8000000000000003 = none := by decide +kernel

end DyadicNet.Binary64
