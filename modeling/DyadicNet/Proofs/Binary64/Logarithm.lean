import Mathlib
import DyadicNet.Binary64.Log2
import DyadicNet.Proofs.Binary64.Arithmetic

/-!
# Where logarithms lie

The digits of a logarithm come from repeated squaring, and how good they are depends on how many are
computed.  Three things do not.  What the digits make up is **a fraction below one**, and it is added
to the exponent of the leading bit; so the logarithm of a positive double is a finite number between
the least and the greatest exponent that doubles have.  And the fraction of a power of two is zero,
for one stays one under squaring: **the logarithm of a power of two is its exponent.**

## Main Statements

* `logFraction_nonneg`, `logFraction_lt_one` — the digits make up a fraction;
* `logarithm_bounds` — finite logarithms, and where they lie;
* `Denotes.log2_eq` — logarithms of powers of two.
-/

namespace DyadicNet.Binary64

/-! ### The digits -/

/-- Each digit at most doubles the number that the digits make up, and adds one. -/
theorem logDigits_lt (y digits count : ℕ) :
    (logDigits y digits count).1 < (digits + 1) * twoPow count := by
  induction count generalizing y digits with
  | zero => simp [logDigits]
  | succ count ih =>
    rw [logDigits]
    split_ifs
    · calc (logDigits _ (2 * digits + 1) count).1 < (2 * digits + 1 + 1) * twoPow count := ih _ _
        _ = (digits + 1) * twoPow (count + 1) := by rw [twoPow_succ]; ring
    · calc (logDigits _ (2 * digits) count).1 < (2 * digits + 1) * twoPow count := ih _ _
        _ ≤ (2 * digits + 1 + 1) * twoPow count := Nat.mul_le_mul_right _ (Nat.le_succ _)
        _ = (digits + 1) * twoPow (count + 1) := by rw [twoPow_succ]; ring

/-- The fraction of a logarithm is a number of parts of a power of two that is less than all. -/
theorem exists_logFraction_eq (m : ℕ) :
    ∃ parts < twoPow (digitCount + 1), logFraction m = parts / twoPow (digitCount + 1) := by
  -- the function is replaced as a whole: comparing its values would compute symbolic digits
  obtain ⟨fraction, hfraction⟩ : ∃ fraction, fraction = logFraction := ⟨_, rfl⟩
  rw [← hfraction]
  delta logFraction at hfraction
  subst hfraction
  extract_lets one
  have hlt := logDigits_lt (m * one / twoPow m.log2) 0 digitCount
  beta_reduce
  generalize logDigits (m * one / twoPow m.log2) 0 digitCount = result at hlt ⊢
  obtain ⟨digits, rest⟩ := result
  rw [zero_add, one_mul] at hlt
  refine ⟨2 * digits + if rest = one then 0 else 1, ?_, ?_⟩
  · rw [twoPow_succ]
    split_ifs <;> omega
  · dsimp only
    rw [Rat.mkRat_eq_div]
    push_cast
    rfl

theorem logFraction_nonneg (m : ℕ) : 0 ≤ logFraction m := by
  obtain ⟨parts, -, hfraction⟩ := exists_logFraction_eq m
  rw [hfraction]
  positivity

theorem logFraction_lt_one (m : ℕ) : logFraction m < 1 := by
  obtain ⟨parts, hparts, hfraction⟩ := exists_logFraction_eq m
  have hpos : (0 : ℚ) < (twoPow (digitCount + 1) : ℕ) := by exact_mod_cast twoPow_pos _
  rw [hfraction, div_lt_one hpos]
  exact_mod_cast hparts

/-! ### The logarithm -/

variable {x : Binary64} {q : ℚ}

/-- The integer part of the logarithm of a significand with an exponent is one of an exponent. -/
theorem leadingPlace_bounds {m : ℕ} {e : ℤ} (h : Canonical m e) (hm : m ≠ 0) :
    -1074 ≤ e + m.log2 ∧ e + m.log2 ≤ 1023 := by
  have hbits : m.log2 < 53 := (Nat.log2_lt hm).mpr h.1
  have hlow := h.2.1
  have hhigh := h.2.2.1
  omega

/-- Numbers between two integers of up to 53 bits stay between them when they are rounded. -/
theorem ofRat_bounds (low high : ℕ) (hlow : low ≤ twoPow 53) (hhigh : high ≤ twoPow 53)
    (hl : -(low : ℚ) ≤ q) (hh : q ≤ high) :
    (ofRat q).isFinite = true ∧ -(low : ℚ) ≤ (ofRat q).toRat ∧ (ofRat q).toRat ≤ high := by
  unfold ofRat
  split_ifs with hsign
  · obtain ⟨r, hr, hvalue⟩ := exists_denotes_ofMagnitude true (isMagnitude_natCast hlow)
      (show 0 ≤ -q by linarith) (by linarith)
    have hnonneg := hvalue.nonneg
    have hhigh : (0 : ℚ) ≤ high := Nat.cast_nonneg high
    rw [hvalue.toRat_eq, if_pos rfl]
    exact ⟨hvalue.isFinite, by linarith, by linarith⟩
  · obtain ⟨r, hr, hvalue⟩ := exists_denotes_ofMagnitude false (isMagnitude_natCast hhigh)
      (not_lt.mp hsign) hh
    have hnonneg := hvalue.nonneg
    have hlow : (0 : ℚ) ≤ low := Nat.cast_nonneg low
    rw [hvalue.toRat_pos]
    exact ⟨hvalue.isFinite, by linarith, hr⟩

/-- A positive number has no sign. -/
theorem denotes_of_pos (hx : x.isFinite = true) (hpos : 0 < x.toRat) :
    x.Denotes false x.toRat := by
  have hvalue := denotes_self hx
  have hsign : x.isNegative = false := by
    rw [← Bool.not_eq_true]
    intro hneg
    rw [hvalue.toRat_eq, if_pos hneg] at hpos
    linarith [hvalue.nonneg]
  rw [hsign] at hvalue
  rwa [hvalue.toRat_pos]

/-- **The logarithm of a positive number is finite**, and not beyond the exponents of doubles. -/
theorem logarithm_bounds (hx : x.isFinite = true) (hpos : 0 < x.toRat) :
    x.log2.isFinite = true ∧ -1074 ≤ x.log2.toRat ∧ x.log2.toRat ≤ 1024 := by
  have hvalue := denotes_of_pos hx hpos
  obtain ⟨negative, m, e, hc, rfl⟩ := exists_finite hx
  obtain rfl : negative = false := hvalue.isNegative
  have hm : m ≠ 0 := by
    rintro rfl
    rw [(denotes_finite false hc).toRat_pos] at hpos
    simp at hpos
  obtain ⟨hlow, hhigh⟩ := leadingPlace_bounds hc hm
  have hlow' : (-1074 : ℚ) ≤ ((e + m.log2 : ℤ) : ℚ) := by exact_mod_cast hlow
  have hhigh' : ((e + m.log2 : ℤ) : ℚ) ≤ 1023 := by exact_mod_cast hhigh
  have hfraction := logFraction_nonneg m
  have hfraction' := logFraction_lt_one m
  have hlog : log2 (.finite false m e hc) = ofRat ((e + m.log2 : ℤ) + logFraction m) := by
    show (if m = 0 then _ else if false = true then _ else _) = _
    rw [if_neg hm, if_neg Bool.false_ne_true]
  rw [hlog]
  have hbounds := ofRat_bounds 1074 1024 (q := (e + m.log2 : ℤ) + logFraction m) (by decide)
    (by decide) (by push_cast at *; linarith) (by push_cast at *; linarith)
  simpa using hbounds

/-! ### Powers of two -/

/-- One stays one under squaring, and has no digits. -/
theorem logDigits_one (digits count : ℕ) :
    logDigits (twoPow workingBits) digits count
      = (digits * twoPow count, twoPow workingBits) := by
  have hpos := twoPow_pos workingBits
  induction count generalizing digits with
  | zero => simp [logDigits]
  | succ count ih =>
    rw [logDigits, Nat.mul_div_cancel _ hpos, if_neg (by rw [twoPow_succ]; omega), ih, twoPow_succ]
    congr 1
    ring

/-- **The logarithm of a power of two has no fraction.** -/
theorem logFraction_eq_zero {m : ℕ} (h : m = twoPow m.log2) : logFraction m = 0 := by
  obtain ⟨fraction, hfraction⟩ : ∃ fraction, fraction = logFraction := ⟨_, rfl⟩
  rw [← hfraction]
  delta logFraction at hfraction
  subst hfraction
  extract_lets one
  have hone : m * one / twoPow m.log2 = one := by
    rw [← h, Nat.mul_div_cancel_left _ (h ▸ twoPow_pos _)]
  beta_reduce
  rw [hone, logDigits_one]
  simp [one]

/-- The logarithm of a power of two is its exponent. -/
theorem Denotes.log2_eq {e : ℤ} (h : x.Denotes false (2 ^ e)) : x.log2 = ofInt e := by
  have hexact := h.exactLog2
  obtain ⟨negative, m, d, hc, rfl⟩ := exists_finite h.isFinite
  obtain rfl : negative = false := h.isNegative
  unfold Binary64.exactLog2 at hexact
  dsimp only at hexact
  split_ifs at hexact with hpower
  obtain rfl := Option.some_inj.mp hexact
  show (if m = 0 then _ else if false = true then _ else _) = _
  rw [if_neg hpower.1, if_neg Bool.false_ne_true, logFraction_eq_zero hpower.2, add_zero]
  rfl

end DyadicNet.Binary64
