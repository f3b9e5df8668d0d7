import Mathlib
import DyadicNet.Proofs.Binary64.Magnitude

/-!
# Exact arithmetic on doubles

`Denotes x s q` says that `x` is the finite double with sign `s` and magnitude `q`.  A double is
determined by these two, and every operation has one law: **if the exact result is a magnitude of a
double, the operation denotes it**.  The laws are stated on sign and magnitude and not on the
rational value, because a zero keeps its sign.

## Main Definitions

* `Denotes` — sign and magnitude of a finite double.

## Main Statements

* `Denotes.unique` — the double is determined by them;
* `Denotes.mul`, `Denotes.div`, `Denotes.sub`, `Denotes.roundEven` — the operations;
* `denotes_ofInt`, `denotes_powerOfTwo` — the constants;
* `exactLog2_eq_some_iff` — what the exact logarithm says;
* `denotes_clamp_powerOfTwo` — a power of two that is kept in an interval.
-/

namespace DyadicNet.Binary64

/-- `x` is the finite double with the given sign and magnitude. -/
structure Denotes (x : Binary64) (negative : Bool) (q : ℚ) : Prop where
  isFinite : x.isFinite = true
  isNegative : x.isNegative = negative
  magnitude : x.magnitude = q

variable {x y : Binary64} {s t : Bool} {p q : ℚ}

/-! ### A double and what it denotes -/

theorem denotes_finite (negative : Bool) {m : ℕ} {e : ℤ} (h : Canonical m e) :
    Denotes (.finite negative m e h) negative (m * 2 ^ e) :=
  ⟨rfl, rfl, rfl⟩

theorem denotes_self (h : x.isFinite = true) : Denotes x x.isNegative x.magnitude :=
  ⟨h, rfl, rfl⟩

theorem denotes_zero (negative : Bool) : Denotes (zero negative) negative 0 :=
  ⟨rfl, rfl, by simp [zero, Binary64.magnitude]⟩

/-- A finite double is given by its parts. -/
theorem exists_finite (h : x.isFinite = true) :
    ∃ (negative : Bool) (m : ℕ) (e : ℤ) (hc : Canonical m e), x = .finite negative m e hc := by
  cases x with
  | nan => cases h
  | infinity negative => cases h
  | finite negative m e hc => exact ⟨negative, m, e, hc, rfl⟩

namespace Denotes

theorem isMagnitude (h : Denotes x s q) : IsMagnitude q :=
  h.magnitude ▸ isMagnitude_magnitude x

theorem nonneg (h : Denotes x s q) : 0 ≤ q := by
  obtain ⟨m, e, -, rfl⟩ := h.isMagnitude
  exact mul_nonneg (Nat.cast_nonneg m) (zpow_two_pos e).le

/-- A finite double is the rounding of its own magnitude. -/
theorem eq_ofMagnitude (h : Denotes x s q) : x = ofMagnitude s q := by
  obtain ⟨hfin, rfl, rfl⟩ := h
  obtain ⟨negative, m, e, hc, rfl⟩ := exists_finite hfin
  exact (ofMagnitude_of_canonical negative hc).symm

/-- **Sign and magnitude determine a finite double.** -/
theorem unique (hx : Denotes x s q) (hy : Denotes y s q) : x = y :=
  hx.eq_ofMagnitude.trans hy.eq_ofMagnitude.symm

theorem toRat_eq (h : Denotes x s q) : x.toRat = if s then -q else q := by
  unfold toRat
  rw [h.isNegative, h.magnitude]

theorem abs_toRat (h : Denotes x s q) : |x.toRat| = q := by
  rw [h.toRat_eq]
  cases s <;> simp [abs_of_nonneg h.nonneg]

/-- A product with the sign of an integer is the product of the integer. -/
theorem toRat_of_sign {v : ℤ} {c : ℚ}
    (h : x.Denotes (decide (v < 0)) (|(v : ℚ)| * c)) : x.toRat = v * c := by
  rw [h.toRat_eq]
  by_cases hneg : v < 0
  · rw [if_pos (decide_eq_true hneg), abs_of_neg (by exact_mod_cast hneg), neg_mul, neg_neg]
  · rw [if_neg (by simpa using hneg), abs_of_nonneg (by exact_mod_cast not_lt.mp hneg)]

theorem isNaN_eq (h : Denotes x s q) : x.isNaN = false := by
  obtain ⟨_, m, e, hc, rfl⟩ := exists_finite h.isFinite
  rfl

theorem toRat_pos (h : Denotes x false q) : x.toRat = q :=
  h.toRat_eq

end Denotes

/-! ### Rounding -/

theorem denotes_ofMagnitude (negative : Bool) (h : IsMagnitude q) :
    Denotes (ofMagnitude negative q) negative q := by
  obtain ⟨m, e, hc, rfl⟩ := h
  rw [ofMagnitude_of_canonical negative hc]
  exact denotes_finite negative hc

/-- A positive number is rounded to whole units of its last place, as long as there is a double for
them. -/
theorem denotes_ofMagnitude_of_lt (negative : Bool) {n : ℕ} (hq : 0 < q)
    (hn : roundHalfEven (q / 2 ^ lastPlace q) = n)
    (hmax : (n : ℚ) * 2 ^ lastPlace q < 2 ^ (1024 : ℤ)) :
    Denotes (ofMagnitude negative q) negative (n * 2 ^ lastPlace q) := by
  obtain ⟨n', hn', hmost, hfull⟩ := exists_significand hq
  obtain rfl : n = n' := by omega
  have hplace : -1074 ≤ lastPlace q := le_max_left _ _
  -- a full significand bounds the last place from above
  have htop : ∀ k : ℕ, twoPow k ≤ n → k + lastPlace q ≤ 1023 := by
    intro k hk
    have hle : (2 : ℚ) ^ ((k : ℤ) + lastPlace q) ≤ n * 2 ^ lastPlace q := by
      rw [zpow_two_add, ← cast_twoPow]
      exact mul_le_mul_of_nonneg_right (by exact_mod_cast hk) (zpow_two_pos _).le
    exact zpow_binade_unique hle (by simpa using hmax)
  have hsignificand : (roundHalfEven (q / 2 ^ lastPlace q)).toNat = n := by
    rw [hn, Int.toNat_natCast]
  rcases hmost.lt_or_eq with hlt | rfl
  · have hcanonical : Canonical n (lastPlace q) := by
      have h52 := htop 52
      exact ⟨hlt, hplace, by omega, by omega⟩
    rw [ofMagnitude_eq_finite negative hq.ne' rfl hsignificand hcanonical]
    exact denotes_finite negative hcanonical
  · have hcanonical : Canonical (twoPow 52) (lastPlace q + 1) := by
      have h53 := htop 53 le_rfl
      exact ⟨by decide, by omega, by omega, fun h => absurd h (lt_irrefl _)⟩
    rw [ofMagnitude_eq_carry negative hq.ne' rfl hsignificand hcanonical, twoPow_53_mul_zpow]
    exact denotes_finite negative hcanonical

/-- **Rounding does not pass a double.**  What is at most the magnitude of a finite double is rounded
to a finite double, which is at most this magnitude. -/
theorem exists_denotes_ofMagnitude (negative : Bool) (hp : IsMagnitude p) (hq : 0 ≤ q)
    (h : q ≤ p) : ∃ r, r ≤ p ∧ Denotes (ofMagnitude negative q) negative r := by
  rcases hq.eq_or_lt with rfl | hpos
  · refine ⟨0, h, ?_⟩
    simpa [ofMagnitude] using denotes_zero negative
  obtain ⟨n, hn, -, -⟩ := exists_significand hpos
  have hunit := zpow_two_pos (lastPlace q)
  -- the bound counts whole units of the last place, so the rounded significand does not pass it
  have hbound : (n : ℚ) * 2 ^ lastPlace q ≤ p := by
    obtain ⟨m, d, hc, rfl⟩ := hp
    have hm : m ≠ 0 := by
      rintro rfl
      rw [Nat.cast_zero, zero_mul] at h
      exact absurd hpos (not_lt.mpr h)
    have hplace : lastPlace q ≤ d := (lastPlace_mono hpos h).trans_eq (lastPlace_of_canonical hc hm)
    have hwhole : (m : ℚ) * 2 ^ d
        = ((m * twoPow (d - lastPlace q).toNat : ℕ) : ℤ) * 2 ^ lastPlace q := by
      push_cast
      rw [cast_twoPow, Int.toNat_of_nonneg (by omega), mul_assoc, ← zpow_two_add, sub_add_cancel]
    rw [hwhole] at h ⊢
    have hle := roundHalfEven_le ((div_le_iff₀ hunit).mpr h)
    rw [hn] at hle
    exact mul_le_mul_of_nonneg_right (by exact_mod_cast hle) hunit.le
  exact ⟨_, hbound, denotes_ofMagnitude_of_lt negative hpos hn (hbound.trans_lt hp.lt)⟩

theorem denotes_ofRat (h : IsMagnitude |q|) : Denotes (ofRat q) (decide (q < 0)) |q| := by
  unfold ofRat
  split_ifs with hneg
  · rw [decide_eq_true hneg]
    rw [abs_of_neg hneg] at h ⊢
    exact denotes_ofMagnitude true h
  · rw [decide_eq_false hneg]
    rw [abs_of_nonneg (not_lt.mp hneg)] at h ⊢
    exact denotes_ofMagnitude false h

/-- The powers of two that are doubles, down to the smallest one. -/
theorem denotes_ofRat_zpow {e : ℤ} (hmin : -1074 ≤ e) (hmax : e ≤ 1023) :
    Denotes (ofRat (2 ^ e)) false (2 ^ e) := by
  have hpos := zpow_two_pos e
  have hpower := isMagnitude_zpow hmin hmax
  rw [← abs_of_pos hpos] at hpower
  have hvalue := denotes_ofRat hpower
  rwa [abs_of_pos hpos, decide_eq_false hpos.not_gt] at hvalue

theorem denotes_ofInt_of_isMagnitude {n : ℤ} (h : IsMagnitude |(n : ℚ)|) :
    Denotes (ofInt n) (decide (n < 0)) |(n : ℚ)| := by
  have hsign : decide ((n : ℚ) < 0) = decide (n < 0) := by
    rw [decide_eq_decide]
    exact_mod_cast Iff.rfl
  exact hsign ▸ denotes_ofRat h

/-- An integer of at most 53 bits is converted exactly. -/
theorem denotes_ofInt {n : ℤ} (h : n.natAbs ≤ twoPow 53) :
    Denotes (ofInt n) (decide (n < 0)) |(n : ℚ)| := by
  apply denotes_ofInt_of_isMagnitude
  exact abs_cast_eq n ▸ isMagnitude_natCast h

theorem denotes_ofInt_natCast {n : ℕ} (h : n ≤ twoPow 53) : Denotes (ofInt n) false n := by
  have hvalue := denotes_ofInt (n := (n : ℤ)) h
  rwa [decide_eq_false (by omega), Int.cast_natCast, Nat.abs_cast] at hvalue

/-- Rounding a magnitude to an integer gives a magnitude: what has bits after the point is below
`2 ^ 53`. -/
theorem isMagnitude_roundHalfEven (h : IsMagnitude q) :
    IsMagnitude (roundHalfEven q : ℤ) := by
  obtain ⟨m, e, hc, rfl⟩ := h
  have hnonneg : (0 : ℚ) ≤ m * 2 ^ e := mul_nonneg (Nat.cast_nonneg m) (zpow_two_pos e).le
  by_cases he : 0 ≤ e
  · have hint : (m : ℚ) * 2 ^ e = ((m * twoPow e.toNat : ℕ) : ℤ) := by
      push_cast
      rw [cast_twoPow, Int.toNat_of_nonneg he]
    rw [hint, roundHalfEven_intCast, ← hint]
    exact ⟨m, e, hc, rfl⟩
  · have hle : (m : ℚ) * 2 ^ e ≤ ((twoPow 53 : ℕ) : ℤ) := by
      rw [Int.cast_natCast]
      calc (m : ℚ) * 2 ^ e ≤ m * 1 :=
            mul_le_mul_of_nonneg_left (zpow_le_one_of_nonpos₀ one_le_two (by omega))
              (Nat.cast_nonneg m)
        _ ≤ (twoPow 53 : ℕ) := by
            rw [mul_one]
            exact_mod_cast hc.1.le
    obtain ⟨n, hn⟩ := Int.eq_ofNat_of_zero_le (roundHalfEven_nonneg hnonneg)
    have hbound := roundHalfEven_le hle
    rw [hn] at hbound ⊢
    rw [Int.cast_natCast]
    exact isMagnitude_natCast (by exact_mod_cast hbound)

/-! ### Operations -/

namespace Denotes

theorem neg (h : Denotes x s q) : Denotes (-x) (!s) q := by
  obtain ⟨hfin, rfl, rfl⟩ := h
  obtain ⟨negative, m, e, hc, rfl⟩ := exists_finite hfin
  exact ⟨rfl, rfl, rfl⟩

theorem abs (h : Denotes x s q) : Denotes x.abs false q := by
  obtain ⟨hfin, rfl, rfl⟩ := h
  obtain ⟨negative, m, e, hc, rfl⟩ := exists_finite hfin
  exact ⟨rfl, rfl, rfl⟩

/-- A product is the rounding of the exact one. -/
theorem mul_eq_ofMagnitude (hx : Denotes x s p) (hy : Denotes y t q) :
    x * y = ofMagnitude (s != t) (p * q) := by
  obtain ⟨hfin, rfl, rfl⟩ := hx
  obtain ⟨hfin', rfl, rfl⟩ := hy
  obtain ⟨negative, m, e, hc, rfl⟩ := exists_finite hfin
  obtain ⟨negative', m', e', hc', rfl⟩ := exists_finite hfin'
  rfl

theorem mul (hx : Denotes x s p) (hy : Denotes y t q) (h : IsMagnitude (p * q)) :
    Denotes (x * y) (s != t) (p * q) := by
  rw [hx.mul_eq_ofMagnitude hy]
  exact denotes_ofMagnitude _ h

/-- A product that no double is large enough for is infinite. -/
theorem mul_eq_infinity (hx : Denotes x s p) (hy : Denotes y t q)
    (h : (2 : ℚ) ^ (1024 : ℤ) ≤ p * q) : x * y = .infinity (s != t) := by
  rw [hx.mul_eq_ofMagnitude hy]
  exact ofMagnitude_eq_infinity _ h

theorem infinity_mul (h : Denotes x s q) (hq : q ≠ 0) (negative : Bool) :
    infinity negative * x = .infinity (negative != s) := by
  obtain ⟨hfin, rfl, rfl⟩ := h
  obtain ⟨s, m, e, hc, rfl⟩ := exists_finite hfin
  refine if_neg ?_
  rintro rfl
  simp [Binary64.magnitude] at hq

theorem infinity_div (h : Denotes x s q) (negative : Bool) :
    infinity negative / x = .infinity (negative != s) := by
  obtain ⟨hfin, rfl, rfl⟩ := h
  obtain ⟨s, m, e, hc, rfl⟩ := exists_finite hfin
  rfl

theorem div_infinity (h : Denotes x s q) (negative : Bool) :
    x / infinity negative = zero (s != negative) := by
  obtain ⟨hfin, rfl, rfl⟩ := h
  obtain ⟨s, m, e, hc, rfl⟩ := exists_finite hfin
  rfl

/-- A quotient is the rounding of the exact one. -/
theorem div_eq_ofMagnitude (hx : Denotes x s p) (hy : Denotes y t q) (hq : q ≠ 0) :
    x / y = ofMagnitude (s != t) (p / q) := by
  obtain ⟨hfin, rfl, rfl⟩ := hx
  obtain ⟨hfin', rfl, rfl⟩ := hy
  obtain ⟨negative, m, e, hc, rfl⟩ := exists_finite hfin
  obtain ⟨negative', m', e', hc', rfl⟩ := exists_finite hfin'
  refine if_neg ?_
  rintro rfl
  simp [Binary64.magnitude] at hq

theorem div (hx : Denotes x s p) (hy : Denotes y t q) (hq : q ≠ 0) (h : IsMagnitude (p / q)) :
    Denotes (x / y) (s != t) (p / q) := by
  rw [hx.div_eq_ofMagnitude hy hq]
  exact denotes_ofMagnitude _ h

/-- The sum of two numbers that are not negative. -/
theorem add (hx : Denotes x false p) (hy : Denotes y false q) (h : IsMagnitude (p + q)) :
    Denotes (x + y) false (p + q) := by
  have hsum : x.toRat + y.toRat = p + q := by rw [hx.toRat_pos, hy.toRat_pos]
  have hnonneg : 0 ≤ p + q := add_nonneg hx.nonneg hy.nonneg
  obtain ⟨hfin, hs, -⟩ := hx
  obtain ⟨hfin', ht, -⟩ := hy
  obtain ⟨negative, m, e, hc, rfl⟩ := exists_finite hfin
  obtain ⟨negative', m', e', hc', rfl⟩ := exists_finite hfin'
  obtain rfl : negative = false := hs
  obtain rfl : negative' = false := ht
  show Denotes (if _ then _ else _) _ _
  rw [hsum]
  split_ifs with hzero
  · rw [hzero]
    exact denotes_zero false
  · have hvalue := denotes_ofRat (q := p + q) (by rwa [abs_of_nonneg hnonneg])
    rwa [abs_of_nonneg hnonneg, decide_eq_false (not_lt.mpr hnonneg)] at hvalue

/-- The difference of two numbers that are not negative, the first one being at least the second.
A difference of zero is plus zero. -/
theorem sub (hx : Denotes x false p) (hy : Denotes y false q) (hle : q ≤ p)
    (h : IsMagnitude (p - q)) : Denotes (x - y) false (p - q) := by
  have hsum : x.toRat + y.neg.toRat = p - q := by
    have hneg : y.neg.toRat = -q := hy.neg.toRat_eq
    rw [hx.toRat_pos, hneg, sub_eq_add_neg]
  obtain ⟨hfin, hs, -⟩ := hx
  obtain ⟨hfin', ht, -⟩ := hy
  obtain ⟨negative, m, e, hc, rfl⟩ := exists_finite hfin
  obtain ⟨negative', m', e', hc', rfl⟩ := exists_finite hfin'
  obtain rfl : negative = false := hs
  obtain rfl : negative' = false := ht
  show Denotes (if _ then _ else _) _ _
  rw [hsum]
  split_ifs with hzero
  · rw [hzero]
    exact denotes_zero false
  · have := denotes_ofRat (q := p - q) (by rwa [abs_of_nonneg (sub_nonneg.mpr hle)])
    rwa [abs_of_nonneg (sub_nonneg.mpr hle), decide_eq_false (by linarith)] at this

theorem roundEven (h : Denotes x s q) : Denotes x.roundEven s (roundHalfEven q : ℤ) := by
  have hmag := isMagnitude_roundHalfEven h.isMagnitude
  obtain ⟨hfin, rfl, rfl⟩ := h
  obtain ⟨negative, m, e, hc, rfl⟩ := exists_finite hfin
  exact denotes_ofMagnitude negative hmag

/-- Converting an integral double gives its integer, brought into the range. -/
theorem toInt {n : ℕ} (h : Denotes x s n) (lo hi : ℤ) :
    x.toInt lo hi = clampInt lo hi (if s then -n else n) := by
  obtain ⟨hfin, rfl, hmag⟩ := h
  obtain ⟨negative, m, e, hc, rfl⟩ := exists_finite hfin
  show clampInt lo hi _ = _
  rw [hmag]
  have hfloor : (n : ℚ).floor = n := Int.floor_natCast (R := ℚ) n
  rw [hfloor]
  rfl

end Denotes

/-- Whatever is converted to an integer, the integer is in the range. -/
theorem toInt_mem (x : Binary64) {lo hi : ℤ} (h : lo ≤ hi) :
    lo ≤ x.toInt lo hi ∧ x.toInt lo hi ≤ hi := by
  cases x with
  | nan => exact ⟨le_clampInt _ _ _, clampInt_le h _⟩
  | infinity negative => cases negative <;> simp [toInt, h]
  | finite negative m e hc => exact ⟨le_clampInt _ _ _, clampInt_le h _⟩

theorem fits64_toInt64 (x : Binary64) : Fits64 x.toInt64 :=
  toInt_mem x (by decide)

/-- Rounding a double to an integral one rounds its value. -/
theorem toRat_roundEven (h : x.isFinite = true) : x.roundEven.toRat = roundHalfEven x.toRat := by
  have hx := denotes_self h
  rw [hx.roundEven.toRat_eq, hx.toRat_eq]
  split_ifs
  · rw [roundHalfEven_neg, Int.cast_neg]
  · rfl

/-- An integer that a double is rounded to, brought into a range. -/
theorem toInt_roundEven (h : x.isFinite = true) (lo hi : ℤ) :
    x.roundEven.toInt lo hi = clampInt lo hi (roundHalfEven x.toRat) := by
  have hx := denotes_self h
  obtain ⟨n, hn⟩ := Int.eq_ofNat_of_zero_le (roundHalfEven_nonneg hx.nonneg)
  have hrounded := hx.roundEven
  rw [hn, Int.cast_natCast] at hrounded
  rw [hrounded.toInt, hx.toRat_eq]
  split_ifs
  · rw [roundHalfEven_neg, hn]
  · rw [hn]

/-- **Bits that fall off at the end of a quotient do not change the integer it is rounded to.**  They
only fall off where the quotient is far below one half. -/
theorem Denotes.roundHalfEven_div {e : ℤ} (hx : Denotes x s p) (hy : Denotes y false (2 ^ e))
    (hmax : p / 2 ^ e < 2 ^ (1024 : ℤ)) :
    (x / y).isFinite = true ∧
      roundHalfEven (x / y).toRat = roundHalfEven (x.toRat / 2 ^ e) := by
  have hexact : x.toRat / 2 ^ e = if s then -(p / 2 ^ e) else p / 2 ^ e := by
    rw [hx.toRat_eq]
    split_ifs
    · exact neg_div _ _
    · rfl
  rcases hx.isMagnitude.div_zpow hmax with hmagnitude | htiny
  · have hquotient := hx.div hy (zpow_two_ne_zero e) hmagnitude
    rw [Bool.bne_false] at hquotient
    rw [hquotient.toRat_eq, hexact]
    exact ⟨hquotient.isFinite, rfl⟩
  · obtain ⟨r, hr, hquotient⟩ := exists_denotes_ofMagnitude s
      (isMagnitude_zpow (by omega) (by omega)) (div_nonneg hx.nonneg (zpow_two_pos e).le) htiny
    have hhalf : (2 : ℚ) ^ (-1021 : ℤ) ≤ 1 / 2 :=
      (zpow_le_zpow_right₀ one_le_two (by omega : (-1021 : ℤ) ≤ -1)).trans_eq (by norm_num)
    rw [hx.div_eq_ofMagnitude hy (zpow_two_ne_zero e), Bool.bne_false]
    refine ⟨hquotient.isFinite, ?_⟩
    rw [roundHalfEven_eq_zero_iff.mpr (by rw [hquotient.abs_toRat]; exact hr.trans hhalf),
      roundHalfEven_eq_zero_iff.mpr]
    rw [abs_div, abs_of_pos (zpow_two_pos e), hx.abs_toRat]
    exact htiny.trans hhalf

/-! ### Powers of two -/

theorem denotes_powerOfTwo {e : ℤ} (hmin : -1023 ≤ e) (hmax : e ≤ 1023) :
    Denotes (powerOfTwo e) false (2 ^ e) := by
  have hpositive : ∀ n : ℕ, n ≤ 1023 →
      Denotes (powerOfTwo.positivePower n) false (2 ^ (n : ℤ)) := by
    intro n hn
    have hcast : |(((twoPow n : ℕ) : ℤ) : ℚ)| = 2 ^ (n : ℤ) := by
      rw [Int.cast_natCast, cast_twoPow, abs_of_pos (zpow_two_pos _)]
    unfold powerOfTwo.positivePower
    rw [if_pos (by omega)]
    have := denotes_ofInt_of_isMagnitude (n := (twoPow n : ℕ))
      (hcast ▸ isMagnitude_zpow (by omega) (by omega))
    rwa [hcast, decide_eq_false (by omega)] at this
  unfold powerOfTwo
  split_ifs with hsign
  · have := hpositive e.toNat (by omega)
    rwa [Int.toNat_of_nonneg hsign] at this
  · have hpow := hpositive (-e).toNat (by omega)
    rw [Int.toNat_of_nonneg (by omega)] at hpow
    have hquot : |((1 : ℤ) : ℚ)| / 2 ^ (-e) = 2 ^ e := by
      rw [zpow_neg, Int.cast_one, abs_one, one_div, inv_inv]
    have := (denotes_ofInt (n := 1) (by decide)).div hpow (zpow_two_ne_zero _)
      (by rw [hquot]; exact isMagnitude_zpow (by omega) (by omega))
    rwa [hquot] at this

/-- A power that is too large for a double is infinite. -/
theorem powerOfTwo_eq_infinity {e : ℤ} (h : 1023 < e) : powerOfTwo e = .infinity false := by
  unfold powerOfTwo powerOfTwo.positivePower
  rw [if_pos (by omega), if_neg (by omega)]

/-- Below `2 ^ -1023` a power is zero, also where there is a double for it: it is the inverse of a
power that is too large. -/
theorem powerOfTwo_eq_zero {e : ℤ} (h : e < -1023) : powerOfTwo e = .zero false := by
  unfold powerOfTwo powerOfTwo.positivePower
  rw [if_neg (by omega), if_neg (by omega)]
  exact (denotes_ofInt (n := 1) (by decide)).div_infinity false

/-- The exact logarithm is `e` exactly for the finite numbers of magnitude `2 ^ e`. -/
theorem exactLog2_eq_some_iff {e : ℤ} :
    x.exactLog2 = some e ↔ x.isFinite = true ∧ x.magnitude = 2 ^ e := by
  cases x with
  | nan => simp [exactLog2, isFinite]
  | infinity negative => simp [exactLog2, isFinite]
  | finite negative m d hc =>
    have hfin : isFinite (.finite negative m d hc) = true := rfl
    have hmag : magnitude (.finite negative m d hc) = m * 2 ^ d := rfl
    rw [hmag, exactLog2]
    constructor
    · intro h
      split_ifs at h with hm
      obtain rfl := Option.some_inj.mp h
      refine ⟨hfin, ?_⟩
      rw [zpow_two_add, mul_comm, ← cast_twoPow, ← hm.2]
    · rintro ⟨-, h⟩
      have hm : m ≠ 0 := by
        rintro rfl
        rw [Nat.cast_zero, zero_mul] at h
        exact zpow_two_ne_zero e h.symm
      -- the binade of the value gives the length of the significand
      have hval : (m : ℚ) = 2 ^ (e - d) := by
        rw [zpow_two_sub, ← h, mul_div_cancel_right₀ _ (zpow_two_ne_zero d)]
      have hlog : (m.log2 : ℤ) = e - d := by
        apply le_antisymm
        · refine zpow_binade_unique (hval ▸ zpow_log2_le hm) ?_
          exact zpow_lt_zpow_right₀ one_lt_two (by omega)
        · exact zpow_binade_unique hval.ge (lt_zpow_log2 m)
      have hpow : m = twoPow m.log2 := by
        have : (m : ℚ) = (twoPow m.log2 : ℕ) := by rw [cast_twoPow, hlog, hval]
        exact_mod_cast this
      rw [if_pos ⟨hm, hpow⟩]
      congr 1
      omega

theorem Denotes.exactLog2 {e : ℤ} (h : Denotes x s (2 ^ e)) : x.exactLog2 = some e :=
  exactLog2_eq_some_iff.mpr ⟨h.isFinite, h.magnitude⟩

/-- The powers of two that are doubles end at `2 ^ -1074` and `2 ^ 1023`. -/
theorem Denotes.exponent_bounds {e : ℤ} (h : Denotes x s (2 ^ e)) : -1074 ≤ e ∧ e ≤ 1023 := by
  obtain ⟨m, d, hcanonical, hvalue⟩ := h.isMagnitude
  have hm : 1 ≤ (m : ℚ) := by
    have hne : m ≠ 0 := by
      rintro rfl
      rw [Nat.cast_zero, zero_mul] at hvalue
      exact zpow_two_ne_zero e hvalue
    exact_mod_cast Nat.one_le_iff_ne_zero.mpr hne
  have hle : (2 : ℚ) ^ d ≤ 2 ^ e := by
    rw [hvalue]
    exact le_mul_of_one_le_left (zpow_two_pos d).le hm
  have hlt : e < 1024 := (zpow_lt_zpow_iff_right₀ one_lt_two).mp h.isMagnitude.lt
  exact ⟨hcanonical.2.1.trans ((zpow_le_zpow_iff_right₀ one_lt_two).mp hle), by omega⟩

/-! ### Comparisons -/

namespace Denotes

theorem lt_iff (hx : Denotes x s p) (hy : Denotes y t q) :
    x.lt y = true ↔ x.toRat < y.toRat := by
  obtain ⟨negative, m, e, hc, rfl⟩ := exists_finite hx.isFinite
  obtain ⟨negative', m', e', hc', rfl⟩ := exists_finite hy.isFinite
  unfold Binary64.lt compare?
  dsimp only
  split_ifs with h₁ h₂ <;> simp [h₁]

theorem eq_iff (hx : Denotes x s p) (hy : Denotes y t q) :
    x.eq y = true ↔ x.toRat = y.toRat := by
  obtain ⟨negative, m, e, hc, rfl⟩ := exists_finite hx.isFinite
  obtain ⟨negative', m', e', hc', rfl⟩ := exists_finite hy.isFinite
  unfold Binary64.eq compare?
  dsimp only
  split_ifs with h₁ h₂
  · simp [h₁.ne]
  · simp [h₂]
  · simp [h₂]

theorem le_iff (hx : Denotes x s p) (hy : Denotes y t q) :
    x.le y = true ↔ x.toRat ≤ y.toRat := by
  have hlt := hx.lt_iff hy
  have heq := hx.eq_iff hy
  unfold Binary64.eq at heq
  unfold Binary64.le
  rw [Bool.or_eq_true, hlt, heq, le_iff_lt_or_eq]

theorem lt_infinity (h : Denotes x s q) (negative : Bool) :
    x.lt (.infinity negative) = !negative := by
  obtain ⟨_, m, e, hc, rfl⟩ := exists_finite h.isFinite
  cases negative <;> rfl

theorem infinity_lt (h : Denotes x s q) (negative : Bool) :
    (infinity negative).lt x = negative := by
  obtain ⟨_, m, e, hc, rfl⟩ := exists_finite h.isFinite
  cases negative <;> rfl

theorem lt_eq_false (hx : Denotes x s p) (hy : Denotes y t q) :
    x.lt y = false ↔ y.toRat ≤ x.toRat := by
  rw [← Bool.not_eq_true, hx.lt_iff hy, not_lt]

end Denotes

/-! ### Powers of two in an interval -/

/-- A power of two that is kept between `1` and `2 ^ bits` is the power with the exponent kept between
`0` and `bits`, also where the power itself is too small or too large for a double. -/
theorem denotes_clamp_powerOfTwo {bits : ℕ} (hbits : bits ≤ 1023) (e : ℤ) :
    Denotes ((powerOfTwo e).clamp (.ofInt 1) (.powerOfTwo bits)) false (2 ^ clampInt 0 bits e) := by
  have hone : (Binary64.ofInt 1).Denotes false 1 := by
    simpa using denotes_ofInt (n := 1) (by decide)
  have hhigh : (Binary64.powerOfTwo bits).Denotes false (2 ^ (bits : ℤ)) :=
    denotes_powerOfTwo (by omega) (by omega)
  unfold Binary64.clamp
  rcases lt_or_ge e 0 with hneg | hpos
  · -- below one the power is a double, or zero
    have hlow : (powerOfTwo e).lt (.ofInt 1) = true := by
      rcases lt_or_ge e (-1023) with htiny | hsmall
      · rw [powerOfTwo_eq_zero htiny, (denotes_zero false).lt_iff hone,
          (denotes_zero false).toRat_pos, hone.toRat_pos]
        exact one_pos
      · have hvalue := denotes_powerOfTwo hsmall (by omega : e ≤ 1023)
        rw [hvalue.lt_iff hone, hvalue.toRat_pos, hone.toRat_pos]
        exact zpow_lt_one_of_neg₀ one_lt_two hneg
    rw [if_pos hlow, clampInt_of_le hneg.le]
    simpa using hone
  · rcases le_or_gt e 1023 with hvalue | hhuge
    · have hvalue := denotes_powerOfTwo (by omega : -1023 ≤ e) hvalue
      have hlow : (powerOfTwo e).lt (.ofInt 1) = false := by
        rw [hvalue.lt_eq_false hone, hvalue.toRat_pos, hone.toRat_pos]
        exact one_le_zpow₀ one_le_two hpos
      rw [hlow, if_neg Bool.false_ne_true]
      rcases lt_or_ge (bits : ℤ) e with hbeyond | hwithin
      · have hlt : (powerOfTwo bits).lt (powerOfTwo e) = true := by
          rw [hhigh.lt_iff hvalue, hhigh.toRat_pos, hvalue.toRat_pos]
          exact zpow_lt_zpow_right₀ one_lt_two hbeyond
        rw [if_pos hlt, clampInt_of_ge (by omega) hbeyond.le]
        exact hhigh
      · have hlt : (powerOfTwo bits).lt (powerOfTwo e) = false := by
          rw [hhigh.lt_eq_false hvalue, hhigh.toRat_pos, hvalue.toRat_pos]
          exact zpow_le_zpow_right₀ one_le_two hwithin
        rw [hlt, if_neg Bool.false_ne_true, clampInt_eq_self hpos hwithin]
        exact hvalue
    · rw [powerOfTwo_eq_infinity hhuge, hone.infinity_lt, if_neg Bool.false_ne_true, hhigh.lt_infinity,
        if_pos (by rfl), clampInt_of_ge (by omega) (by omega)]
      exact hhigh

end DyadicNet.Binary64
