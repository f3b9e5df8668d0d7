import Mathlib
import DyadicNet.Binary64.Basic
import DyadicNet.Proofs.Rounding

/-!
# Magnitudes that a double holds exactly

Arithmetic on doubles is exact arithmetic followed by one rounding, so a statement about it is easy
wherever the rounding does nothing.  This module says where that is: a rational is the magnitude of
a finite double exactly if it is `k · 2ᵈ` with at most 53 bits in `k`, an exponent that is not too
small, and a value below `2 ^ 1024`.

## Main Definitions

* `IsMagnitude` — the magnitudes of finite doubles.

## Main Statements

* `ofMagnitude_of_canonical` — rounding the value of a canonical pair gives that pair back;
* `isMagnitude_mul_zpow` — the description by significand and exponent;
* `ofMagnitude_eq_infinity` — from `2 ^ 1024` on there is only an infinity.
-/

namespace DyadicNet.Binary64

/-! ### The exponent of the leading bit -/

theorem zpow_log2_le {n : ℕ} (h : n ≠ 0) : (2 : ℚ) ^ (n.log2 : ℤ) ≤ n := by
  rw [zpow_natCast]
  exact_mod_cast Nat.log2_self_le h

theorem lt_zpow_log2 (n : ℕ) : (n : ℚ) < 2 ^ ((n.log2 : ℤ) + 1) := by
  have h : n < 2 ^ (n.log2 + 1) := Nat.lt_log2_self
  rw [show ((n.log2 : ℤ) + 1) = ((n.log2 + 1 : ℕ) : ℤ) by push_cast; rfl, zpow_natCast]
  exact_mod_cast h

/-- The binade that a number lies in has one exponent. -/
theorem zpow_binade_unique {q : ℚ} {d e : ℤ} (hd : (2 : ℚ) ^ d ≤ q) (he : q < 2 ^ (e + 1)) :
    d ≤ e := by
  have h : (2 : ℚ) ^ d < 2 ^ (e + 1) := lt_of_le_of_lt hd he
  rw [zpow_lt_zpow_iff_right₀ one_lt_two] at h
  omega

/-- `floorLog2` finds the binade of a positive number. -/
theorem floorLog2_spec {q : ℚ} (h : 0 < q) :
    (2 : ℚ) ^ floorLog2 q ≤ q ∧ q < 2 ^ (floorLog2 q + 1) := by
  have hnum : 0 < q.num := Rat.num_pos.mpr h
  have hden : (0 : ℚ) < q.den := by exact_mod_cast q.den_pos
  have hq : q = (q.num.natAbs : ℚ) / q.den := by
    rw [Nat.cast_natAbs, abs_of_pos hnum, Rat.num_div_den]
  have hn := zpow_log2_le (n := q.num.natAbs) (by omega)
  have hn' := lt_zpow_log2 q.num.natAbs
  have hd := zpow_log2_le (n := q.den) q.den_nz
  have hd' := lt_zpow_log2 q.den
  set a : ℤ := (q.num.natAbs.log2 : ℤ) with ha
  set b : ℤ := (q.den.log2 : ℤ) with hb
  -- the quotient of two numbers is known up to a factor of two from their leading bits
  have hupper : q < 2 ^ (a - b + 1) := by
    rw [hq, div_lt_iff₀ hden]
    calc (q.num.natAbs : ℚ) < 2 ^ (a + 1) := hn'
      _ = 2 ^ (a - b + 1) * 2 ^ b := by rw [← zpow_two_add]; congr 1; ring
      _ ≤ 2 ^ (a - b + 1) * q.den := mul_le_mul_of_nonneg_left hd (zpow_two_pos _).le
  have hlower : 2 ^ (a - b - 1) ≤ q := by
    rw [hq, le_div_iff₀ hden]
    calc (2 : ℚ) ^ (a - b - 1) * q.den ≤ 2 ^ (a - b - 1) * 2 ^ (b + 1) :=
          mul_le_mul_of_nonneg_left hd'.le (zpow_two_pos _).le
      _ = 2 ^ a := by rw [← zpow_two_add]; congr 1; ring
      _ ≤ (q.num.natAbs : ℚ) := hn
  unfold floorLog2
  dsimp only
  split_ifs with hguess
  · exact ⟨hguess, hupper⟩
  · refine ⟨hlower, ?_⟩
    rw [sub_add_cancel]
    exact lt_of_not_ge hguess

/-! ### Canonical pairs -/

theorem canonical_zero_exponent {e : ℤ} (h : Canonical 0 e) : e = -1074 :=
  h.2.2.2 (twoPow_pos 52)

theorem Canonical.significand_lt {m : ℕ} {e : ℤ} (h : Canonical m e) : (m : ℚ) < 2 ^ (53 : ℤ) :=
  calc (m : ℚ) < (twoPow 53 : ℕ) := by exact_mod_cast h.1
    _ = 2 ^ (53 : ℤ) := cast_twoPow 53

/-- The last place is where 53 bits end, or the least exponent. -/
theorem lastPlace_eq {q : ℚ} {e : ℤ} (hmin : -1074 ≤ e) (hq : 0 < q) (hlt : q < 2 ^ (e + 53))
    (hfull : e = -1074 ∨ (2 : ℚ) ^ (e + 52) ≤ q) : lastPlace q = e := by
  have ⟨hlower, hupper⟩ := floorLog2_spec hq
  have htop : floorLog2 q ≤ e + 52 :=
    zpow_binade_unique hlower (by rwa [show e + 52 + 1 = e + 53 by ring])
  unfold lastPlace
  rcases hfull with rfl | hfull
  · omega
  · have hbottom := zpow_binade_unique hfull hupper
    omega

/-- The last place of a number that a pair holds is the exponent of the pair. -/
theorem lastPlace_of_canonical {m : ℕ} {e : ℤ} (h : Canonical m e) (hm : m ≠ 0) :
    lastPlace ((m : ℚ) * 2 ^ e) = e := by
  have hpos := zpow_two_pos e
  have hone : (0 : ℚ) < m := by exact_mod_cast Nat.pos_of_ne_zero hm
  refine lastPlace_eq h.2.1 (mul_pos hone hpos) ?_ ?_
  · rw [add_comm, zpow_two_add]
    exact mul_lt_mul_of_pos_right h.significand_lt hpos
  · by_cases hsmall : m < twoPow 52
    · exact .inl (h.2.2.2 hsmall)
    · right
      have hle : ((twoPow 52 : ℕ) : ℚ) ≤ m := by exact_mod_cast not_lt.mp hsmall
      rw [cast_twoPow] at hle
      rw [add_comm, zpow_two_add]
      exact mul_le_mul_of_nonneg_right hle hpos.le

theorem lastPlace_mono {p q : ℚ} (hq : 0 < q) (h : q ≤ p) : lastPlace q ≤ lastPlace p := by
  have hlog : floorLog2 q ≤ floorLog2 p :=
    zpow_binade_unique ((floorLog2_spec hq).1.trans h) (floorLog2_spec (hq.trans_le h)).2
  unfold lastPlace
  omega

/-- The significand that a positive number is rounded to has at most 53 bits, or is the power of two
above them, and it has no fewer unless the last place is the least one. -/
theorem exists_significand {q : ℚ} (hq : 0 < q) :
    ∃ n : ℕ, roundHalfEven (q / 2 ^ lastPlace q) = n ∧ n ≤ twoPow 53 ∧
      (twoPow 52 ≤ n ∨ lastPlace q = -1074) := by
  obtain ⟨hlower, hupper⟩ := floorLog2_spec hq
  have hunit := zpow_two_pos (lastPlace q)
  have hplace : lastPlace q = max (-1074) (floorLog2 q - 52) := rfl
  obtain ⟨n, hn⟩ := Int.eq_ofNat_of_zero_le (roundHalfEven_nonneg (div_pos hq hunit).le)
  refine ⟨n, hn, ?_, ?_⟩
  · have htop : q / 2 ^ lastPlace q ≤ ((twoPow 53 : ℕ) : ℤ) := by
      rw [div_le_iff₀ hunit, Int.cast_natCast, cast_twoPow, ← zpow_two_add]
      exact hupper.le.trans (zpow_le_zpow_right₀ one_le_two (by omega))
    have := roundHalfEven_le htop
    omega
  · by_cases hleast : lastPlace q = -1074
    · exact .inr hleast
    · have hfull : (((twoPow 52 : ℕ) : ℤ) : ℚ) ≤ q / 2 ^ lastPlace q := by
        rw [le_div_iff₀ hunit, Int.cast_natCast, cast_twoPow, ← zpow_two_add]
        exact (zpow_le_zpow_right₀ one_le_two (by omega)).trans hlower
      have := le_roundHalfEven hfull
      exact .inl (by omega)

/-- A nonzero magnitude becomes the pair of its last place and its rounded significand, if that is
canonical. -/
theorem ofMagnitude_eq_finite (negative : Bool) {q : ℚ} {m : ℕ} {e : ℤ} (hq : q ≠ 0)
    (he : lastPlace q = e) (hm : (roundHalfEven (q / 2 ^ e)).toNat = m) (h : Canonical m e) :
    ofMagnitude negative q = .finite negative m e h := by
  subst he hm
  unfold ofMagnitude
  rw [if_neg hq]
  exact dif_pos h

/-- The power of two above all significands is the least full one of the next binade. -/
theorem twoPow_53_mul_zpow (e : ℤ) :
    ((twoPow 53 : ℕ) : ℚ) * 2 ^ e = (twoPow 52 : ℕ) * 2 ^ (e + 1) := by
  rw [cast_twoPow, cast_twoPow, ← zpow_two_add, ← zpow_two_add]
  congr 1
  push_cast
  ring

/-- A significand that rounds up to 54 bits carries into the next binade. -/
theorem ofMagnitude_eq_carry (negative : Bool) {q : ℚ} {e : ℤ} (hq : q ≠ 0)
    (he : lastPlace q = e) (hm : (roundHalfEven (q / 2 ^ e)).toNat = twoPow 53)
    (h : Canonical (twoPow 52) (e + 1)) :
    ofMagnitude negative q = .finite negative (twoPow 52) (e + 1) h := by
  subst he
  unfold ofMagnitude
  rw [if_neg hq]
  dsimp only
  rw [dif_neg (fun hc => absurd (hm ▸ hc.1) (lt_irrefl _))]
  exact dif_pos ⟨hm, h⟩

/-- Rounding does nothing to the value of a canonical pair. -/
theorem ofMagnitude_of_canonical (negative : Bool) {m : ℕ} {e : ℤ} (h : Canonical m e) :
    ofMagnitude negative ((m : ℚ) * 2 ^ e) = .finite negative m e h := by
  by_cases hm : m = 0
  · subst hm
    obtain rfl := canonical_zero_exponent h
    simp [ofMagnitude, zero]
  · refine ofMagnitude_eq_finite negative ?_ (lastPlace_of_canonical h hm) ?_ h
    · exact mul_ne_zero (by exact_mod_cast hm) (zpow_two_ne_zero e)
    · rw [mul_div_cancel_right₀ _ (zpow_two_ne_zero e), ← Int.cast_natCast,
        roundHalfEven_intCast, Int.toNat_natCast]

/-! ### The magnitudes of finite doubles -/

/-- `q` is the magnitude of a finite double. -/
def IsMagnitude (q : ℚ) : Prop :=
  ∃ (m : ℕ) (e : ℤ), Canonical m e ∧ q = m * 2 ^ e

theorem isMagnitude_magnitude : ∀ x : Binary64, IsMagnitude x.magnitude
  | .nan => ⟨0, -1074, by decide, by simp [magnitude]⟩
  | .infinity _ => ⟨0, -1074, by decide, by simp [magnitude]⟩
  | .finite _ m e h => ⟨m, e, h, rfl⟩

theorem isMagnitude_zero : IsMagnitude 0 :=
  ⟨0, -1074, by decide, by simp⟩

/-- A significand of at most 53 bits can be moved to the place where a double holds it.  It moves
up until all 53 bits are used or the least exponent is reached. -/
theorem isMagnitude_mul_zpow {k : ℕ} {d : ℤ} (hk : k < twoPow 53) (hd : -1074 ≤ d)
    (hmax : (k : ℚ) * 2 ^ d < 2 ^ (1024 : ℤ)) : IsMagnitude (k * 2 ^ d) := by
  by_cases hzero : k = 0
  · subst hzero
    simpa using isMagnitude_zero
  have hbits : k.log2 < 53 := (Nat.log2_lt hzero).mpr hk
  have htop : (k.log2 : ℤ) + d ≤ 1023 := by
    refine zpow_binade_unique ?_ (by norm_num at hmax ⊢; exact hmax)
    rw [zpow_two_add]
    exact mul_le_mul_of_nonneg_right (zpow_log2_le hzero) (zpow_two_pos d).le
  set j : ℕ := min (52 - k.log2) (d + 1074).toNat with hj
  have hlt : k * twoPow j < twoPow 53 := by
    have hk' : k < 2 ^ (k.log2 + 1) := Nat.lt_log2_self
    calc k * twoPow j < 2 ^ (k.log2 + 1) * twoPow j :=
          Nat.mul_lt_mul_of_pos_right hk' (twoPow_pos j)
      _ = twoPow (k.log2 + 1 + j) := (twoPow_add _ _).symm
      _ ≤ twoPow 53 := twoPow_le_twoPow (by omega)
  have hsmall : k * twoPow j < twoPow 52 → d - j = -1074 := by
    intro h
    -- unless the least exponent stopped it, the leading bit has reached its place
    have hle : twoPow (k.log2 + j) ≤ k * twoPow j := by
      rw [twoPow_add]
      exact Nat.mul_le_mul_right _ (Nat.log2_self_le hzero)
    have hexp : k.log2 + j < 52 := by
      by_contra hcon
      have := twoPow_le_twoPow (by omega : 52 ≤ k.log2 + j)
      omega
    omega
  refine ⟨k * twoPow j, d - j, ⟨hlt, by omega, by omega, hsmall⟩, ?_⟩
  push_cast
  rw [cast_twoPow, mul_assoc, ← zpow_two_add]
  congr 2
  ring

/-- Moving the point to the right keeps a magnitude one, as long as it does not overflow. -/
theorem IsMagnitude.mul_zpow {q : ℚ} {d : ℤ} (h : IsMagnitude q) (hd : 0 ≤ d)
    (hmax : q * 2 ^ d < 2 ^ (1024 : ℤ)) : IsMagnitude (q * 2 ^ d) := by
  obtain ⟨m, e, hc, rfl⟩ := h
  rw [mul_assoc, ← zpow_two_add] at hmax ⊢
  exact isMagnitude_mul_zpow hc.1 (by have := hc.2.1; omega) hmax

theorem isMagnitude_natCast {n : ℕ} (h : n ≤ twoPow 53) : IsMagnitude n := by
  rcases h.lt_or_eq with hlt | rfl
  · have := isMagnitude_mul_zpow (d := 0) hlt (by decide) (by
      rw [zpow_zero, mul_one]
      calc (n : ℚ) < (twoPow 53 : ℕ) := by exact_mod_cast hlt
        _ = 2 ^ (53 : ℤ) := cast_twoPow 53
        _ < 2 ^ (1024 : ℤ) := zpow_lt_zpow_right₀ one_lt_two (by norm_num))
    simpa using this
  · rw [cast_twoPow]
    have := isMagnitude_mul_zpow (k := 1) (d := 53) (by decide) (by decide) (by
      rw [Nat.cast_one, one_mul]
      exact zpow_lt_zpow_right₀ one_lt_two (by norm_num))
    simpa using this

theorem isMagnitude_zpow {e : ℤ} (hmin : -1074 ≤ e) (hmax : e ≤ 1023) :
    IsMagnitude (2 ^ e) := by
  have := isMagnitude_mul_zpow (k := 1) (d := e) (by decide) hmin (by
    rw [Nat.cast_one, one_mul]
    exact zpow_lt_zpow_right₀ one_lt_two (by omega))
  simpa using this

theorem IsMagnitude.lt {q : ℚ} (h : IsMagnitude q) : q < 2 ^ (1024 : ℤ) := by
  obtain ⟨m, e, hc, rfl⟩ := h
  calc (m : ℚ) * 2 ^ e < 2 ^ (53 : ℤ) * 2 ^ e :=
        mul_lt_mul_of_pos_right hc.significand_lt (zpow_two_pos e)
    _ ≤ 2 ^ (53 : ℤ) * 2 ^ (971 : ℤ) :=
        mul_le_mul_of_nonneg_left (zpow_le_zpow_right₀ one_le_two hc.2.2.1) (zpow_two_pos _).le
    _ = 2 ^ (1024 : ℤ) := (zpow_two_add 53 971).symm

/-- Moving the point of an integer to the left keeps it a magnitude: its last bit is not below that of
the power of two. -/
theorem IsMagnitude.natCast_mul_zpow {n : ℕ} {d : ℤ} (h : IsMagnitude n) (hmin : -1074 ≤ d)
    (hmax : d ≤ 0) : IsMagnitude (n * 2 ^ d) := by
  have hle : (n : ℚ) * 2 ^ d ≤ n :=
    mul_le_of_le_one_right (Nat.cast_nonneg n) (zpow_le_one_of_nonpos₀ one_le_two hmax)
  have hlt := hle.trans_lt h.lt
  obtain ⟨m, e, hc, hn⟩ := h
  rcases le_or_gt 0 e with he | he
  · rw [hn, mul_assoc, ← zpow_two_add] at hlt ⊢
    exact isMagnitude_mul_zpow hc.1 (by omega) hlt
  · -- a significand with bits after the point stands for an integer that is a significand itself
    have hshort : (n : ℚ) < (twoPow 53 : ℕ) := by
      rw [hn, cast_twoPow]
      exact (mul_le_of_le_one_right (Nat.cast_nonneg m)
        (zpow_le_one_of_nonpos₀ one_le_two he.le)).trans_lt hc.significand_lt
    exact isMagnitude_mul_zpow (by exact_mod_cast hshort) hmin hlt

/-- Dividing by a power of two moves the point.  Unless the quotient is too large, it is a double,
or so small that bits fall off at its end. -/
theorem IsMagnitude.div_zpow {p : ℚ} {e : ℤ} (h : IsMagnitude p)
    (hmax : p / 2 ^ e < 2 ^ (1024 : ℤ)) :
    IsMagnitude (p / 2 ^ e) ∨ p / 2 ^ e ≤ 2 ^ (-1021 : ℤ) := by
  obtain ⟨m, d, hc, rfl⟩ := h
  rw [mul_div_assoc, ← zpow_two_sub] at hmax ⊢
  by_cases hplace : -1074 ≤ d - e
  · exact .inl (isMagnitude_mul_zpow hc.1 hplace hmax)
  · right
    calc (m : ℚ) * 2 ^ (d - e) ≤ 2 ^ (53 : ℤ) * 2 ^ (-1074 : ℤ) :=
          mul_le_mul hc.significand_lt.le (zpow_le_zpow_right₀ one_le_two (by omega))
            (zpow_two_pos _).le (zpow_two_pos _).le
      _ = 2 ^ (-1021 : ℤ) := (zpow_two_add 53 (-1074)).symm

/-- Beyond the last finite double there is an infinity. -/
theorem ofMagnitude_eq_infinity (negative : Bool) {q : ℚ} (h : (2 : ℚ) ^ (1024 : ℤ) ≤ q) :
    ofMagnitude negative q = .infinity negative := by
  have hpos : 0 < q := lt_of_lt_of_le (zpow_two_pos _) h
  have hlog : 1024 ≤ floorLog2 q := zpow_binade_unique h (floorLog2_spec hpos).2
  have hlast : 972 ≤ lastPlace q := by
    unfold lastPlace
    omega
  unfold ofMagnitude
  rw [if_neg hpos.ne']
  dsimp only
  rw [dif_neg (fun hc => by have := hc.2.2.1; omega),
    dif_neg (fun hc => by have := hc.2.2.2.1; omega)]

end DyadicNet.Binary64
