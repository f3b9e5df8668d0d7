import Mathlib
import DyadicNet.Decimal.Shortest
import DyadicNet.Proofs.Binary64.Magnitude
import DyadicNet.Proofs.Decimal.Digits

/-!
# Shortest digits read back

`Shortest.interval m e` is meant to be the set of the numbers that round to `m · 2ᵉ`.  Here it is
shown to be a part of that set, ends included where they belong to it.  The one place that needs
care is the lower end below a power of two: the doubles there are twice as close, the number is
rounded on a finer grid, and its significand **carries into the next binade**.

The digits that are chosen stand for a number of the interval, whichever of the grids it was found
on.  So they read back as the double they were chosen for.

## Main Statements

* `ofMagnitude_of_holds` — the numbers of the interval round to its double;
* `digits_spec` — the digits of a double are digits, do not start with a zero, and stand for a
  number of its interval.
-/

namespace DyadicNet.Shortest

open Binary64

variable {m : ℕ} {e : ℤ} {q : ℚ}

/-! ### The numbers that round to a double -/

/-- A number of the interval in units of the last place.  The ends are reached only for an even
significand. -/
theorem near_of_holds (h : (interval m e).holds q) :
    (if m = twoPow 52 ∧ -1074 < e then (m : ℚ) - 1 / 4 else m - 1 / 2) ≤ q / 2 ^ e
      ∧ q / 2 ^ e ≤ m + 1 / 2
      ∧ (m % 2 = 1 → (m : ℚ) - 1 / 2 < q / 2 ^ e ∧ q / 2 ^ e < m + 1 / 2) := by
  have hunit := zpow_two_pos e
  rw [Interval.holds, interval] at h
  simp only [beq_iff_eq] at h
  rw [le_div_iff₀ hunit, div_le_iff₀ hunit, lt_div_iff₀ hunit, div_lt_iff₀ hunit]
  by_cases heven : m % 2 = 0
  · rw [if_pos heven, decide_eq_true_iff] at h
    exact ⟨h.1, h.2, fun hodd => by omega⟩
  · rw [if_neg heven, decide_eq_true_iff] at h
    have hpower : ¬(m = twoPow 52 ∧ -1074 < e) := fun hcon => heven (by rw [hcon.1]; decide)
    exact ⟨h.1.le, h.2.le, fun _ => by rw [if_neg hpower] at h; exact h⟩

theorem holds_pos (hm : m ≠ 0) (h : (interval m e).holds q) : 0 < q := by
  have hone : (1 : ℚ) ≤ m := by exact_mod_cast Nat.one_le_iff_ne_zero.mpr hm
  have hlower := (near_of_holds h).1
  have hquot : 0 < q / 2 ^ e := by
    split_ifs at hlower <;> linarith
  exact (div_pos_iff_of_pos_right (zpow_two_pos e)).mp hquot

/-- Just below a power of two, the grid is finer and the rounded significand carries. -/
private theorem ofMagnitude_below (negative : Bool) (h : Canonical (twoPow 52) e)
    (he : -1074 < e) (hpos : 0 < q) (hlow : (twoPow 52 : ℕ) - 1 / 4 ≤ q / 2 ^ e)
    (hlt : q / 2 ^ e < (twoPow 52 : ℕ)) :
    ofMagnitude negative q = .finite negative (twoPow 52) e h := by
  have hunit := zpow_two_pos e
  have htop : (twoPow 52 : ℕ) * (2 : ℚ) ^ e = 2 ^ (e - 1 + 53) := by
    rw [cast_twoPow, ← zpow_two_add]
    congr 1
    push_cast
    ring
  have hhalf : (2 : ℚ) ^ e = 2 * 2 ^ (e - 1) := by
    rw [zpow_two_sub, zpow_one]
    ring
  have hplace : lastPlace q = e - 1 := by
    rw [div_lt_iff₀ hunit, htop] at hlt
    rw [le_div_iff₀ hunit, sub_mul, htop] at hlow
    have hbit : (2 : ℚ) ^ (e - 1 + 53) = 2 * 2 ^ (e - 1 + 52) := by
      rw [show e - 1 + 53 = 1 + (e - 1 + 52) by ring, zpow_two_add, zpow_one]
    have hsmall : (2 : ℚ) ^ e ≤ 2 ^ (e - 1 + 52) := zpow_le_zpow_right₀ one_le_two (by omega)
    have hfloor : (2 : ℚ) ^ (e - 1 + 52) ≤ q := by linarith
    exact lastPlace_eq (by omega) hpos hlt (.inr hfloor)
  have hround : IsNearestEven (q / 2 ^ (e - 1)) (twoPow 53 : ℕ) := by
    have htwice : q / 2 ^ (e - 1) = 2 * (q / 2 ^ e) := by
      rw [hhalf]
      have := zpow_two_ne_zero (e - 1)
      field_simp
    have hpower : (((twoPow 53 : ℕ) : ℤ) : ℚ) = 2 * (twoPow 52 : ℕ) := by
      rw [twoPow_succ]
      push_cast
      ring
    refine ⟨?_, fun _ => by decide⟩
    rw [htwice, hpower, abs_le]
    constructor <;> linarith
  have hcarry := ofMagnitude_eq_carry negative (e := e - 1) hpos.ne' hplace
    (by rw [hround.roundHalfEven_eq, Int.toNat_natCast]) (by rw [sub_add_cancel]; exact h)
  simpa only [sub_add_cancel] using hcarry

/-- **The numbers of the interval round to its double.** -/
theorem ofMagnitude_of_holds (negative : Bool) (h : Canonical m e) (hm : m ≠ 0)
    (hq : (interval m e).holds q) : ofMagnitude negative q = .finite negative m e h := by
  have hunit := zpow_two_pos e
  have hpos := holds_pos hm hq
  obtain ⟨hlower, hupper, hodd⟩ := near_of_holds hq
  by_cases hbelow : (m = twoPow 52 ∧ -1074 < e) ∧ q / 2 ^ e < m
  · obtain ⟨⟨rfl, he⟩, hlt⟩ := hbelow
    rw [if_pos ⟨rfl, he⟩] at hlower
    exact ofMagnitude_below negative h he hpos hlower hlt
  · -- everywhere else the grid of the double itself is the one that is used
    have hhalf : (m : ℚ) - 1 / 2 ≤ q / 2 ^ e := by
      split_ifs at hlower <;> linarith
    have hfull : e = -1074 ∨ ((twoPow 52 : ℕ) : ℚ) ≤ q / 2 ^ e := by
      by_contra! hcon
      obtain ⟨hne, hsmall⟩ := hcon
      have hmin : -1074 < e := lt_of_le_of_ne h.2.1 (Ne.symm hne)
      have hle : twoPow 52 ≤ m := not_lt.mp fun hlt => hne (h.2.2.2 hlt)
      rcases hle.eq_or_lt with heq | hlt
      · exact hbelow ⟨⟨heq.symm, hmin⟩, heq ▸ hsmall⟩
      · have hstep : ((twoPow 52 : ℕ) : ℚ) + 1 ≤ m := by exact_mod_cast hlt
        linarith
    have hnear : IsNearestEven (q / 2 ^ e) (m : ℤ) := by
      rw [← Int.cast_natCast] at hhalf hupper hodd
      refine ⟨abs_le.mpr ⟨by linarith, by linarith⟩, fun htie => ?_⟩
      by_contra hne
      have hstrict := hodd (by omega)
      have hlt : |q / 2 ^ e - (m : ℤ)| < 1 / 2 :=
        abs_lt.mpr ⟨by linarith [hstrict.1], by linarith [hstrict.2]⟩
      exact hlt.ne htie
    have htop : q / 2 ^ e < (twoPow 53 : ℕ) := by
      have hstep : (m : ℚ) + 1 ≤ (twoPow 53 : ℕ) := by exact_mod_cast h.1
      linarith
    refine ofMagnitude_eq_finite negative hpos.ne' (lastPlace_eq h.2.1 hpos ?_ ?_) ?_ h
    · rw [div_lt_iff₀ hunit, cast_twoPow] at htop
      rwa [add_comm, zpow_two_add]
    · refine hfull.imp id fun hle => ?_
      rw [le_div_iff₀ hunit, cast_twoPow] at hle
      rwa [add_comm, zpow_two_add]
    · rw [hnear.roundHalfEven_eq, Int.toNat_natCast]

/-! ### The digits that are chosen -/

theorem holds_of_nearestOnGrid {i : Interval} {tie : Tie} {place : ℤ} {n : ℕ}
    (h : nearestOnGrid i tie q place = some n) : i.holds (n * 10 ^ place) := by
  unfold nearestOnGrid at h
  dsimp only at h
  split at h
  · next hbelow habove =>
    rw [← Option.some.inj h]
    split_ifs <;> assumption
  · next hbelow _ =>
    rwa [← Option.some.inj h]
  · next _ habove =>
    rwa [← Option.some.inj h]
  · cases h

theorem holds_of_search {i : Interval} {tie : Tie} {n : ℕ} {place found : ℤ} {fuel : ℕ}
    (h : search i tie q place fuel = some (n, found)) : i.holds (n * 10 ^ found) := by
  induction fuel generalizing place with
  | zero => cases h
  | succ fuel ih =>
    rw [search] at h
    split at h
    · next hgrid =>
      obtain ⟨rfl, rfl⟩ := Prod.mk.inj (Option.some.inj h)
      exact holds_of_nearestOnGrid hgrid
    · exact ih h

/-- A double lies in its own interval. -/
theorem holds_self (m : ℕ) (e : ℤ) : (interval m e).holds (m * 2 ^ e) := by
  have hunit := zpow_two_pos e
  have hlower : (interval m e).lower < m * 2 ^ e := by
    refine mul_lt_mul_of_pos_right ?_ hunit
    split_ifs <;> linarith
  have hupper : (m : ℚ) * 2 ^ e < (interval m e).upper :=
    mul_lt_mul_of_pos_right (by linarith) hunit
  unfold Interval.holds
  split_ifs
  · exact decide_eq_true ⟨hlower.le, hupper.le⟩
  · exact decide_eq_true ⟨hlower, hupper⟩

/-- A power of five moves a binary point to a decimal one. -/
theorem holds_exact (m : ℕ) (e : ℤ) :
    let exact := if 0 ≤ e then (m * twoPow e.toNat, 0) else (m * Nat.pow 5 (-e).toNat, e)
    (interval m e).holds ((exact.1 : ℕ) * 10 ^ exact.2) := by
  dsimp only
  split_ifs with h
  · have hvalue : ((m * twoPow e.toNat : ℕ) : ℚ) * 10 ^ (0 : ℤ) = m * 2 ^ e := by
      rw [zpow_zero, mul_one, Nat.cast_mul, cast_twoPow, Int.toNat_of_nonneg h]
    rw [hvalue]
    exact holds_self m e
  · have hvalue : ((m * Nat.pow 5 (-e).toNat : ℕ) : ℚ) * 10 ^ e = m * 2 ^ e := by
      have hfive : ((Nat.pow 5 (-e).toNat : ℕ) : ℚ) = 5 ^ (-e) := by
        rw [Nat.pow_eq]
        push_cast
        rw [← zpow_natCast, Int.toNat_of_nonneg (by omega)]
      have hten : (10 : ℚ) ^ e = 5 ^ e * 2 ^ e := by
        rw [← mul_zpow]
        norm_num
      push_cast
      rw [hfive, hten, mul_assoc, ← mul_assoc (5 ^ (-e)), ← zpow_add₀ (by norm_num), neg_add_cancel,
        zpow_zero, one_mul]
    rw [hvalue]
    exact holds_self m e

/-- What stands behind the significant digits of a number is zeros. -/
theorem decimalDigits_eq_append (n : ℕ) :
    ∃ zeros, decimalDigits n = significantDigits n ++ List.replicate zeros 0 := by
  have hzeros : ∀ d ∈ (decimalDigits n).reverse.takeWhile (· == 0), d = 0 := fun d hd =>
    by simpa using List.mem_takeWhile_imp hd
  refine ⟨((decimalDigits n).reverse.takeWhile (· == 0)).length, ?_⟩
  calc decimalDigits n = (decimalDigits n).reverse.reverse := (List.reverse_reverse _).symm
    _ = significantDigits n ++ ((decimalDigits n).reverse.takeWhile (· == 0)).reverse := by
        rw [significantDigits, ← List.reverse_append, List.takeWhile_append_dropWhile]
    _ = _ := by
        conv_lhs => rw [List.eq_replicate_of_mem hzeros]
        rw [List.reverse_replicate]

/-- **The digits of a double read back**: they stand for a number of its interval. -/
theorem digits_spec (tie : Tie) (hm : m ≠ 0) :
    Leads (digits tie m e).1 ∧ AreDigits (digits tie m e).1
      ∧ (interval m e).holds (ofDigits (digits tie m e).1
          * 10 ^ ((digits tie m e).2 + 1 - (digits tie m e).1.length)) := by
  unfold digits
  dsimp only
  set chosen := (search (interval m e) tie (m * 2 ^ e) (floorLog10 (m * 2 ^ e)) 17).getD
    (if 0 ≤ e then (m * twoPow e.toNat, 0) else (m * Nat.pow 5 (-e).toNat, e)) with hchosen
  have hholds : (interval m e).holds (chosen.1 * 10 ^ chosen.2) := by
    rw [hchosen]
    cases hsearch : search (interval m e) tie (m * 2 ^ e) (floorLog10 (m * 2 ^ e)) 17 with
    | some found => exact holds_of_search hsearch
    | none => exact holds_exact m e
  obtain ⟨n, place⟩ := chosen
  dsimp only at hholds ⊢
  have hn : n ≠ 0 := by
    rintro rfl
    have hpos := holds_pos hm hholds
    rw [Nat.cast_zero, zero_mul] at hpos
    exact lt_irrefl _ hpos
  obtain ⟨zeros, hzeros⟩ := decimalDigits_eq_append n
  refine ⟨?_, ?_, ?_⟩
  · obtain ⟨d, rest, hlead, hd⟩ := leads_decimalDigits hn
    rw [hzeros] at hlead
    rcases List.append_eq_cons_iff.mp hlead with ⟨-, hfront⟩ | ⟨tail, hsplit, -⟩
    · -- the digits of a positive number are not zeros only
      have hmem : d ∈ List.replicate zeros 0 := by rw [hfront]; exact List.mem_cons_self
      exact absurd (List.eq_of_mem_replicate hmem) hd
    · exact ⟨d, tail, hsplit, hd⟩
  · intro d hd
    exact areDigits_decimalDigits n d (hzeros ▸ List.mem_append_left _ hd)
  · have hvalue : (n : ℚ) = ofDigits (significantDigits n) * 10 ^ (zeros : ℤ) := by
      conv_lhs => rw [← ofDigits_decimalDigits n, hzeros, ofDigits_append, ofDigits_replicate_zero]
      rw [List.length_replicate, add_zero, zpow_natCast]
      push_cast
      rfl
    rw [hvalue, mul_assoc, ← zpow_add₀ (by norm_num)] at hholds
    have hplace : place + (decimalDigits n).length - 1 + 1 - (significantDigits n).length
        = zeros + place := by
      rw [hzeros, List.length_append, List.length_replicate]
      push_cast
      ring
    rwa [hplace]

end DyadicNet.Shortest
