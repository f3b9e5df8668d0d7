import Mathlib
import DyadicNet.Proofs.Binary64.Arithmetic

/-!
# Zeros

There are two zeros, and they are equal by value.  **What is computed from zeros is zero again**, of
one sign or the other: their sums, their quotients by positive numbers, their products with finite
ones, and what they are rounded to.  No zero is less than another one.

## Main Definitions

* `IsZero` — being zero by value.

## Main Statements

* `isZero_iff` — the zeros;
* `eq_of_eq_of_not_isZero` — other numbers that are equal by value;
* `IsZero.div`, `IsZero.mul`, `isZero_sum` — what is computed from them;
* `zero_lt_ofInt` — positive integers stay positive, however large they are.
-/

namespace DyadicNet.Binary64

variable {x y : Binary64} {q : ℚ}

/-- A number is zero by value, of either sign. -/
def IsZero (x : Binary64) : Prop :=
  x.eq (zero false) = true

instance : DecidablePred IsZero :=
  fun x => inferInstanceAs (Decidable (x.eq (zero false) = true))

theorem isZero_zero (s : Bool) : (zero s).IsZero := by
  cases s <;> decide +kernel

/-- There are two zeros. -/
theorem isZero_iff : x.IsZero ↔ ∃ s, x = zero s := by
  refine ⟨fun h => ?_, ?_⟩
  · cases x with
    | nan => cases h
    | infinity s => cases s <;> cases h
    | finite s m e hc =>
      have hx := denotes_finite s hc
      have hvalue := (hx.eq_iff (denotes_zero false)).mp h
      have hmagnitude : (m : ℚ) * 2 ^ e = 0 := by
        rw [← hx.abs_toRat, hvalue, (denotes_zero false).toRat_pos, abs_zero]
      exact ⟨s, (hmagnitude ▸ hx).unique (denotes_zero s)⟩
  · rintro ⟨s, rfl⟩
    exact isZero_zero s

theorem IsZero.isFinite (h : x.IsZero) : x.isFinite = true := by
  obtain ⟨s, rfl⟩ := isZero_iff.mp h
  rfl

/-- A number equals itself. -/
theorem eq_self (hx : x.isNaN = false) : x.eq x = true := by
  cases x with
  | nan => cases hx
  | infinity s => cases s <;> rfl
  | finite s m e hc => exact ((denotes_finite s hc).eq_iff (denotes_finite s hc)).mpr rfl

/-- The sign of a number that is not zero is that of its value. -/
theorem Denotes.sign_eq {s : Bool} (h : x.Denotes s q) (hne : x.toRat ≠ 0) :
    s = decide (x.toRat < 0) := by
  have hvalue := h.toRat_eq
  have hnonneg := h.nonneg
  cases s with
  | false =>
    rw [if_neg Bool.false_ne_true] at hvalue
    exact (decide_eq_false (by linarith)).symm
  | true =>
    rw [if_pos rfl] at hvalue
    have hle : x.toRat ≤ 0 := by linarith
    exact (decide_eq_true (lt_of_le_of_ne hle hne)).symm

/-- What equals a number by value is that number, unless both are zeros. -/
theorem eq_of_eq_of_not_isZero (hy : ¬y.IsZero) (h : x.eq y = true) : x = y := by
  cases x with
  | nan => cases y <;> simp [Binary64.eq, compare?] at h
  | infinity s =>
    cases y with
    | nan => simp [Binary64.eq, compare?] at h
    | infinity t => cases s <;> cases t <;> simp [Binary64.eq, compare?] at h ⊢
    | finite t n d hd => cases s <;> simp [Binary64.eq, compare?] at h
  | finite s m e hc =>
    cases y with
    | nan => simp [Binary64.eq, compare?] at h
    | infinity t => cases t <;> simp [Binary64.eq, compare?] at h
    | finite t n d hd =>
      have hx := denotes_finite s hc
      have hvalue := denotes_finite t hd
      have hequal := (hx.eq_iff hvalue).mp h
      have hne : toRat (.finite t n d hd) ≠ 0 := fun hzero =>
        hy ((hvalue.eq_iff (denotes_zero false)).mpr (hzero.trans (denotes_zero false).toRat_pos.symm))
      have hxne := hne
      rw [← hequal] at hxne
      obtain rfl : s = t := by rw [hx.sign_eq hxne, hvalue.sign_eq hne, hequal]
      rw [← hx.abs_toRat, hequal, hvalue.abs_toRat] at hx
      exact hx.unique hvalue

/-! ### Comparisons -/

/-- A zero is not less than zero. -/
theorem IsZero.lt_zero (h : x.IsZero) : x.lt (zero false) = false := by
  obtain ⟨s, rfl⟩ := isZero_iff.mp h
  cases s <;> decide +kernel

/-- What is no smaller than the least double is not rounded to zero. -/
theorem zero_lt_ofMagnitude (h : 2 ^ (-1074 : ℤ) ≤ q) :
    (zero false).lt (ofMagnitude false q) = true := by
  have hpos : 0 < q := (zpow_two_pos _).trans_le h
  have hzero : (zero false).toRat = 0 := (denotes_zero false).toRat_pos
  unfold ofMagnitude
  rw [if_neg hpos.ne']
  dsimp only
  split_ifs with hcanonical hcarry
  · have hsignificand : (roundHalfEven (q / 2 ^ lastPlace q)).toNat ≠ 0 := by
      intro hnone
      rw [hnone] at hcanonical
      rw [canonical_zero_exponent hcanonical] at hnone
      have hone : 1 ≤ roundHalfEven (q / 2 ^ (-1074 : ℤ)) :=
        le_roundHalfEven (by simpa using (one_le_div (zpow_two_pos _)).mpr h)
      omega
    rw [(denotes_zero false).lt_iff (denotes_finite false hcanonical), hzero,
      (denotes_finite false hcanonical).toRat_pos]
    exact mul_pos (by exact_mod_cast Nat.pos_of_ne_zero hsignificand) (zpow_two_pos _)
  · rw [(denotes_zero false).lt_iff (denotes_finite false hcarry.2), hzero,
      (denotes_finite false hcarry.2).toRat_pos]
    exact mul_pos (by exact_mod_cast twoPow_pos 52) (zpow_two_pos _)
  · rfl

/-- **Positive integers stay positive**, also where they are too large for a double. -/
theorem zero_lt_ofInt {n : ℤ} (h : 0 < n) : (zero false).lt (ofInt n) = true := by
  have hone : (1 : ℚ) ≤ n := by exact_mod_cast h
  unfold ofInt ofRat
  rw [if_neg (by linarith)]
  exact zero_lt_ofMagnitude ((zpow_le_one_of_nonpos₀ one_le_two (by norm_num)).trans hone)

/-! ### What is computed from zeros -/

theorem IsZero.add (hx : x.IsZero) (hy : y.IsZero) : (x + y).IsZero := by
  obtain ⟨s, rfl⟩ := isZero_iff.mp hx
  obtain ⟨t, rfl⟩ := isZero_iff.mp hy
  cases s <;> cases t <;> decide +kernel

/-- A sum of zeros is zero. -/
theorem isZero_sum {xs : List Binary64} (h : ∀ x ∈ xs, x.IsZero) : (sum xs).IsZero := by
  have hfold : ∀ start : Binary64, start.IsZero → (xs.foldl (· + ·) start).IsZero := by
    induction xs with
    | nil => exact fun _ hstart => hstart
    | cons x rest ih =>
      exact fun start hstart => ih (fun y hy => h y (List.mem_cons_of_mem _ hy)) _
        (hstart.add (h x List.mem_cons_self))
  exact hfold _ (isZero_zero true)

/-- Zero divided by a positive number is zero, also if the number is infinite. -/
theorem IsZero.div (hx : x.IsZero) (hy : (zero false).lt y = true) : (x / y).IsZero := by
  obtain ⟨s, rfl⟩ := isZero_iff.mp hx
  cases y with
  | nan => cases hy
  | infinity t =>
    rw [(denotes_zero s).div_infinity]
    exact isZero_zero _
  | finite t m e hc =>
    have hvalue := denotes_finite t hc
    have hne : (m : ℚ) * 2 ^ e ≠ 0 := by
      intro hnone
      rw [(denotes_zero false).lt_iff hvalue, (denotes_zero false).toRat_pos, hvalue.toRat_eq,
        hnone] at hy
      simp at hy
    have hquotient := (denotes_zero s).div hvalue hne (by rw [zero_div]; exact isMagnitude_zero)
    rw [zero_div] at hquotient
    exact isZero_iff.mpr ⟨_, hquotient.unique (denotes_zero _)⟩

/-- The product of zero with a finite number is zero. -/
theorem IsZero.mul (hx : x.IsZero) (hy : y.isFinite = true) : (x * y).IsZero := by
  obtain ⟨s, rfl⟩ := isZero_iff.mp hx
  have hproduct := (denotes_zero s).mul (denotes_self hy)
    (by rw [zero_mul]; exact isMagnitude_zero)
  rw [zero_mul] at hproduct
  exact isZero_iff.mpr ⟨_, hproduct.unique (denotes_zero _)⟩

/-- Zero is rounded and converted to zero. -/
theorem IsZero.toInt64_roundEven (h : x.IsZero) : x.roundEven.toInt64 = 0 := by
  obtain ⟨s, rfl⟩ := isZero_iff.mp h
  cases s <;> decide +kernel

end DyadicNet.Binary64
