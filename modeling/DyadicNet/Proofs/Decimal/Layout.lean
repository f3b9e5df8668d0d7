import Mathlib
import DyadicNet.Decimal.Layout
import DyadicNet.Proofs.Decimal.Shortest

/-!
# Written doubles read back

A layout moves the point about and fills up with zeros, but **it does not change the value** that
the chosen digits have.  The value lies in the interval of the double, so reading the numeral gives
the double back, with its sign: also minus zero, whose numeral is the only one that is not placed.

## Main Definitions

* `Numeral.magnitude` — the value of a numeral without its sign;
* `Numeral.IsPlain` — that a numeral is written as a number is: digits everywhere, and no zero too
  many in front.

## Main Statements

* `Numeral.toBinary64_eq` — a numeral of a common size reads as the double nearest to its value;
* `Layout.toBinary64_of_numeral?` — **every layout of a finite double reads back as that double**;
* `Layout.isPlain_of_numeral?` — and is written as a number.
-/

namespace DyadicNet

namespace Numeral

/-- The value of a numeral without its sign. -/
def magnitude (x : Numeral) : ℚ :=
  ofDigits (x.whole ++ x.fraction) * 10 ^ (x.exponent.getD 0 - x.fraction.length)

/-- A numeral of a size that doubles have reads as the double nearest to its value. -/
theorem toBinary64_eq {x : Numeral} (hdigits : AreDigits (x.whole ++ x.fraction))
    (hlow : (10 : ℚ) ^ (-400 : ℤ) ≤ x.magnitude) (hhigh : x.magnitude < 10 ^ (400 : ℤ)) :
    x.toBinary64 = .ofMagnitude x.negative x.magnitude := by
  have hten : (0 : ℚ) < 10 := by norm_num
  set significant := (x.whole ++ x.fraction).dropWhile (· == 0) with hsignificant
  set scale : ℤ := x.exponent.getD 0 - x.fraction.length with hscale
  have hvalue : x.magnitude = ofDigits significant * 10 ^ scale := by
    rw [hsignificant, ofDigits_dropWhile_zero]
    rfl
  have hne : significant ≠ [] := by
    intro hnil
    rw [hvalue, hnil] at hlow
    simp only [ofDigits, List.foldl_nil, Nat.cast_zero, zero_mul] at hlow
    exact absurd hlow (not_le.mpr (zpow_pos hten _))
  have hupper : x.magnitude < 10 ^ (scale + significant.length) := by
    have hlt : ((ofDigits significant : ℕ) : ℚ) < 10 ^ (significant.length : ℤ) := by
      rw [zpow_natCast]
      exact_mod_cast ofDigits_lt fun d hd => hdigits d ((List.dropWhile_sublist _).subset hd)
    rw [hvalue, add_comm, zpow_add₀ hten.ne']
    exact mul_lt_mul_of_pos_right hlt (zpow_pos hten _)
  have hlower : (10 : ℚ) ^ (scale + significant.length - 1) ≤ x.magnitude := by
    have hle : (10 : ℚ) ^ ((significant.length - 1 : ℕ) : ℤ) ≤ ofDigits significant := by
      rw [zpow_natCast]
      exact_mod_cast le_ofDigits (leads_dropWhile_zero hne)
    have hlength := List.length_pos_iff.mpr hne
    rw [hvalue, show scale + significant.length - 1 = ((significant.length - 1 : ℕ) : ℤ) + scale by
      omega, zpow_add₀ hten.ne']
    exact mul_le_mul_of_nonneg_right hle (zpow_pos hten _).le
  -- the leading digit is in sight, so neither of the two shortcuts is taken
  have hbelow := (zpow_lt_zpow_iff_right₀ (by norm_num : (1 : ℚ) < 10)).mp (hlower.trans_lt hhigh)
  have habove := (zpow_lt_zpow_iff_right₀ (by norm_num : (1 : ℚ) < 10)).mp (hlow.trans_lt hupper)
  unfold toBinary64
  dsimp only
  rw [← hsignificant, ← hscale, if_neg (by simpa using hne), if_neg (by omega), if_neg (by omega),
    ← hvalue]

/-- A numeral is written as a number is: there is a digit in front of the point, and a zero there
stands alone. -/
structure IsPlain (x : Numeral) : Prop where
  whole : x.whole = [0] ∨ Leads x.whole
  digits : AreDigits (x.whole ++ x.fraction)

/-- Whether a numeral has a point or an exponent. -/
def IsMarked (x : Numeral) : Prop :=
  x.fraction ≠ [] ∨ x.exponent.isSome

end Numeral

namespace Layout

variable {layout : Layout} {negative : Bool} {digits : List ℕ} {leading : ℤ}

/-- The digits after the point, with a zero in place of none where integers are marked. -/
def markedFraction (layout : Layout) (fraction : List ℕ) : List ℕ :=
  if fraction.isEmpty && layout.marksFloat then [0] else fraction

/-- The three ways of writing digits: the point among or after them, in front of them, or behind
the first one with an exponent. -/
theorem place_cases (layout : Layout) (negative : Bool) (digits : List ℕ) (leading : ℤ) :
    (0 ≤ leading ∧ layout.place negative digits leading
        = ⟨negative, digits.take (leading.toNat + 1)
            ++ List.replicate (leading.toNat + 1 - digits.length) 0,
          layout.markedFraction (digits.drop (leading.toNat + 1)), none⟩)
      ∨ (leading < 0 ∧ layout.place negative digits leading
        = ⟨negative, [0],
          layout.markedFraction (List.replicate ((-leading).toNat - 1) 0 ++ digits), none⟩)
      ∨ layout.place negative digits leading
        = ⟨negative, digits.take 1, digits.drop 1, some leading⟩ := by
  unfold place
  by_cases hpositional : layout.positional leading = true
  · by_cases hfront : 0 ≤ leading
    · exact .inl ⟨hfront, by rw [if_pos hpositional, if_pos hfront]; rfl⟩
    · exact .inr (.inl ⟨not_le.mp hfront, by rw [if_pos hpositional, if_neg hfront]; rfl⟩)
  · exact .inr (.inr (by rw [if_neg hpositional]))

theorem areDigits_markedFraction {fraction : List ℕ} (h : AreDigits fraction) :
    AreDigits (layout.markedFraction fraction) := by
  unfold markedFraction
  split_ifs
  · exact List.forall_mem_singleton.mpr (by decide)
  · exact h

/-- A zero after the point changes nothing. -/
theorem magnitude_markedFraction (whole fraction : List ℕ) :
    Numeral.magnitude ⟨negative, whole, layout.markedFraction fraction, none⟩
      = Numeral.magnitude ⟨negative, whole, fraction, none⟩ := by
  unfold markedFraction
  split_ifs with h
  · obtain rfl : fraction = [] := by simpa using (Bool.and_eq_true_iff.mp h).1
    simp only [Numeral.magnitude, ofDigits_concat, List.append_nil]
    norm_num
    ring
  · rfl

/-- **A layout keeps the value of the digits.** -/
theorem magnitude_place (layout : Layout) (negative : Bool) (leading : ℤ) (h : digits ≠ []) :
    (layout.place negative digits leading).magnitude
      = ofDigits digits * 10 ^ (leading + 1 - digits.length) := by
  have hten : (10 : ℚ) ≠ 0 := by norm_num
  have hlength := List.length_pos_iff.mpr h
  rcases layout.place_cases negative digits leading with ⟨hfront, heq⟩ | ⟨hbehind, heq⟩ | heq <;>
    rw [heq]
  · rw [magnitude_markedFraction, Numeral.magnitude]
    rcases le_or_gt digits.length (leading.toNat + 1) with hle | hlt
    · -- all digits are in front of the point, and zeros after them
      rw [List.take_of_length_le hle, List.drop_of_length_le hle, List.append_nil, ofDigits_append,
        ofDigits_replicate_zero, List.length_replicate, add_zero, Nat.cast_mul, Nat.cast_pow,
        Nat.cast_ofNat, ← zpow_natCast, mul_assoc, ← zpow_add₀ hten]
      congr 2
      simp only [Option.getD_none, List.length_nil]
      omega
    · rw [Nat.sub_eq_zero_of_le hlt.le, List.replicate_zero, List.append_nil,
        List.take_append_drop]
      congr 2
      simp only [Option.getD_none, List.length_drop]
      omega
  · have hzeros : [0] ++ (List.replicate ((-leading).toNat - 1) 0 ++ digits)
        = List.replicate ((-leading).toNat - 1 + 1) 0 ++ digits := rfl
    rw [magnitude_markedFraction, Numeral.magnitude]
    dsimp only
    rw [hzeros, ofDigits_append, ofDigits_replicate_zero, zero_mul, zero_add]
    congr 2
    simp only [Option.getD_none, List.length_append, List.length_replicate]
    omega
  · rw [Numeral.magnitude]
    dsimp only
    rw [List.take_append_drop]
    congr 2
    simp only [Option.getD_some, List.length_drop]
    omega

theorem negative_place : (layout.place negative digits leading).negative = negative := by
  rcases layout.place_cases negative digits leading with ⟨-, heq⟩ | ⟨-, heq⟩ | heq <;> rw [heq]

/-- Digits that start with a digit other than zero are written as a number. -/
theorem isPlain_place (hleads : Leads digits) (h : AreDigits digits) :
    (layout.place negative digits leading).IsPlain := by
  have hzeros : ∀ count, AreDigits (List.replicate count 0) := fun count other hother => by
    rw [List.eq_of_mem_replicate hother]
    decide
  have htake : ∀ count, AreDigits (digits.take count) := fun count other hother =>
    h other (List.mem_of_mem_take hother)
  have hdrop : ∀ count, AreDigits (digits.drop count) := fun count other hother =>
    h other (List.mem_of_mem_drop hother)
  rcases layout.place_cases negative digits leading with ⟨hfront, heq⟩ | ⟨hbehind, heq⟩ | heq <;>
    rw [heq]
  · refine ⟨.inr ((hleads.take _).append _), ?_⟩
    exact ((htake _).append (hzeros _)).append (areDigits_markedFraction (hdrop _))
  · refine ⟨.inl rfl, ?_⟩
    exact (hzeros 1).append (areDigits_markedFraction ((hzeros _).append h))
  · exact ⟨.inr (hleads.take 0), (htake 1).append (hdrop 1)⟩

/-- Where integers are marked, everything shows that it is not an integer. -/
theorem isMarked_place (hmarks : layout.marksFloat = true) :
    (layout.place negative digits leading).IsMarked := by
  have hne : ∀ fraction, layout.markedFraction fraction ≠ [] := by
    intro fraction
    unfold markedFraction
    rw [hmarks, Bool.and_true]
    split_ifs with hempty
    · exact List.cons_ne_nil 0 []
    · simpa using hempty
  rcases layout.place_cases negative digits leading with ⟨-, heq⟩ | ⟨-, heq⟩ | heq <;> rw [heq]
  · exact .inl (hne _)
  · exact .inl (hne _)
  · exact .inr rfl

/-! ### Numerals of doubles -/

/-- The numeral of a finite double is that of a zero or places the digits of the double. -/
theorem numeral?_finite (layout : Layout) (negative : Bool) {m : ℕ} {e : ℤ}
    (h : Binary64.Canonical m e) :
    (m = 0 ∧ layout.numeral? (.finite negative m e h)
        = some ⟨negative, [0], layout.markedFraction [], none⟩)
      ∨ (m ≠ 0 ∧ layout.numeral? (.finite negative m e h)
        = some (layout.place negative (Shortest.digits layout.tie m e).1
          (Shortest.digits layout.tie m e).2)) := by
  by_cases hm : m = 0
  · exact .inl ⟨hm, by rw [numeral?, if_pos hm]; rfl⟩
  · exact .inr ⟨hm, by rw [numeral?, if_neg hm]⟩

/-- Ten is more than three powers of two. -/
private theorem zpow_two_le_zpow_ten (n : ℕ) : (2 : ℚ) ^ (3 * n : ℤ) ≤ 10 ^ (n : ℤ) := by
  rw [zpow_mul, zpow_natCast, zpow_natCast]
  exact pow_le_pow_left₀ (by norm_num) (by norm_num) n

/-- A number of the interval of a double has a common size. -/
theorem size_of_holds {m : ℕ} {e : ℤ} {q : ℚ} (h : Binary64.Canonical m e) (hm : m ≠ 0)
    (hq : (Shortest.interval m e).holds q) :
    (10 : ℚ) ^ (-400 : ℤ) ≤ q ∧ q < 10 ^ (400 : ℤ) := by
  have hunit := zpow_two_pos e
  have hone : (1 : ℚ) ≤ m := by exact_mod_cast Nat.one_le_iff_ne_zero.mpr hm
  obtain ⟨hlower, hupper, -⟩ := Shortest.near_of_holds hq
  constructor
  · have hhalf : (2 : ℚ) ^ (-1 : ℤ) ≤ q / 2 ^ e := by
      split_ifs at hlower <;> norm_num <;> linarith
    calc (10 : ℚ) ^ (-400 : ℤ) ≤ 2 ^ (-1200 : ℤ) := by
          rw [zpow_neg, zpow_neg]
          exact inv_anti₀ (zpow_two_pos 1200) (zpow_two_le_zpow_ten 400)
      _ ≤ 2 ^ (-1 + e) := zpow_le_zpow_right₀ one_le_two (by have := h.2.1; omega)
      _ = 2 ^ (-1 : ℤ) * 2 ^ e := zpow_two_add _ _
      _ ≤ q := (le_div_iff₀ hunit).mp hhalf
  · have htop : q / 2 ^ e ≤ 2 ^ (53 : ℤ) := by
      have hstep : (m : ℚ) + 1 ≤ (twoPow 53 : ℕ) := by exact_mod_cast h.1
      rw [cast_twoPow] at hstep
      push_cast at hstep
      linarith
    calc q ≤ 2 ^ (53 : ℤ) * 2 ^ e := (div_le_iff₀ hunit).mp htop
      _ = 2 ^ (53 + e) := (zpow_two_add _ _).symm
      _ < 2 ^ (1200 : ℤ) := zpow_lt_zpow_right₀ one_lt_two (by have := h.2.2.1; omega)
      _ ≤ 10 ^ (400 : ℤ) := zpow_two_le_zpow_ten 400

/-- **Every layout of a finite double reads back as that double**, bit for bit. -/
theorem toBinary64_of_numeral? {x : Binary64} {numeral : Numeral}
    (h : layout.numeral? x = some numeral) : numeral.toBinary64 = x := by
  cases x with
  | nan => cases h
  | infinity => cases h
  | finite negative m e hcanonical =>
    rcases layout.numeral?_finite negative hcanonical with ⟨rfl, heq⟩ | ⟨hm, heq⟩ <;>
      obtain rfl := Option.some.inj (heq.symm.trans h)
    · obtain rfl := Binary64.canonical_zero_exponent hcanonical
      unfold markedFraction
      split_ifs <;> rfl
    · obtain ⟨hleads, hdigits, hholds⟩ := Shortest.digits_spec (e := e) layout.tie hm
      have hmagnitude := layout.magnitude_place negative (Shortest.digits layout.tie m e).2
        hleads.ne_nil
      have hsize := size_of_holds hcanonical hm hholds
      rw [← hmagnitude] at hholds hsize
      rw [Numeral.toBinary64_eq (isPlain_place hleads hdigits).digits hsize.1 hsize.2,
        negative_place]
      exact Shortest.ofMagnitude_of_holds negative hcanonical hm hholds

theorem isPlain_of_numeral? {x : Binary64} {numeral : Numeral}
    (h : layout.numeral? x = some numeral) : numeral.IsPlain := by
  cases x with
  | nan => cases h
  | infinity => cases h
  | finite negative m e hcanonical =>
    rcases layout.numeral?_finite negative hcanonical with ⟨-, heq⟩ | ⟨hm, heq⟩ <;>
      obtain rfl := Option.some.inj (heq.symm.trans h)
    · have hzero : AreDigits [0] := List.forall_mem_singleton.mpr (by decide)
      exact ⟨.inl rfl, hzero.append (areDigits_markedFraction (List.forall_mem_nil _))⟩
    · obtain ⟨hleads, hdigits, -⟩ := Shortest.digits_spec (e := e) layout.tie hm
      exact isPlain_place hleads hdigits

theorem isMarked_of_numeral? (hmarks : layout.marksFloat = true) {x : Binary64}
    {numeral : Numeral} (h : layout.numeral? x = some numeral) : numeral.IsMarked := by
  cases x with
  | nan => cases h
  | infinity => cases h
  | finite negative m e hcanonical =>
    rcases layout.numeral?_finite negative hcanonical with ⟨-, heq⟩ | ⟨-, heq⟩ <;>
      obtain rfl := Option.some.inj (heq.symm.trans h)
    · refine .inl ?_
      unfold markedFraction
      rw [hmarks]
      exact List.cons_ne_nil 0 []
    · exact isMarked_place hmarks

end Layout

end DyadicNet
