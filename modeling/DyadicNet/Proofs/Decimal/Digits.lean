import Mathlib
import DyadicNet.Decimal.Numeral

/-!
# Digits of numbers

A list of digits is written down with its first digit first, and it is read from the front until a
character comes that is no digit.  So **what was written is read back** as soon as something else
follows, and the number that the digits stand for comes out again.

## Main Definitions

* `AreDigits` — that the members of a list are digits;
* `Leads` — that a list of digits does not start with a zero.

## Main Statements

* `ofDigits_decimalDigits` — the digits of a number stand for it;
* `ofDigits_lt`, `le_ofDigits` — the size of a number by its digits;
* `takeDigits_digitChars` — written digits are read back.
-/

namespace DyadicNet

variable {n : ℕ} {digits : List ℕ}

/-- The members of a list are decimal digits. -/
def AreDigits (digits : List ℕ) : Prop :=
  ∀ d ∈ digits, d < 10

/-- There is a first digit, and it is not zero. -/
def Leads (digits : List ℕ) : Prop :=
  ∃ d rest, digits = d :: rest ∧ d ≠ 0

theorem Leads.ne_nil (h : Leads digits) : digits ≠ [] := by
  obtain ⟨d, rest, rfl, -⟩ := h
  exact List.cons_ne_nil d rest

theorem Leads.take (h : Leads digits) (count : ℕ) : Leads (digits.take (count + 1)) := by
  obtain ⟨d, rest, rfl, hd⟩ := h
  exact ⟨d, rest.take count, List.take_succ_cons, hd⟩

theorem Leads.append (h : Leads digits) (rest : List ℕ) : Leads (digits ++ rest) := by
  obtain ⟨d, front, rfl, hd⟩ := h
  exact ⟨d, front ++ rest, List.cons_append, hd⟩

theorem AreDigits.append {rest : List ℕ} (h : AreDigits digits) (hrest : AreDigits rest) :
    AreDigits (digits ++ rest) := by
  intro d hd
  rcases List.mem_append.mp hd with hd | hd
  · exact h d hd
  · exact hrest d hd

/-! ### The number that digits stand for -/

theorem ofDigits_concat (digits : List ℕ) (d : ℕ) :
    ofDigits (digits ++ [d]) = 10 * ofDigits digits + d := by
  unfold ofDigits
  rw [List.foldl_append]
  rfl

/-- The first digit counts most, so the positional value is that of the reversed list. -/
theorem ofDigits_eq (digits : List ℕ) : ofDigits digits = Nat.ofDigits 10 digits.reverse := by
  induction digits using List.reverseRecOn with
  | nil => rfl
  | append_singleton front d ih =>
    rw [ofDigits_concat, ih, List.reverse_append, List.reverse_singleton, List.singleton_append,
      Nat.ofDigits_cons]
    simp [add_comm]

theorem ofDigits_append (front back : List ℕ) :
    ofDigits (front ++ back) = ofDigits front * 10 ^ back.length + ofDigits back := by
  simp only [ofDigits_eq, List.reverse_append, Nat.ofDigits_append, List.length_reverse]
  ring

theorem ofDigits_replicate_zero (count : ℕ) : ofDigits (List.replicate count 0) = 0 := by
  rw [ofDigits_eq, List.reverse_replicate, Nat.ofDigits_replicate_zero]

/-- Zeros in front count for nothing. -/
theorem ofDigits_dropWhile_zero (digits : List ℕ) :
    ofDigits (digits.dropWhile (· == 0)) = ofDigits digits := by
  induction digits with
  | nil => rfl
  | cons d rest ih =>
    rw [List.dropWhile_cons]
    split_ifs with hzero
    · rw [ih, beq_iff_eq.mp hzero, ← List.singleton_append, ofDigits_append]
      simp [ofDigits]
    · rfl

/-- What is left without the zeros in front has a first digit that is not zero. -/
theorem leads_dropWhile_zero (h : digits.dropWhile (· == 0) ≠ []) :
    Leads (digits.dropWhile (· == 0)) := by
  obtain ⟨d, rest, hcons⟩ := List.exists_cons_of_ne_nil h
  refine ⟨d, rest, hcons, ?_⟩
  have hhead := List.head_dropWhile_not (· == 0) h
  simpa [hcons] using hhead

theorem ofDigits_lt (h : AreDigits digits) : ofDigits digits < 10 ^ digits.length := by
  rw [ofDigits_eq, ← List.length_reverse]
  exact Nat.ofDigits_lt_base_pow_length (by decide) fun d hd => h d (List.mem_reverse.mp hd)

theorem le_ofDigits (h : Leads digits) : 10 ^ (digits.length - 1) ≤ ofDigits digits := by
  obtain ⟨d, rest, rfl, hd⟩ := h
  have hvalue : ofDigits (d :: rest) = d * 10 ^ rest.length + ofDigits rest := by
    rw [← List.singleton_append, ofDigits_append]
    simp [ofDigits]
  rw [hvalue, List.length_cons, Nat.add_sub_cancel]
  exact (Nat.le_mul_of_pos_left _ (Nat.pos_of_ne_zero hd)).trans (Nat.le_add_right _ _)

/-! ### The digits of a number -/

theorem decimalDigits_zero : decimalDigits 0 = [0] := by
  rw [decimalDigits]
  rfl

theorem decimalDigits_eq (h : n ≠ 0) : decimalDigits n = (Nat.digits 10 n).reverse := by
  induction n using Nat.strong_induction_on with
  | _ n ih =>
    rw [decimalDigits, Nat.digits_def' (by decide) (Nat.pos_of_ne_zero h)]
    split_ifs with hsmall
    · rw [Nat.mod_eq_of_lt hsmall, Nat.div_eq_of_lt hsmall]
      rfl
    · rw [ih (n / 10) (by omega) (by omega), List.reverse_cons]

theorem decimalDigits_ne_nil (n : ℕ) : decimalDigits n ≠ [] := by
  rw [decimalDigits]
  split_ifs <;> simp

theorem ofDigits_decimalDigits (n : ℕ) : ofDigits (decimalDigits n) = n := by
  by_cases h : n = 0
  · rw [h, decimalDigits_zero]
    rfl
  · rw [decimalDigits_eq h, ofDigits_eq, List.reverse_reverse, Nat.ofDigits_digits]

theorem areDigits_decimalDigits (n : ℕ) : AreDigits (decimalDigits n) := by
  intro d hd
  by_cases h : n = 0
  · rw [h, decimalDigits_zero, List.mem_singleton] at hd
    omega
  · rw [decimalDigits_eq h, List.mem_reverse] at hd
    exact Nat.digits_lt_base (by decide) hd

theorem leads_decimalDigits (h : n ≠ 0) : Leads (decimalDigits n) := by
  have hne : Nat.digits 10 n ≠ [] := Nat.digits_ne_nil_iff_ne_zero.mpr h
  have hlast := Nat.getLast_digit_ne_zero 10 h
  refine ⟨(Nat.digits 10 n).getLast hne, (Nat.digits 10 n).dropLast.reverse, ?_, hlast⟩
  rw [decimalDigits_eq h]
  conv_lhs => rw [← List.dropLast_append_getLast hne]
  simp

/-! ### Characters -/

/-- A text does not go on with a digit. -/
def EndsDigits (rest : List Char) : Prop :=
  ∀ c ∈ rest.head?, c.isDigit = false

/-- **Written digits are read back**, up to the character that is no digit. -/
theorem takeDigits_digitChars {rest : List Char} (h : AreDigits digits) (hrest : EndsDigits rest) :
    takeDigits (digitChars digits ++ rest) = (digits, rest) := by
  induction digits with
  | nil =>
    cases rest with
    | nil => rfl
    | cons c rest =>
      have hc : c.isDigit = false := hrest c rfl
      simp [takeDigits, digitChars, hc]
  | cons d digits ih =>
    have hd : d < 10 := h d List.mem_cons_self
    have hdigit : (Nat.digitChar d).isDigit = true := by
      rw [Nat.isDigit_digitChar]
      exact decide_eq_true hd
    have hvalue : (Nat.digitChar d).toNat - '0'.toNat = d := by
      rw [Nat.toNat_digitChar_of_lt_ten hd]
      exact Nat.add_sub_cancel_left 48 d
    have hdigits := ih fun other hother => h other (List.mem_cons_of_mem _ hother)
    obtain ⟨hfront, hback⟩ := Prod.mk.inj hdigits
    have hcons : digitChars (d :: digits) ++ rest
        = Nat.digitChar d :: (digitChars digits ++ rest) := rfl
    unfold takeDigits
    rw [hcons, List.takeWhile_cons_of_pos hdigit, List.dropWhile_cons_of_pos hdigit,
      List.map_cons, hfront, hback, hvalue]

end DyadicNet
