import DyadicNet.Binary64.Basic

/-!
# The interchange encoding of doubles

A double is stored in 64 bits: a sign, eleven bits of biased exponent and 52 bits of significand.
The bit above the significand is implied: it is set unless the exponent field is zero.  An
exponent field of all ones marks the infinities and *not a number*.

* `Binary64.ofBits` reads every word;
* `Binary64.toBits` writes the word of a double, with one fixed word for *not a number*.
-/

namespace DyadicNet.Binary64

/-- A significand with the bit that is implied. -/
theorem canonical_of_field {fraction field : Nat} (hf : fraction < twoPow 52)
    (h₀ : field ≠ 0) (h : field < twoPow 11 - 1) :
    Canonical (twoPow 52 + fraction) ((field : Int) - 1075) := by
  have h11 : twoPow 11 = 2048 := rfl
  have h53 : twoPow 53 = 2 * twoPow 52 := rfl
  unfold Canonical
  omega

/-- A significand without the bit that is implied. -/
theorem canonical_of_zero_field {fraction : Nat} (hf : fraction < twoPow 52) :
    Canonical fraction (-1074) := by
  have h53 : twoPow 53 = 2 * twoPow 52 := rfl
  unfold Canonical
  omega

/-- The double that a 64-bit word encodes. -/
def ofBits (word : UInt64) : Binary64 :=
  let bits : Nat := word.toNat
  let negative := decide (twoPow 63 ≤ bits)
  let field : Nat := bits / twoPow 52 % twoPow 11
  let fraction : Nat := bits % twoPow 52
  have hf : fraction < twoPow 52 := Nat.mod_lt _ (twoPow_pos 52)
  if h₀ : field = 0 then .finite negative fraction (-1074) (canonical_of_zero_field hf)
  else if h₁ : field = twoPow 11 - 1 then
    if fraction = 0 then .infinity negative else .nan
  else
    have h : field < twoPow 11 - 1 := by
      have : field < twoPow 11 := Nat.mod_lt _ (twoPow_pos 11)
      omega
    .finite negative (twoPow 52 + fraction) ((field : Int) - 1075) (canonical_of_field hf h₀ h)

/-- The 64-bit word that encodes a double. -/
def toBits : Binary64 → UInt64
  | .nan => 0x7ff8000000000000
  | .infinity negative => assemble negative (twoPow 11 - 1) 0
  | .finite negative m e _ =>
    if m < twoPow 52 then assemble negative 0 m
    else assemble negative (e + 1075).toNat (m - twoPow 52)
where
  /-- The three fields side by side. -/
  assemble (negative : Bool) (field fraction : Nat) : UInt64 :=
    UInt64.ofNat ((if negative then twoPow 63 else 0) + field * twoPow 52 + fraction)

end DyadicNet.Binary64
