import DyadicNet.TwoPow

/-!
# Rounding to integers

Every number in a quantized network is an integer that stands for `integer · 2ᵉ`, and every
step of the arithmetic ends by bringing an exact value back to an integer.  One rule does this
everywhere: **the nearest integer, and of two equally near ones the even one**.

## Main definitions

* `roundHalfEven` — the rule, on exact rationals;
* `clampInt`, `saturate64` — keeping an integer inside a range;
* `shiftHalfEven` — multiplying a machine integer by a power of two, in either direction, with
  the same rule for the bits that fall off and saturation for the bits that overflow.

## Design notes

Machine integers are plain `Int`s; an operation that has a machine bound says so by clamping.
Statements about them are then statements about `Int`, with no modular arithmetic in the way.
-/

namespace DyadicNet

/-- The integer nearest to `q`; a value half way between two integers goes to the even one. -/
def roundHalfEven (q : Rat) : Int :=
  let below := q.floor
  let rest := q - below
  if rest < 1 / 2 then below
  else if 1 / 2 < rest then below + 1
  else if below % 2 = 0 then below
  else below + 1

/-- The value of the interval from `lo` to `hi` that is nearest to `v`. -/
def clampInt (lo hi v : Int) : Int :=
  max lo (min v hi)

theorem le_clampInt (lo hi v : Int) : lo ≤ clampInt lo hi v := by
  unfold clampInt; omega

theorem clampInt_le {lo hi : Int} (h : lo ≤ hi) (v : Int) : clampInt lo hi v ≤ hi := by
  unfold clampInt; omega

@[simp] theorem clampInt_eq_self {lo hi v : Int} (hl : lo ≤ v) (hh : v ≤ hi) :
    clampInt lo hi v = v := by
  unfold clampInt; omega

/-! ### Signed machine integers -/

/-- The least value of a two's complement integer of the given width. -/
def signedMin (bits : Nat) : Int :=
  -(twoPow (bits - 1) : Int)

/-- The greatest value of a two's complement integer of the given width. -/
def signedMax (bits : Nat) : Int :=
  (twoPow (bits - 1) : Int) - 1

/-- The value of the 64-bit range nearest to `v`. -/
def saturate64 (v : Int) : Int :=
  clampInt (signedMin 64) (signedMax 64) v

/-- The 64-bit integer with the same low 64 bits as `v`. -/
def wrap64 (v : Int) : Int :=
  Int.bmod v (twoPow 64)

/-- The 32-bit integer with the same low 32 bits as `v`. -/
def wrap32 (v : Int) : Int :=
  Int.bmod v (twoPow 32)

/-! ### Shifts -/

/-- Dividing by `2 ^ shift`, to the nearest integer with ties to even.  The quotient is taken
toward minus infinity, so that the remainder is never negative and the tie is at one half of the
divisor for either sign. -/
def divPowHalfEven (value : Int) (shift : Nat) : Int :=
  let unit : Int := twoPow shift
  let quotient := value / unit
  let remainder := value % unit
  if unit < 2 * remainder ∨ (2 * remainder = unit ∧ quotient % 2 = 1) then quotient + 1
  else quotient

/-- Multiplying a 64-bit integer by `2 ^ (-shift)`: a positive shift divides and rounds, and 63
places or more leave nothing; a shift that is not positive multiplies and saturates. -/
def shiftHalfEven (value shift : Int) : Int :=
  if shift ≤ 0 then
    if value = 0 then 0
    else if shift ≤ -63 then (if 0 < value then signedMax 64 else signedMin 64)
    else saturate64 (value * twoPow (-shift).toNat)
  else if 63 ≤ shift then 0
  else divPowHalfEven value shift.toNat

end DyadicNet
