import DyadicNet.Binary64.Basic

/-!
# Binary logarithms

`Binary64.log2` gives the double nearest to the base two logarithm of a double.  The logarithm of
`m · 2ᵉ` with `1 ≤ m < 2` is `e` plus that of `m`, and the binary digits of the latter come one by
one: **squaring doubles a logarithm**, so the next digit tells whether the square reached two.

The squares are kept to `workingBits` places, cut off.  After `digitCount` squarings the error is
still far below the last digit, and the digits themselves go far beyond a double, so the rounding
at the end sees the digits of the true logarithm.  A power of two stays exactly `1` under squaring:
its logarithm is exact.
-/

namespace DyadicNet.Binary64

/-- The number of binary places to which the squares are kept. -/
def workingBits : Nat := 256

/-- The number of binary digits of the fraction of a logarithm that are computed. -/
def digitCount : Nat := 128

/-- The first `count` binary digits of the logarithm of `y`, where `y` counts units of
`2 ^ (-workingBits)` and lies between one and two; and what is left of `y` after them. -/
def logDigits (y digits : Nat) : Nat → Nat × Nat
  | 0 => (digits, y)
  | count + 1 =>
    let square := y * y / twoPow workingBits
    if twoPow (workingBits + 1) ≤ square then logDigits (square / 2) (2 * digits + 1) count
    else logDigits square (2 * digits) count

/-- The fraction of the logarithm of the positive integer `m`.  One more digit stands for what
follows the computed ones: it is zero only if nothing follows. -/
def logFraction (m : Nat) : Rat :=
  let one := twoPow workingBits
  let (digits, rest) := logDigits (m * one / twoPow m.log2) 0 digitCount
  mkRat (2 * digits + if rest = one then 0 else 1) (twoPow (digitCount + 1))

/-- The double nearest to the base two logarithm. -/
def log2 : Binary64 → Binary64
  | .nan => .nan
  | .infinity negative => if negative then .nan else .infinity false
  | .finite negative m e _ =>
    if m = 0 then .infinity true
    else if negative then .nan
    else ofRat ((e + m.log2 : Int) + logFraction m)

end DyadicNet.Binary64
