import DyadicNet.Binary64.Log2
import DyadicNet.FixedPoint.Format

/-!
# Weights that are powers of two

Multiplying by `± 2ᵉ` is a shift.  A weight that may only take such values is stored as a sign and
an exponent, and a value is snapped to the nearest one on the logarithmic scale.

* `FixedPoint.SignedPower` — the type;
* `SignedPower.value`, `SignedPower.bits?` — its value, and its code with a three-bit field;
* `SignedPower.nearest?`, `SignedPower.nearestBy?` — snapping a double, by any logarithm.
-/

namespace DyadicNet.FixedPoint

/-- A power of two with a sign. -/
structure SignedPower where
  /-- Whether the value is below zero. -/
  negative : Bool
  /-- The exponent. -/
  exponent : Int
deriving DecidableEq

namespace SignedPower

/-- The width of the field that stores the magnitude of an exponent. -/
def fieldBits : Nat := 3

/-- The value of a signed power. -/
def value (power : SignedPower) : Binary64 :=
  let magnitude := Binary64.powerOfTwo power.exponent
  if power.negative then -magnitude else magnitude

/-- The code of a signed power: the sign in front of one less than the magnitude of the exponent. -/
def bits? (power : SignedPower) : Except Error Nat :=
  let magnitude := power.exponent.natAbs
  if magnitude = 0 ∨ twoPow fieldBits < magnitude then
    .error (.exponentField power.exponent fieldBits)
  else .ok ((if power.negative then twoPow fieldBits else 0) + (magnitude - 1))

/-- The signed power nearest to a value: its logarithm, as `log` computes it, rounded half to even and
kept in the range.  Zero has no logarithm and gets the least exponent. -/
def nearestBy? (log : Binary64 → Binary64) (value : Binary64) (least greatest : Int) :
    Except Error SignedPower :=
  if greatest < least then .error (.exponentRange least greatest)
  else if value.isNaN then .error (.nonFinite value)
  else
    let exponent :=
      if value.eq (.zero false) then least
      else
        ((log value.abs).roundEven.clamp (.ofInt least) (.ofInt greatest)).toInt
          (signedMin 32) (signedMax 32)
    .ok ⟨value.lt (.zero false), exponent⟩

/-- The signed power nearest to a value on the logarithmic scale. -/
def nearest? : Binary64 → Int → Int → Except Error SignedPower :=
  nearestBy? Binary64.log2

end SignedPower

end DyadicNet.FixedPoint
