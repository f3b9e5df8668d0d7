import DyadicNet.FixedPoint.Codec

/-!
# Rectifiers

* `rectify`, `rectifyInt` — zero in place of negative values;
* `leakyRectify`, `leakyRectifyInt` — a multiple of negative values in their place.
-/

namespace DyadicNet.Eval

/-- Zero in place of a value below zero. -/
def rectify (value : Binary64) : Binary64 :=
  if value.lt (.zero false) then .zero false else value

/-- Zero in place of a negative integer. -/
def rectifyInt (value : Int) : Int :=
  if value < 0 then 0 else value

/-- The multiple of a value below zero; after a quantized convolution it is brought to the format of
the activations. -/
def leakyRectify (slope : Binary64) (format : Option FixedPoint.Format) (value : Binary64) :
    Binary64 :=
  if value.lt (.zero false) then
    let product := value * slope
    match format with
    | some format => FixedPoint.quantize format product
    | none => product
  else value

/-- The multiple of a negative integer, rounded half to even. -/
def leakyRectifyInt (slope : Binary64) (value : Int) : Int :=
  if value < 0 then (Binary64.ofInt value * slope).roundEven.toInt64 else value

end DyadicNet.Eval
