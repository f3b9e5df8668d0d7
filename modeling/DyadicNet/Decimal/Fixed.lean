import DyadicNet.Decimal.Numeral
import DyadicNet.Rounding

/-!
# A fixed number of places

Some values are shown with a given number of digits after the point.  The exact value is rounded to
that many places, and a tie goes to the even last digit.

* `Fixed.numeral?` — the numeral of a finite double;
* `Fixed.text` — the text of any double.
-/

namespace DyadicNet.Fixed

/-- The digits of a number, with zeros in front so that there are more of them than `places`. -/
def paddedDigits (places n : Nat) : List Nat :=
  let digits := decimalDigits n
  List.replicate (places + 1 - digits.length) 0 ++ digits

/-- The numeral of a finite double with the given number of digits after the point. -/
def numeral? (places : Nat) (x : Binary64) : Option Numeral :=
  if x.isFinite then
    let units := roundHalfEven (x.magnitude * 10 ^ (places : Int))
    let digits := paddedDigits places units.toNat
    let width := digits.length - places
    some ⟨x.isNegative, digits.take width, digits.drop width, none⟩
  else none

/-- The text of a double with the given number of digits after the point. -/
def text (places : Nat) (x : Binary64) : String :=
  match numeral? places x with
  | some numeral => numeral.text false
  | none => if x.isNaN then "NaN" else if x.isNegative then "-inf" else "inf"

end DyadicNet.Fixed
