import DyadicNet.Binary64.Basic

/-!
# Decimal numerals

A numeral is a number as it is written down: a sign, digits before and after the point, and
perhaps an exponent.  Reading a text gives a numeral, and so does choosing the digits of a double;
the two meet here.

## Main definitions

* `Numeral` — the written form;
* `Numeral.toBinary64` — the double nearest to its value;
* `Numeral.text` — its characters;
* `takeDigits` — the digits at the front of a text.
-/

namespace DyadicNet

/-- A decimal number as written.  Digits are numbers below ten, the most significant one first. -/
structure Numeral where
  /-- Whether a minus sign stands in front. -/
  negative : Bool
  /-- The digits before the point. -/
  whole : List Nat
  /-- The digits after the point; without any there is no point. -/
  fraction : List Nat
  /-- The power of ten that multiplies the number, if one is written. -/
  exponent : Option Int
deriving DecidableEq

/-! ### Digits -/

/-- The number that a list of digits stands for. -/
def ofDigits (digits : List Nat) : Nat :=
  digits.foldl (fun n d => 10 * n + d) 0

/-- The decimal digits of a number; zero has the digit `0`. -/
def decimalDigits (n : Nat) : List Nat :=
  if n < 10 then [n] else decimalDigits (n / 10) ++ [n % 10]
termination_by n
decreasing_by omega

/-- The characters of a list of digits. -/
def digitChars (digits : List Nat) : List Char :=
  digits.map Nat.digitChar

/-- The digits at the front of a text, and the text after them. -/
def takeDigits (chars : List Char) : List Nat × List Char :=
  ((chars.takeWhile Char.isDigit).map (fun c => c.toNat - '0'.toNat), chars.dropWhile Char.isDigit)

namespace Numeral

/-! ### Value -/

/-- The double nearest to the value of a numeral.  The place of the leading digit settles numbers
that are far outside the range of doubles, so that no large power is ever computed for them. -/
def toBinary64 (x : Numeral) : Binary64 :=
  let significant := (x.whole ++ x.fraction).dropWhile (· == 0)
  let scale : Int := x.exponent.getD 0 - x.fraction.length
  let leading : Int := scale + significant.length
  if significant.isEmpty then .zero x.negative
  else if 400 < leading then .infinity x.negative
  else if leading < -400 then .zero x.negative
  else .ofMagnitude x.negative ((ofDigits significant : Rat) * 10 ^ scale)

/-! ### Spelling -/

/-- The characters of an exponent, with a plus sign if asked for. -/
def exponentChars (showsPlus : Bool) (e : Int) : List Char :=
  let sign := if e < 0 then ['-'] else if showsPlus then ['+'] else []
  'e' :: (sign ++ digitChars (decimalDigits e.natAbs))

/-- The characters of a numeral; `showsPlus` asks for the plus sign of a positive exponent. -/
def chars (showsPlus : Bool) (x : Numeral) : List Char :=
  (if x.negative then ['-'] else [])
    ++ digitChars x.whole
    ++ (if x.fraction.isEmpty then [] else '.' :: digitChars x.fraction)
    ++ (x.exponent.map (exponentChars showsPlus)).getD []

/-- The text of a numeral. -/
def text (showsPlus : Bool) (x : Numeral) : String :=
  String.ofList (x.chars showsPlus)

end Numeral

end DyadicNet
