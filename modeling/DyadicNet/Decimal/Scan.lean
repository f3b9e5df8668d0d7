import DyadicNet.Decimal.Numeral
import DyadicNet.Text.Blank

/-!
# Numbers typed by a user

Settings and arguments give numbers as free text.  An integer has an optional sign and decimal
digits.  A real number may have a point, with digits on at least one side of it, and an exponent;
or it is one of the words for infinity and for *not a number*.

* `Scan.nat?` and `Scan.int?` — integers in a range;
* `Scan.real?` — the nearest double.
-/

namespace DyadicNet.Scan

/-- An optional sign at the front: whether it is a minus, and the text after it. -/
def takeSign : List Char → Bool × List Char
  | '+' :: rest => (false, rest)
  | '-' :: rest => (true, rest)
  | rest => (false, rest)

/-- The number written by a text of digits alone. -/
def digits? (chars : List Char) : Option Nat :=
  match takeDigits chars with
  | ([], _) => none
  | (_, _ :: _) => none
  | (digits, []) => some (ofDigits digits)

/-- A number from `0` to `greatest`.  A minus sign is refused, in front of zero too. -/
def nat? (greatest : Nat) (text : String) : Option Nat :=
  match takeSign text.toList with
  | (true, _) => none
  | (false, rest) => (digits? rest).filter (· ≤ greatest)

/-- An integer from `least` to `greatest`. -/
def int? (least greatest : Int) (text : String) : Option Int :=
  let (negative, rest) := takeSign text.toList
  let value := (digits? rest).map fun n : Nat => if negative then -(n : Int) else n
  value.filter fun v => decide (least ≤ v ∧ v ≤ greatest)

/-- The exponent at the front of a text, if there is one: a letter, an optional sign and digits.
The whole text has to be used. -/
def exponent? : List Char → Option (Option Int)
  | [] => some none
  | c :: rest =>
    if c = 'e' ∨ c = 'E' then
      let (negative, rest) := takeSign rest
      (digits? rest).map fun n => some (if negative then -(n : Int) else n)
    else none

/-- A numeral without its sign: digits, a point, digits, an exponent. -/
def numeral? (negative : Bool) (chars : List Char) : Option Numeral :=
  let (whole, rest) := takeDigits chars
  let (fraction, rest) :=
    match rest with
    | '.' :: rest => takeDigits rest
    | rest => ([], rest)
  if whole.isEmpty && fraction.isEmpty then none
  else (exponent? rest).map fun e => ⟨negative, whole, fraction, e⟩

/-- The words that stand for the doubles without a numeral, in any case. -/
def word? (negative : Bool) (chars : List Char) : Option Binary64 :=
  let word := String.ofList (chars.map Char.toLower)
  if word = "inf" ∨ word = "infinity" then some (.infinity negative)
  else if word = "nan" then some .nan
  else none

/-- The double nearest to the number that a text gives. -/
def real? (text : String) : Option Binary64 :=
  let (negative, rest) := takeSign text.toList
  ((numeral? negative rest).map Numeral.toBinary64).or (word? negative rest)

end DyadicNet.Scan
