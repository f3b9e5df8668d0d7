import DyadicNet.Decimal.Layout

/-!
# JSON values

Graphs, tensors and settings are stored as JSON.  A value is what a text says: a number is kept as
it is written, so that nothing is rounded before it is known what the number is for.

**A text may break off.**  Whatever was read before the break is kept: an array or an object that
was still open there is marked as not intact.  A reader of values that goes through them in the
order of the text meets the first problem of the text first, whether it is a break or a value that
cannot be accepted.

## Main definitions

* `Json` — the type;
* `Json.ofInt`, `Json.ofNat`, `Json.ofReal` — writing numbers;
* `Json.toInt?`, `Json.toText?` — reading scalars;
* `Json.Failure` — why a text is refused.
-/

namespace DyadicNet

/-- A JSON value. -/
inductive Json where
  | null
  | bool (value : Bool)
  /-- A number without point and exponent, except for minus zero. -/
  | integer (value : Int)
  /-- Any other number. -/
  | decimal (value : Numeral)
  | string (value : String)
  /-- A string whose escapes do not form characters.  It may stand only where nothing reads it. -/
  | illFormed
  /-- A list, and whether its text is sound up to the closing bracket. -/
  | array (items : List Json) (intact : Bool)
  /-- Named values in the order of the text, and whether the text is sound up to the closing
  brace. -/
  | object (members : List (String × Json)) (intact : Bool)

namespace Json

instance : Inhabited Json := ⟨null⟩

/-- Why a JSON text is refused. -/
inductive Failure (ε : Type) where
  /-- The text is not JSON, or its values are not of the kinds that are asked for. -/
  | malformed
  /-- A part of the text is well made, but the value that it describes does not exist. -/
  | rejected (cause : ε)
deriving DecidableEq

/-! ### Numbers -/

/-- Doubles in a file: the fewest digits, always with a point or an exponent, and an exponent with a
sign for magnitudes below `10⁻⁵` or from `10¹⁶` on. -/
def realLayout : Layout where
  positional leading := decide (-5 ≤ leading ∧ leading < 16)
  marksFloat := true
  showsPlus := true
  tie := .even

/-- The value that stores an integer. -/
def ofInt (n : Int) : Json :=
  .integer n

/-- The value that stores a natural number. -/
def ofNat (n : Nat) : Json :=
  .integer n

/-- The value that stores a double.  Infinities and *not a number* have no numeral: they are stored
as `null`. -/
def ofReal (x : Binary64) : Json :=
  match realLayout.numeral? x with
  | some numeral => .decimal numeral
  | none => .null

/-- The integer that a value stores, if it lies in the range. -/
def toInt? (least greatest : Int) : Json → Option Int
  | .integer n => if least ≤ n ∧ n ≤ greatest then some n else none
  | _ => none

/-- The natural number that a value stores, if it lies below `2 ^ bits`. -/
def toNat? (bits : Nat) (j : Json) : Option Nat :=
  (j.toInt? 0 (twoPow bits - 1)).map Int.toNat

/-! ### Texts -/

/-- The text that a value stores. -/
def toText? : Json → Option String
  | .string s => some s
  | _ => none

/-- The truth value that a value stores. -/
def toBool? : Json → Option Bool
  | .bool b => some b
  | _ => none

/-- The value that stores a text. -/
def ofText (s : String) : Json :=
  .string s

/-- The value that stores a list. -/
def ofList (items : List Json) : Json :=
  .array items true

/-- The value that stores named values. -/
def ofMembers (members : List (String × Json)) : Json :=
  .object members true

end Json

end DyadicNet
