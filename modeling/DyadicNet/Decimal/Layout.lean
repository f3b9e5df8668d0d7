import DyadicNet.Decimal.Shortest

/-!
# Writing doubles

Once the digits of a double are chosen, a writer still has to lay them out: with or without an
exponent, with or without a point in an integer.  A `Layout` holds these decisions in one value, and
everything that writes doubles does so through a layout.

## Main definitions

* `Layout` — the decisions;
* `Layout.numeral?` — the numeral of a finite double;
* `Layout.text` — the text of any double;
* `Layout.plain` and `Layout.marked` — the two layouts of the messages.
-/

namespace DyadicNet

/-- The decisions of a writer of doubles. -/
structure Layout where
  /-- Which powers of ten of the leading digit are written without an exponent. -/
  positional : Int → Bool
  /-- Whether an integer written without an exponent ends in `.0`. -/
  marksFloat : Bool
  /-- Whether a positive exponent has a plus sign. -/
  showsPlus : Bool
  /-- Which of two equally near decimals is taken. -/
  tie : Shortest.Tie

namespace Layout

/-- The numeral with the given digits, the first of which stands for `10 ^ leading`. -/
def place (layout : Layout) (negative : Bool) (digits : List Nat) (leading : Int) : Numeral :=
  if layout.positional leading then
    let mark := fun (fraction : List Nat) =>
      if fraction.isEmpty && layout.marksFloat then [0] else fraction
    if 0 ≤ leading then
      let width := leading.toNat + 1
      ⟨negative, digits.take width ++ List.replicate (width - digits.length) 0,
        mark (digits.drop width), none⟩
    else ⟨negative, [0], mark (List.replicate ((-leading).toNat - 1) 0 ++ digits), none⟩
  else ⟨negative, digits.take 1, digits.drop 1, some leading⟩

/-- The numeral of a finite double. -/
def numeral? (layout : Layout) : Binary64 → Option Numeral
  | .finite negative m e _ =>
    if m = 0 then some ⟨negative, [0], if layout.marksFloat then [0] else [], none⟩
    else
      let (digits, leading) := Shortest.digits layout.tie m e
      some (layout.place negative digits leading)
  | _ => none

/-- The text of a double. -/
def text (layout : Layout) (x : Binary64) : String :=
  match layout.numeral? x with
  | some numeral => numeral.text layout.showsPlus
  | none => if x.isNaN then "NaN" else if x.isNegative then "-inf" else "inf"

/-- The layout of values in sentences: never an exponent, and an integer looks like one. -/
def plain : Layout where
  positional _ := true
  marksFloat := false
  showsPlus := false
  tie := .away

/-- The layout of values that show their kind: an integer ends in `.0`, and magnitudes below
`10⁻⁴` or from `10¹⁶` on have an exponent. -/
def marked : Layout where
  positional leading := decide (-4 ≤ leading ∧ leading < 16)
  marksFloat := true
  showsPlus := false
  tie := .away

end Layout

end DyadicNet
