import DyadicNet.Binary64.Basic
import DyadicNet.Decimal.Layout
import DyadicNet.Json.Schema
import DyadicNet.Text.Quoted

/-!
# Fixed-point formats

A fixed-point codeword is a row of at most 32 bits with a point in it.  A format says how many bits
stand before the point, how many after it, and whether the word is in two's complement; in a signed
format the sign is one of the bits before the point.

## Main definitions

* `FixedPoint.Format` — the type, with its restrictions as proofs;
* `FixedPoint.Error` — everything that can go wrong in this part of the library;
* `Format.make?`, `Format.ofTotalBits?` — building formats from numbers;
* `Format.lsb`, `Format.minValue`, `Format.maxValue` — the grid and the bounds as doubles;
* `Format.toJson`, `Format.ofJson` — the stored form.
-/

namespace DyadicNet.FixedPoint

/-- The widest codeword. -/
def maxTotalBits : Nat := 32

/-- Why two bit counts are not a format. -/
inductive FormatFault where
  /-- There are no bits, or too many. -/
  | width
  /-- A signed format has no bit for its sign. -/
  | sign
  /-- More bits are asked for before the point than there are altogether. -/
  | integerBits
deriving DecidableEq

/-- Why an operation on formats and codewords fails. -/
inductive Error where
  /-- The bit counts are not a format. -/
  | invalidFormat (intBits fracBits : Nat) (fault : FormatFault)
  /-- A codeword has bits that the format does not have. -/
  | codewordTooWide (bits totalBits : Nat)
  /-- A value has no nearest codeword. -/
  | nonFinite (value : Binary64)
  /-- A range of exponents has its ends the wrong way round. -/
  | exponentRange (least greatest : Int)
  /-- An exponent is zero or too large for the field that stores it. -/
  | exponentField (exponent : Int) (fieldBits : Nat)
deriving DecidableEq

/-- What is wrong with the bit counts. -/
def FormatFault.message : FormatFault → String
  | .width => "total width must be within 1..=32"
  | .sign => "signed formats need an integer bit for the sign"
  | .integerBits => "integer bits exceed the total width"

/-- The message of an error. -/
def Error.message : Error → String
  | .invalidFormat intBits fracBits fault =>
    let reason := fault.message
    s!"Invalid fixed-point format Q{intBits}.{fracBits}: {reason}"
  | .codewordTooWide bits totalBits =>
    let hex := String.ofList (hexDigits bits)
    s!"Codeword 0x{hex} does not fit in {totalBits} bits"
  | .nonFinite value =>
    let shown := Layout.plain.text value
    s!"Cannot convert non-finite value {shown}"
  | .exponentRange least greatest =>
    s!"Invalid exponent range: min {least} > max {greatest}"
  | .exponentField exponent fieldBits =>
    s!"Exponent {exponent} does not fit in a {fieldBits}-bit magnitude field"

/-- How the bits of a codeword are split. -/
structure Format where
  /-- The bits before the point, with the sign bit if there is one. -/
  intBits : Nat
  /-- The bits after the point. -/
  fracBits : Nat
  /-- Whether codewords are in two's complement. -/
  signed : Bool
  width_pos : 0 < intBits + fracBits
  width_le : intBits + fracBits ≤ maxTotalBits
  sign_bit : signed = true → 0 < intBits
deriving DecidableEq

namespace Format

/-! ### Building formats -/

/-- The format with these bit counts.  The width is checked before the sign. -/
def make? (signed : Bool) (intBits fracBits : Nat) : Except Error Format :=
  if h : 0 < intBits + fracBits ∧ intBits + fracBits ≤ maxTotalBits then
    if hs : signed = true → 0 < intBits then .ok ⟨intBits, fracBits, signed, h.1, h.2, hs⟩
    else .error (.invalidFormat intBits fracBits .sign)
  else .error (.invalidFormat intBits fracBits .width)

/-- The signed format of the given width with `intBits` bits before the point. -/
def ofTotalBits? (totalBits intBits : Nat) : Except Error Format :=
  if totalBits < intBits then .error (.invalidFormat intBits 0 .integerBits)
  else make? true intBits (totalBits - intBits)

/-! ### Widths and bounds -/

variable (format : Format)

/-- The width of a codeword. -/
def totalBits : Nat :=
  format.intBits + format.fracBits

/-- The number whose bits are all the bits of a codeword. -/
def mask : Nat :=
  twoPow format.totalBits - 1

/-- The weight of the last bit. -/
def lsb : Binary64 :=
  .powerOfTwo (-format.fracBits)

/-- The number of units in one: what a value is multiplied by to count it in last bits. -/
def unitsPerOne : Binary64 :=
  .powerOfTwo format.fracBits

/-- The largest value. -/
def maxValue : Binary64 :=
  if format.signed then .powerOfTwo (format.intBits - 1) - format.lsb
  else .powerOfTwo format.intBits - format.lsb

/-- The smallest value. -/
def minValue : Binary64 :=
  if format.signed then -.powerOfTwo (format.intBits - 1) else .zero false

/-- The codeword of the largest value, as a number. -/
def maxCodeword : Nat :=
  if format.signed then format.mask / 2 else format.mask

/-- The codeword of the smallest value, as a number. -/
def minCodeword : Nat :=
  if format.signed then twoPow (format.totalBits - 1) else 0

/-! ### Text and storage -/

/-- The name of a format: a letter for the sign and the two bit counts. -/
def text : String :=
  let kind := if format.signed then "Q" else "UQ"
  let intBits := format.intBits
  let fracBits := format.fracBits
  s!"{kind}{intBits}.{fracBits}"

/-- The stored form of a format. -/
def toJson : Json :=
  .ofMembers
    [("int_bits", .ofNat format.intBits), ("frac_bits", .ofNat format.fracBits),
      ("signed", .bool format.signed)]

/-- The numbers of a stored format, before they are known to be one. -/
structure Draft where
  intBits : Nat
  fracBits : Nat
  signed : Bool

/-- The fields of a stored format; formats are signed unless they say otherwise. -/
def fields : List (Json.Field Error Draft) :=
  [.needed "int_bits" (Json.scalar (Json.toNat? 8)) fun n draft => { draft with intBits := n },
    .needed "frac_bits" (Json.scalar (Json.toNat? 8)) fun n draft => { draft with fracBits := n },
    .defaulted "signed" (Json.scalar Json.toBool?) fun b draft => { draft with signed := b }]

/-- The format that a JSON value stores. -/
def ofJson (j : Json) : Except (Json.Failure Error) Format := do
  let draft ← Json.record fields ⟨0, 0, true⟩ j
  match make? draft.signed draft.intBits draft.fracBits with
  | .ok format => .ok format
  | .error e => .error (.rejected e)

end Format

end DyadicNet.FixedPoint
