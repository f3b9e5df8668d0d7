import DyadicNet.FixedPoint.Format

/-!
# Encoding values in a fixed-point format

A value is counted in units of the last bit, rounded half to even, and kept inside the bounds of the
format.  There are two ways to do this, and they give the same value for every finite double:
through the codeword, which saturates before it rounds, and in doubles all the way, which rounds
before it saturates.

## Main definitions

* `FixedPoint.Codeword` — the codewords of a format;
* `FixedPoint.encode`, `FixedPoint.decode` — doubles to codewords and back;
* `FixedPoint.encodeBits`, `FixedPoint.decodeBits` — the same on the bits of codewords as numbers;
* `FixedPoint.quantize` — the representable double nearest to a double;
* `FixedPoint.toSigned`, `FixedPoint.ofSigned` — codewords as integers;
* `FixedPoint.bitsText` — the bits of a codeword.
-/

namespace DyadicNet.FixedPoint

/-- The codewords of a format. -/
abbrev Codeword (format : Format) : Type :=
  BitVec format.totalBits

variable (format : Format)

/-! ### Codewords and integers -/

/-- The codeword with the given bits, if the format has all of them. -/
def codeword? (bits : Nat) : Except Error (Codeword format) :=
  if bits < twoPow format.totalBits then .ok (BitVec.ofNat _ bits)
  else .error (.codewordTooWide bits format.totalBits)

/-- The integer that a codeword stands for, counted in last bits. -/
def toSigned (code : Codeword format) : Int :=
  if format.signed then code.toInt else code.toNat

/-- The codeword with the low bits of an integer. -/
def ofSigned (value : Int) : Codeword format :=
  BitVec.ofInt _ value

/-- The bits of a codeword, the highest first. -/
def bitsText (code : Codeword format) : String :=
  String.ofList ((List.range format.totalBits).map fun i => if code.getMsbD i then '1' else '0')

/-! ### Doubles -/

/-- The bits of the codeword nearest to a value, as a number.  Beyond the bounds they are those of the
codeword of the bound.  A negative value is encoded as the two's complement of its magnitude in the
width of the format, any other as the number of its last bits. -/
def encodeBits (value : Binary64) : Except Error Nat :=
  if value.isNaN then .error (.nonFinite value)
  else if format.maxValue.lt value then .ok format.maxCodeword
  else if value.lt format.minValue then .ok format.minCodeword
  else if value.lt (.zero false) then
    let magnitude := (value.abs * format.unitsPerOne).roundEven.toInt 0 (twoPow 64 - 1)
    .ok ((twoPow format.totalBits - magnitude.toNat) &&& format.mask)
  else .ok ((value * format.unitsPerOne).roundEven.toInt 0 (twoPow 32 - 1)).toNat

/-- The codeword nearest to a value. -/
def encode (value : Binary64) : Except Error (Codeword format) :=
  BitVec.ofNat format.totalBits <$> encodeBits format value

/-- The value of a codeword. -/
def decode (code : Codeword format) : Binary64 :=
  .ofInt (toSigned format code) * format.lsb

/-- The value of the codeword with the given bits. -/
def decodeBits (bits : Nat) : Except Error Binary64 :=
  decode format <$> codeword? format bits

/-- The representable value nearest to a value.  *Not a number* stays, and so does the sign of
zero. -/
def quantize (value : Binary64) : Binary64 :=
  let rounded := (value * format.unitsPerOne).roundEven / format.unitsPerOne
  rounded.clamp format.minValue format.maxValue

end DyadicNet.FixedPoint
