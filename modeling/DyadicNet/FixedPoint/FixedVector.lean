import DyadicNet.FixedPoint.Codec

/-!
# Vectors of codewords

A list of codewords that share one format.

* `FixedVector.ofNats?`, `FixedVector.encode?`, `FixedVector.zeros` — building vectors;
* `FixedVector.toReals`, `FixedVector.toInts`, `FixedVector.toNats` — reading them.
-/

namespace DyadicNet.FixedPoint

/-- Codewords of one format. -/
structure FixedVector where
  /-- The format of every element. -/
  format : Format
  /-- The codewords. -/
  codes : List (Codeword format)
deriving DecidableEq

namespace FixedVector

/-- The vector of the given codewords, all of which have to fit the format. -/
def ofNats? (format : Format) (bits : List Nat) : Except Error FixedVector :=
  (bits.mapM (codeword? format)).map fun codes => ⟨format, codes⟩

/-- The vector of the codewords nearest to the given values. -/
def encode? (format : Format) (values : List Binary64) : Except Error FixedVector :=
  (values.mapM (encode format)).map fun codes => ⟨format, codes⟩

/-- The vector of `length` zeros. -/
def zeros (format : Format) (length : Nat) : FixedVector :=
  ⟨format, List.replicate length 0⟩

variable (vector : FixedVector)

/-- The number of elements. -/
def length : Nat :=
  vector.codes.length

/-- Whether there are no elements. -/
def isEmpty : Bool :=
  vector.codes.isEmpty

/-- The values of the elements. -/
def toReals : List Binary64 :=
  vector.codes.map (decode vector.format)

/-- The integers that the elements stand for. -/
def toInts : List Int :=
  vector.codes.map (toSigned vector.format)

/-- The codewords as numbers. -/
def toNats : List Nat :=
  vector.codes.map (·.toNat)

/-- The codeword at an index, as a number. -/
def get? (index : Nat) : Option Nat :=
  vector.toNats[index]?

end FixedVector

end DyadicNet.FixedPoint
