import DyadicNet.Json.Schema
import DyadicNet.Rounding

/-!
# Element types

A tensor holds real numbers or integers of one of four widths.

* `IntType`, `DType` — the types;
* `IntType.least`, `IntType.greatest` — the range of an integer type;
* `IntType.forBits` — the narrowest type for values of a given width;
* `DType.name`, `DType.ofName?`, `DType.ofJson` — the written form.
-/

namespace DyadicNet

/-- A type of integers in two's complement. -/
inductive IntType where
  | i8
  | i16
  | i32
  | i64
deriving DecidableEq

namespace IntType

/-- The width of a value. -/
def bits : IntType → Nat
  | .i8 => 8
  | .i16 => 16
  | .i32 => 32
  | .i64 => 64

/-- The least value. -/
def least (type : IntType) : Int :=
  signedMin type.bits

/-- The greatest value. -/
def greatest (type : IntType) : Int :=
  signedMax type.bits

/-- Whether a type has the given value. -/
def holds (type : IntType) (value : Int) : Bool :=
  decide (type.least ≤ value ∧ value ≤ type.greatest)

/-- The narrowest type for signed values of the given width. -/
def forBits (bits : Nat) : IntType :=
  if bits ≤ 8 then .i8 else if bits ≤ 16 then .i16 else if bits ≤ 32 then .i32 else .i64

/-- The name of a type. -/
def name : IntType → String
  | .i8 => "i8"
  | .i16 => "i16"
  | .i32 => "i32"
  | .i64 => "i64"

end IntType

/-- The type of the elements of a tensor. -/
inductive DType where
  /-- Real numbers. -/
  | f32
  /-- Integers. -/
  | int (type : IntType)
deriving DecidableEq

namespace DType

/-- The integer type, if it is one. -/
def integer? : DType → Option IntType
  | .f32 => none
  | .int type => some type

/-- Whether this is a type of integers. -/
def isInteger (dtype : DType) : Bool :=
  dtype.integer?.isSome

/-- The width of an element in storage. -/
def bits : DType → Nat
  | .f32 => 32
  | .int type => type.bits

/-- The name of a type. -/
def name : DType → String
  | .f32 => "f32"
  | .int type => type.name

/-- All types. -/
def all : List DType :=
  [.f32, .int .i8, .int .i16, .int .i32, .int .i64]

/-- The type with the given name. -/
def ofName? (name : String) : Option DType :=
  all.find? (·.name == name)

/-- The stored form of a type. -/
def toJson (dtype : DType) : Json :=
  .ofText dtype.name

/-- The type that a JSON value stores. -/
def ofJson {ε : Type} : Json → Except (Json.Failure ε) DType :=
  Json.choice ofName?

end DType

end DyadicNet
