import DyadicNet.Tensor.DType
import DyadicNet.Text.Listing

/-!
# Tensors

A tensor is a shape and its elements in row-major order.  **A tensor that exists is well formed:**
the number of elements is the one that the shape says, and an integer element is a value of the
element type.  Both are part of the type, so that every place that builds a tensor has to check or
to prove them, and no place that reads one has to.

## Main definitions

* `Elements` — real elements, or integers of one type;
* `Tensor` — the type;
* `Tensor.Error` — why a shape and elements are not a tensor;
* `Tensor.ofReals?`, `Tensor.ofInts?`, `Tensor.scalarReal`, `Tensor.scalarInt?`, `Tensor.zeros`,
  `Tensor.reshape?` — building tensors;
* `Tensor.toReals`, `Tensor.reals?`, `Tensor.ints?`, `Tensor.scalar?` — reading them;
* `Tensor.sameValues` — equality of values.

## Design notes

Extents are machine words, and so is the number of elements: a product of extents is taken modulo
`2 ^ 64`.
-/

namespace DyadicNet

/-- The number of elements that a shape asks for, as a machine word. -/
def elementCount (shape : List Nat) : Nat :=
  shape.foldl (· * ·) 1 % twoPow 64

/-- The elements of a tensor. -/
inductive Elements where
  | reals (values : Array Binary64)
  | ints (type : IntType) (values : Array Int)
deriving DecidableEq

namespace Elements

/-- The number of elements. -/
def size : Elements → Nat
  | .reals values => values.size
  | .ints _ values => values.size

/-- The type of the elements. -/
def dtype : Elements → DType
  | .reals _ => .f32
  | .ints type _ => .int type

/-- Whether every integer is a value of the type. -/
def inRange : Elements → Bool
  | .reals _ => true
  | .ints type values => values.all type.holds

end Elements

/-- A shape with as many elements as it asks for. -/
structure Tensor where
  /-- The extents, the slowest one first. -/
  shape : List Nat
  /-- The elements in row-major order. -/
  elements : Elements
  size_eq : elements.size = elementCount shape
  inRange : elements.inRange = true
deriving DecidableEq

/-- What kind of element type is needed. -/
inductive Tensor.Kind where
  | real
  | integer
deriving DecidableEq

/-- Why a shape and elements are not a tensor, or a tensor is not of the kind that is needed. -/
inductive Tensor.Error where
  /-- The shape asks for another number of elements. -/
  | shape (expected got : List Nat)
  /-- The element type is of the wrong kind. -/
  | dtype (expected : Tensor.Kind) (got : DType)
  /-- An integer is not a value of the element type. -/
  | outOfRange (value : Int) (type : IntType)
deriving DecidableEq

namespace Tensor

/-- The name of a kind in a message. -/
def Kind.text : Kind → String
  | .real => "f32"
  | .integer => "an integer dtype"

/-- The message of an error. -/
def Error.message : Error → String
  | .shape expected got =>
    let expected := listing expected
    let got := listing got
    s!"Invalid tensor shape: expected {expected}, got {got}"
  | .dtype expected got =>
    let expected := expected.text
    let got := got.name
    s!"Invalid tensor dtype: expected {expected}, got {got}"
  | .outOfRange value type =>
    let type := type.name
    s!"Value {value} does not fit in {type}"

/-! ### Building tensors -/

/-- The tensor with real elements. -/
def ofReals? (shape : List Nat) (values : Array Binary64) : Except Error Tensor :=
  if h : values.size = elementCount shape then .ok ⟨shape, .reals values, h, rfl⟩
  else .error (.shape shape [values.size])

/-- The tensor with integers of the given type.  The shape is checked first, then the type, then the
values in their order. -/
def ofInts? (shape : List Nat) (dtype : DType) (values : Array Int) : Except Error Tensor :=
  if h : values.size = elementCount shape then
    match dtype with
    | .f32 => .error (.dtype .integer .f32)
    | .int type =>
      if hr : values.all type.holds = true then .ok ⟨shape, .ints type values, h, hr⟩
      else .error (.outOfRange ((values.find? (!type.holds ·)).getD 0) type)
  else .error (.shape shape [values.size])

/-- The tensor without axes that holds one real number. -/
def scalarReal (value : Binary64) : Tensor :=
  ⟨[], .reals #[value], rfl, rfl⟩

/-- The tensor without axes that holds one integer. -/
def scalarInt? (dtype : DType) (value : Int) : Except Error Tensor :=
  ofInts? [] dtype #[value]

/-- The tensor of real zeros. -/
def zeros (shape : List Nat) : Tensor :=
  ⟨shape, .reals (Array.replicate (elementCount shape) (.zero false)), by simp [Elements.size], rfl⟩

/-- The same elements under another shape. -/
def reshape? (tensor : Tensor) (shape : List Nat) : Except Error Tensor :=
  if h : tensor.elements.size = elementCount shape then
    .ok ⟨shape, tensor.elements, h, tensor.inRange⟩
  else .error (.shape shape [tensor.elements.size])

/-! ### Reading tensors -/

variable (tensor : Tensor)

/-- The number of elements. -/
def size : Nat :=
  tensor.elements.size

/-- The type of the elements. -/
def dtype : DType :=
  tensor.elements.dtype

/-- Whether the elements are integers. -/
def isInteger : Bool :=
  tensor.dtype.isInteger

/-- The elements, if they are real numbers. -/
def reals? : Option (Array Binary64) :=
  match tensor.elements with
  | .reals values => some values
  | .ints _ _ => none

/-- The elements, if they are integers. -/
def ints? : Option (Array Int) :=
  match tensor.elements with
  | .reals _ => none
  | .ints _ values => some values

/-- The elements as doubles; an integer becomes the nearest one. -/
def toReals : Array Binary64 :=
  match tensor.elements with
  | .reals values => values
  | .ints _ values => values.map Binary64.ofInt

/-- The element of a tensor that has just one. -/
def scalar? : Option Binary64 :=
  if tensor.size = 1 then tensor.toReals[0]? else none

/-- Whether two tensors have the same shape, element type and values.  *Not a number* equals
nothing, and zeros of either sign are equal. -/
def sameValues (other : Tensor) : Bool :=
  tensor.shape == other.shape &&
    match tensor.elements, other.elements with
    | .reals xs, .reals ys => xs.size == ys.size && (xs.zip ys).all fun (x, y) => x.eq y
    | .ints s xs, .ints t ys => s == t && xs == ys
    | _, _ => false

end Tensor

end DyadicNet
