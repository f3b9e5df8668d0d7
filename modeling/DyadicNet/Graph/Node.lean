import DyadicNet.Graph.Error
import DyadicNet.NameTable

/-!
# Nodes

A node applies an operator to named values and names its results.  The attributes follow the
conventions of the operators: window extents, strides, padding and slopes.

## Main definitions

* `Operator` — the operators, with a place for unfamiliar ones;
* `Node` — the type;
* `Node.label`, `Node.input?`, `Node.output?` — names of a node;
* `Node.int?`, `Node.ints?`, `Node.real?` — attributes of a kind;
* `Node.kernelShape?`, `Node.strides?`, `Node.pads?` — the attributes of windows.
-/

namespace DyadicNet

/-- What a node computes. -/
inductive Operator where
  | conv
  | qlinearConv
  | quantizeLinear
  | dequantizeLinear
  | pad
  | maxPool
  | globalAveragePool
  | relu
  | leakyRelu
  /-- Any other operator; a graph that has one can be stored and quantized. -/
  | other (name : String)
deriving DecidableEq

namespace Operator

/-- The name of an operator. -/
def name : Operator → String
  | .conv => "Conv"
  | .qlinearConv => "QLinearConv"
  | .quantizeLinear => "QuantizeLinear"
  | .dequantizeLinear => "DequantizeLinear"
  | .pad => "Pad"
  | .maxPool => "MaxPool"
  | .globalAveragePool => "GlobalAveragePool"
  | .relu => "Relu"
  | .leakyRelu => "LeakyRelu"
  | .other name => name

/-- The operators that the library knows. -/
def known : List Operator :=
  [.conv, .qlinearConv, .quantizeLinear, .dequantizeLinear, .pad, .maxPool, .globalAveragePool,
    .relu, .leakyRelu]

/-- The operator with the given name. -/
def ofName (name : String) : Operator :=
  (known.find? (·.name == name)).getD (.other name)

end Operator

/-- One application of an operator. -/
structure Node where
  operator : Operator
  /-- The name of the node, which may be empty. -/
  name : String
  /-- The names of the operands; an empty name stands for an operand that is left out. -/
  inputs : List String
  /-- The names of the results. -/
  outputs : List String
  attributes : NameTable Attribute
deriving DecidableEq

namespace Node

/-- A node without attributes. -/
def make (operator : Operator) (name : String) (inputs outputs : List String) : Node :=
  ⟨operator, name, inputs, outputs, .empty⟩

variable (node : Node)

/-! ### Names -/

/-- The name of the first result. -/
def output? : Option String :=
  node.outputs.head?

/-- What a node is called: its name, or else the name of its first result. -/
def label : String :=
  if node.name.isEmpty then node.output?.getD "" else node.name

/-- The name of an operand, if it is there and not left out. -/
def input? (index : Nat) : Option String :=
  node.inputs[index]?.filter fun name => !name.isEmpty

/-! ### Attributes of a kind -/

/-- The error for an attribute of this node. -/
def invalid (name : String) (fault : AttributeFault) : Graph.Error :=
  .invalidAttribute node.label name fault

/-- An attribute that is an integer. -/
def int? (name : String) : Except Graph.Error (Option Int) :=
  match node.attributes.get? name with
  | none => .ok none
  | some (.int value) => .ok (some value)
  | some value => .error (node.invalid name (.notInt value))

/-- An attribute that is a list of integers; one integer is a list of one. -/
def ints? (name : String) : Except Graph.Error (Option (List Int)) :=
  match node.attributes.get? name with
  | none => .ok none
  | some (.ints values) => .ok (some values)
  | some (.int value) => .ok (some [value])
  | some value => .error (node.invalid name (.notInts value))

/-- An attribute that is a real number; an integer becomes the nearest double. -/
def real? (name : String) : Except Graph.Error (Option Binary64) :=
  match node.attributes.get? name with
  | none => .ok none
  | some (.real value) => .ok (some value)
  | some (.int value) => .ok (some (.ofInt value))
  | some value => .error (node.invalid name (.notReal value))

/-! ### Windows -/

/-- Two extents, vertical and horizontal. -/
structure Extents where
  height : Nat
  width : Nat
deriving DecidableEq

/-- An attribute that is a pair of positive numbers; one number stands for two equal ones. -/
def pair? (name : String) : Except Graph.Error (Option Extents) := do
  match ← node.ints? name with
  | none => .ok none
  | some values =>
    match values with
    | [h, w] =>
      if 0 < h ∧ 0 < w then .ok (some ⟨h.toNat, w.toNat⟩)
      else .error (node.invalid name (.notPair values))
    | [k] =>
      if 0 < k then .ok (some ⟨k.toNat, k.toNat⟩) else .error (node.invalid name (.notPair values))
    | _ => .error (node.invalid name (.notPair values))

/-- The extents of the window, which have to be given. -/
def kernelShape? : Except Graph.Error Extents := do
  match ← node.pair? "kernel_shape" with
  | some extents => .ok extents
  | none => .error (.missingAttribute node.label "kernel_shape")

/-- The steps of the window, one in each direction if they are not given. -/
def strides? : Except Graph.Error Extents := do
  .ok ((← node.pair? "strides").getD ⟨1, 1⟩)

/-- The padding, none if it is not given. -/
def pads? : Except Graph.Error Padding := do
  match ← node.ints? "pads" with
  | none => .ok .none
  | some values =>
    (Padding.ofInts? values).mapError fun fault => node.invalid "pads" (.padding fault)

end Node

end DyadicNet
