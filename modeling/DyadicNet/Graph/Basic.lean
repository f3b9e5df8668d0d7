import DyadicNet.Graph.Node
import DyadicNet.Tensor.Basic

/-!
# Computation graphs

A graph is a list of nodes in the order in which they run, a table of constant tensors, and the
declared inputs and outputs.  Everything is tied together by names.

## Main definitions

* `Declaration` — an input or an output of a graph;
* `Graph` — the type;
* `Graph.dataInputs` — the inputs that a caller has to supply;
* `Graph.constant?`, `Graph.scalar?` — the constants that a node needs.
-/

namespace DyadicNet

/-- A declared input or output. -/
structure Declaration where
  name : String
  dtype : Option DType
  shape : Option (List Nat)
deriving DecidableEq

namespace Declaration

/-- The declaration of a name of which nothing else is said. -/
def ofName (name : String) : Declaration :=
  ⟨name, none, none⟩

/-- The declaration of a name that stands for a tensor. -/
def ofTensor (name : String) (tensor : Tensor) : Declaration :=
  ⟨name, some tensor.dtype, some tensor.shape⟩

end Declaration

/-- A network. -/
structure Graph where
  name : String
  /-- The version of the set of operators. -/
  opset : Int
  inputs : List Declaration
  outputs : List Declaration
  /-- The nodes, each after the ones whose results it reads. -/
  nodes : List Node
  /-- The constant tensors. -/
  initializers : NameTable Tensor
deriving DecidableEq

namespace Graph

/-- The version of a graph that does not say which one it uses. -/
def defaultOpset : Int := 9

/-- A graph without contents. -/
def empty (name : String) : Graph :=
  ⟨name, defaultOpset, [], [], [], .empty⟩

instance : Inhabited Graph := ⟨empty ""⟩

variable (graph : Graph)

/-- The declared inputs that no constant stands for. -/
def dataInputs : List Declaration :=
  graph.inputs.filter fun declaration => !graph.initializers.contains declaration.name

/-- Whether a node has a result of this name. -/
def produces (name : String) : Bool :=
  graph.nodes.any fun node => node.outputs.contains name

/-- The number of nodes with this operator. -/
def count (operator : Operator) : Nat :=
  graph.nodes.countP fun node => node.operator == operator

/-! ### Constants -/

/-- The constant that a node cannot do without. -/
def constant? (node name : String) : Except Error Tensor :=
  match graph.initializers.get? name with
  | some tensor => .ok tensor
  | none => .error (.missingInitializer node name)

/-- The value of a constant that has one element. -/
def scalar? (node name : String) : Except Error Binary64 := do
  let tensor ← graph.constant? node name
  match tensor.scalar? with
  | some value => .ok value
  | none => .error (.tensor (.shape [] tensor.shape))

end Graph

end DyadicNet
