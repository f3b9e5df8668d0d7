import DyadicNet.Eval.Activation
import DyadicNet.Eval.Kernels
import DyadicNet.Eval.Quantized
import DyadicNet.Graph.Validation
import DyadicNet.Config

/-!
# Evaluating a graph

The nodes are evaluated in their order.  Each reads tensors by name — from the values of earlier
nodes, else from the constants — and its result is bound to the name of its first output.  A
quantized convolution finds out from the constants that belong to it by how much it has to shift; it
also leaves behind the format in which leaky rectifiers after it round.

## Main definitions

* `Interpreter` — a graph and a configuration that have been checked;
* `Environment` — the values so far;
* `Interpreter.evalNode` — the value of a node;
* `Interpreter.run?`, `Interpreter.trace?` — the value of the graph, and of all its nodes.
-/

namespace DyadicNet.Eval

/-- A graph and the settings under which it is evaluated. -/
structure Interpreter where
  graph : Graph
  config : Config

/-- What is known between two nodes. -/
structure Environment where
  /-- The values by name, the latest one first. -/
  values : List (String × Tensor)
  /-- The format in which leaky rectifiers round. -/
  leakyFormat : Option FixedPoint.Format

/-! ### Operators without constants -/

/-- Each element of a tensor on its own. -/
def elementwise (onReal : Binary64 → Binary64) (onInt : Int → Int) (x : Tensor) :
    Except Error Tensor :=
  match x.elements with
  | .ints type values => intTensor x.shape (.int type) (values.map onInt)
  | .reals values => realTensor x.shape (values.map onReal)

/-- The largest elements of the windows of a tensor.  The padding never wins: it is the least
integer or minus infinity. -/
def maxPoolNode (node : Node) (x : Tensor) : Except Error Tensor := do
  let kernel ← ofGraph node.kernelShape?
  let stride ← ofGraph node.strides?
  let padding ← ofGraph node.pads?
  let s ← Nchw.ofShape? x.shape
  match x.elements with
  | .ints type values =>
    let least := signedMin 64
    let (padded, size) ← Kernel.pad? s padding least values
    let (pooled, out) ← Kernel.maxPool? (fun a b => decide (a < b)) padded size kernel stride
    intTensor out.toShape (.int type) pooled
  | .reals values =>
    let least := Binary64.infinity true
    let (padded, size) ← Kernel.pad? s padding least values
    let (pooled, out) ← Kernel.maxPool? Binary64.lt padded size kernel stride
    realTensor out.toShape pooled

/-- The means of the planes of a tensor. -/
def averagePoolNode (x : Tensor) : Except Error Tensor := do
  let s ← Nchw.ofShape? x.shape
  match x.elements with
  | .ints type values =>
    intTensor s.pooled.toShape (.int type) (averagePoolInt values (Kernel.rows s))
  | .reals values => realTensor s.pooled.toShape (averagePool values (Kernel.rows s))

namespace Interpreter

/-- The interpreter of a graph.  The configuration is checked before the graph. -/
def make? (graph : Graph) (config : Config) : Except Error Interpreter := do
  ofGraph config.validate
  ofGraph graph.validate
  .ok ⟨graph, config⟩

variable (interpreter : Interpreter)

/-! ### Operands -/

/-- The name of an operand that a node cannot do without. -/
def operand (node : Node) (index : Nat) : Except Error String :=
  match node.input? index with
  | some name => .ok name
  | none => .error (.missingValue node.label s!"input #{index}")

/-- The value of an operand: that of an earlier node, else a constant. -/
def value (environment : Environment) (node : Node) (index : Nat) : Except Error Tensor := do
  let name ← operand node index
  match (environment.values.lookup name).or (interpreter.graph.initializers.get? name) with
  | some tensor => .ok tensor
  | none => .error (.missingValue node.label name)

/-- The constant that a node cannot do without. -/
def constant (node : Node) (name : String) : Except Error Tensor :=
  ofGraph (interpreter.graph.constant? node.label name)

/-- The parameters that two operands of a node carry. -/
def params (node : Node) (scale zeroPoint : Nat) : Except Error Quantize.Params := do
  let scaleName ← operand node scale
  let zeroPointName ← operand node zeroPoint
  (Quantize.Params.ofConstants? interpreter.graph node.label scaleName zeroPointName).mapError
    .quantize

/-- The type of the quantized values of a node, which is that of its zero point, and the width to
which they are clamped. -/
def quantizedType (node : Node) (zeroPoint : Nat) : Except Error (IntType × Nat) := do
  let name ← operand node zeroPoint
  let tensor ← interpreter.constant node name
  match tensor.dtype with
  | .int type => .ok (type, min interpreter.config.activationBits type.bits)
  | .f32 => .error (.invalidInput (.zeroPointType node.label .f32))

/-! ### Quantized operators -/

/-- The format in which leaky rectifiers round after a convolution: as wide as an activation, with
as many bits after the point as the weights have. -/
def activationFormat (weights : Quantize.Params) : Except Error FixedPoint.Format :=
  let bits := interpreter.config.activationBits
  let fracBits := (clampInt 0 (bits - 1) (-weights.exponent)).toNat
  (FixedPoint.Format.ofTotalBits? bits (bits - fracBits)).mapError .fixedPoint

/-- The bias of a convolution, zeros if it has none. -/
def bias (node : Node) (channels : Nat) : Except Error (Array Int) := do
  match node.input? 8 with
  | some name => integers node (← interpreter.constant node name)
  | none => Kernel.allocate? channels 0

/-- What a quantized convolution of a tensor is computed from.  The parameters are looked at first,
then the integers of the tensor, the constants, and last the attributes.  The data is padded before
the shifts are looked at. -/
def operands (node : Node) (x : Tensor) : Except Error Operands := do
  let dataParams ← interpreter.params node 1 2
  let weightParams ← interpreter.params node 4 5
  let outputParams ← interpreter.params node 6 7
  let (type, bits) ← interpreter.quantizedType node 7
  let data ← integers node x
  let weightName ← operand node 3
  let weightTensor ← interpreter.constant node weightName
  let weights ← integers node weightTensor
  let weightShape ← Nchw.ofShape? weightTensor.shape
  let bias ← interpreter.bias node weightShape.batch
  checkKernel node weightShape
  let dataShape ← Nchw.ofShape? x.shape
  let padding ← ofGraph node.pads?
  let (padded, paddedShape) ← Kernel.pad? dataShape padding 0 data
  checkShifts node (.ofExponents dataParams.exponent weightParams.exponent outputParams.exponent)
  let stride ← ofGraph node.strides?
  .ok
    { data, dataShape, dataParams, weights, weightShape, weightParams, bias, outputParams, type,
      bits, padding, padded, paddedShape, stride }

/-- The value of a quantized convolution, and the parameters of its weights. -/
def convolution (node : Node) (x : Tensor) : Except Error (Tensor × Quantize.Params) := do
  let operands ← interpreter.operands node x
  let y ← operands.result
  .ok (y, operands.weightParams)

/-- The integers that stand for the values of a tensor. -/
def quantize (node : Node) (x : Tensor) : Except Error Tensor := do
  let params ← interpreter.params node 1 2
  let (type, bits) ← interpreter.quantizedType node 2
  quantizeTensor node params.scale type bits x

/-- The values that the integers of a tensor stand for. -/
def dequantize (node : Node) (x : Tensor) : Except Error Tensor := do
  let params ← interpreter.params node 1 2
  dequantizeTensor node params.scale x

/-! ### Padding -/

/-- The padding of a node: given by a constant if the node has a second operand, else by an
attribute. -/
def padding (node : Node) : Except Error Padding := do
  match node.input? 1 with
  | some name =>
    let pads ← interpreter.constant node name
    let values ← integers node pads
    (Padding.ofInts? values.toList).mapError fun fault => .invalidInput (.pads node.label fault)
  | none => ofGraph node.pads?

/-- A tensor with zeros around its planes.  Only this mode of padding is evaluated. -/
def padNode (node : Node) (x : Tensor) : Except Error Tensor := do
  match node.attributes.get? "mode" with
  | some (.text mode) =>
    if mode ≠ "constant" then .error (.unsupportedLayer node.label s!"Pad(mode={mode})")
  | _ => .ok ()
  let padding ← interpreter.padding node
  let s ← Nchw.ofShape? x.shape
  match x.elements with
  | .ints type values =>
    let (padded, out) ← Kernel.pad? s padding 0 values
    intTensor out.toShape (.int type) padded
  | .reals values =>
    let (padded, out) ← Kernel.pad? s padding (.zero false) values
    realTensor out.toShape padded

/-! ### Nodes -/

/-- The value of a node, and the format that leaky rectifiers after it use. -/
def evalNode (environment : Environment) (node : Node) :
    Except Error (Tensor × Option FixedPoint.Format) := do
  let unchanged := fun y : Tensor => (y, environment.leakyFormat)
  match node.operator with
  | .conv => .error (.floatConvolution node.label)
  | .qlinearConv =>
    let x ← interpreter.value environment node 0
    let (y, weights) ← interpreter.convolution node x
    let format ← interpreter.activationFormat weights
    .ok (y, some format)
  | .quantizeLinear =>
    let x ← interpreter.value environment node 0
    unchanged <$> interpreter.quantize node x
  | .dequantizeLinear =>
    let x ← interpreter.value environment node 0
    unchanged <$> interpreter.dequantize node x
  | .pad =>
    let x ← interpreter.value environment node 0
    unchanged <$> interpreter.padNode node x
  | .maxPool =>
    let x ← interpreter.value environment node 0
    unchanged <$> maxPoolNode node x
  | .globalAveragePool =>
    let x ← interpreter.value environment node 0
    unchanged <$> averagePoolNode x
  | .relu =>
    let x ← interpreter.value environment node 0
    unchanged <$> elementwise rectify rectifyInt x
  | .leakyRelu =>
    let given ← ofGraph (node.real? "alpha")
    let slope := given.getD interpreter.config.leakyReluSlope
    let x ← interpreter.value environment node 0
    unchanged <$>
      elementwise (leakyRectify slope environment.leakyFormat) (leakyRectifyInt slope) x
  | .other name => .error (.unsupportedLayer node.label name)

/-! ### Graphs -/

/-- The environment after a node, and the node's value. -/
def step (environment : Environment) (node : Node) : Except Error (Environment × Tensor) := do
  let (y, leakyFormat) ← interpreter.evalNode environment node
  match node.output? with
  | some name => .ok (⟨(name, y) :: environment.values, leakyFormat⟩, y)
  | none => .error (.invalidInput (.noOutput node.label))

/-- The environment after a list of nodes, and the value of each with the node's label. -/
def steps : Environment → List Node → Except Error (Environment × List (String × Tensor))
  | environment, [] => .ok (environment, [])
  | environment, node :: rest => do
    let (environment, y) ← interpreter.step environment node
    let (environment, values) ← steps environment rest
    .ok (environment, (node.label, y) :: values)

/-- The name of the input that a caller supplies. -/
def inputName? : Except Error String :=
  match interpreter.graph.dataInputs.head? with
  | some declaration => .ok declaration.name
  | none => .error (.invalidInput .noDataInput)

/-- The name of the result: the first declared output, else the output of the last node, else the
input. -/
def resultName (inputName : String) : String :=
  match interpreter.graph.outputs.head? with
  | some declaration => declaration.name
  | none => ((interpreter.graph.nodes.getLast?).bind Node.output?).getD inputName

/-- The value of the graph for an input, and the value of every node with the node's label. -/
def execute? (input : Tensor) : Except Error (Tensor × List (String × Tensor)) := do
  let inputName ← interpreter.inputName?
  let start : Environment := ⟨[(inputName, input)], none⟩
  let (environment, values) ← interpreter.steps start interpreter.graph.nodes
  let name := interpreter.resultName inputName
  match environment.values.lookup name with
  | some result => .ok (result, values)
  | none => .error (.missingValue interpreter.graph.name name)

/-- The value of the graph for an input. -/
def run? (input : Tensor) : Except Error Tensor :=
  Prod.fst <$> interpreter.execute? input

/-- The values of the nodes for an input, each with the node's label. -/
def trace? (input : Tensor) : Except Error (List (String × Tensor)) :=
  Prod.snd <$> interpreter.execute? input

end Interpreter

end DyadicNet.Eval
