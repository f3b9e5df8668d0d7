import DyadicNet.Eval.Kernels
import DyadicNet.Quantize.Params

/-!
# Quantized operators

The three operators of a quantized graph, for operands that have been found: quantizing a tensor,
convolving one, and turning it back into real numbers.  Where the operands come from is not said
here; an evaluation takes them from the constants of a graph.

## Main definitions

* `Shifts` — by how much a convolution changes scales;
* `Operands` — everything that a quantized convolution is computed from; `Operands.result` — its
  value;
* `quantizeTensor`, `dequantizeTensor` — between real numbers and integers.
-/

namespace DyadicNet.Eval

/-! ### Tensors and errors -/

/-- The integers of an operand of a node. -/
def integers (node : Node) (tensor : Tensor) : Except Error (Array Int) :=
  match tensor.ints? with
  | some values => .ok values
  | none => .error (.invalidInput (.needsIntegers node.label node.operator.name))

/-- An error of the graph as an error of the evaluation. -/
def ofGraph {α : Type} (result : Except Graph.Error α) : Except Error α :=
  result.mapError .graph

/-- The tensor with given real elements. -/
def realTensor (shape : List Nat) (values : Array Binary64) : Except Error Tensor :=
  (Tensor.ofReals? shape values).mapError (.graph ∘ .tensor)

/-- The tensor with given integers. -/
def intTensor (shape : List Nat) (dtype : DType) (values : Array Int) : Except Error Tensor :=
  (Tensor.ofInts? shape dtype values).mapError (.graph ∘ .tensor)

/-! ### Convolution -/

/-- The shifts of a convolution: by how much the sum, the bias and the result change their scale. -/
structure Shifts where
  input : Int
  bias : Int
  output : Int

/-- The shifts that follow from the scales of data, weights and output.  Sum and bias are brought to
the finer one of their two scales. -/
def Shifts.ofExponents (data weights output : Int) : Shifts :=
  let finer := min data 0
  ⟨data - finer, -finer, output - weights - finer⟩

/-- Whether all shifts are small enough. -/
def Shifts.areSmall (shifts : Shifts) : Bool :=
  [shifts.input, shifts.bias, shifts.output].all fun shift => decide (shift.natAbs ≤ maxShift)

/-- The fault of shifts that are too large. -/
def checkShifts (node : Node) (shifts : Shifts) : Except Error Unit :=
  if !shifts.areSmall then
    .error (.invalidInput (.shifts node.label shifts.input shifts.bias shifts.output))
  else .ok ()

/-- Whether the declared window, if there is one, is that of the weights.  The extents are compared as
64-bit integers. -/
def checkKernel (node : Node) (ws : Nchw) : Except Error Unit := do
  match ← ofGraph (node.ints? "kernel_shape") with
  | some declared =>
    if declared ≠ [wrap64 ws.height, wrap64 ws.width] then
      .error (.invalidInput (.kernel node.label declared ws.toShape))
  | none => .ok ()

/-- What a quantized convolution is computed from. -/
structure Operands where
  /-- The integers of the data. -/
  data : Array Int
  dataShape : Nchw
  dataParams : Quantize.Params
  /-- The integers of the weights; their first two axes are the output channel and the input
  channel. -/
  weights : Array Int
  weightShape : Nchw
  weightParams : Quantize.Params
  /-- The integers of the bias, at the scale of the weights. -/
  bias : Array Int
  outputParams : Quantize.Params
  /-- The element type of the result. -/
  type : IntType
  /-- The width to which the result is clamped. -/
  bits : Nat
  padding : Padding
  /-- The data with its padding, in a buffer. -/
  padded : Array Int
  paddedShape : Nchw
  stride : Node.Extents
deriving DecidableEq

namespace Operands

variable (operands : Operands)

/-- The shifts between the scales of a convolution. -/
def shifts : Shifts :=
  .ofExponents operands.dataParams.exponent operands.weightParams.exponent
    operands.outputParams.exponent

/-- The result of a convolution. -/
def result : Except Error Tensor := do
  let shifts := operands.shifts
  let (values, out) ←
    Kernel.convolve? operands.padded operands.paddedShape operands.weights operands.weightShape
      operands.bias operands.stride
      ⟨shifts.input.toNat, shifts.bias.toNat, shifts.output, operands.bits⟩
  intTensor out.toShape (.int operands.type) values

end Operands

/-! ### Quantizing and dequantizing -/

/-- The integer that stands for a value at a given scale. -/
def quantizeValue (node : Node) (scale : Binary64) (bits : Nat) (v : Binary64) :
    Except Error Int :=
  if v.isFinite then .ok (saturate (v / scale).roundEven.toInt64 bits)
  else .error (.invalidInput (.unquantizable node.label v))

/-- The integers that stand for the values of a tensor at a given scale. -/
def quantizeTensor (node : Node) (scale : Binary64) (type : IntType) (bits : Nat) (x : Tensor) :
    Except Error Tensor := do
  let values ← x.toReals.toList.mapM (quantizeValue node scale bits)
  intTensor x.shape (.int type) values.toArray

/-- The values that the integers of a tensor stand for at a given scale. -/
def dequantizeTensor (node : Node) (scale : Binary64) (x : Tensor) : Except Error Tensor := do
  let values ← integers node x
  realTensor x.shape (values.map fun v => .ofInt v * scale)

end DyadicNet.Eval
