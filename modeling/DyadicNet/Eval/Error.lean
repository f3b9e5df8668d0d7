import DyadicNet.Quantize.Error

/-!
# What can go wrong in an evaluation

* `Eval.Error` — the causes; `Eval.Error.message` — their wording;
* `InputFault` — what an operand, an operator's settings or a whole graph can get wrong.
-/

namespace DyadicNet.Eval

/-- Why a node cannot be evaluated on its operands. -/
inductive InputFault where
  /-- A tensor does not have the four axes batch, channel, row and column. -/
  | rank (shape : List Nat)
  /-- A window is larger than what it moves over, or has no extent or step. -/
  | window (extent step size : Nat)
  | channels (expected got : Nat)
  | biasSize (got outputs : Nat)
  /-- The graph has no input to bind a tensor to. -/
  | noDataInput
  | noOutput (node : String)
  | zeroPointType (node : String) (got : DType)
  /-- The declared window is not that of the weights. -/
  | kernel (node : String) (declared : List Int) (weights : List Nat)
  /-- A change of scale is too large for a shift. -/
  | shifts (node : String) (input bias output : Int)
  | unquantizable (node : String) (value : Binary64)
  | pads (node : String) (fault : Padding.Fault)
  | needsIntegers (node operator : String)
  | shapes (reference candidate : List Nat)
  /-- Not an error that is returned: the evaluation stops at a buffer that is too large, or at a slice
  or an index beyond its buffer. -/
  | crash
deriving DecidableEq

/-- The largest shift by which a convolution may change a scale. -/
def maxShift : Int := 62

/-- The wording of a fault. -/
def InputFault.message : InputFault → String
  | .rank shape =>
    let shape := listing shape
    s!"expected an NCHW tensor, got shape {shape}"
  | .window extent step size => s!"window {extent} with stride {step} does not fit extent {size}"
  | .channels expected got => s!"weights expect {expected} input channels, input has {got}"
  | .biasSize got outputs => s!"bias has {got} entries for {outputs} output channels"
  | .noDataInput => "graph declares no data input"
  | .noOutput node => s!"node '{node}' has no output"
  | .zeroPointType node got =>
    let got := got.name
    s!"zero point of node '{node}' must be an integer tensor, got {got}"
  | .kernel node declared weights =>
    let declared := listing declared
    let weights := listing weights
    s!"node '{node}' declares kernel {declared} but weights are {weights}"
  | .shifts node input bias output =>
    s!"node '{node}' rescales by 2^{input}, 2^{bias} and 2^{output}; "
      ++ s!"shifts beyond {maxShift} bits are unsupported"
  | .unquantizable node value =>
    let value := Layout.plain.text value
    s!"node '{node}' cannot quantize {value}"
  | .pads node fault =>
    let fault := fault.message
    s!"pads of '{node}': {fault}"
  | .needsIntegers node operator => s!"node '{node}' ({operator}) expects an integer tensor"
  | .shapes reference candidate =>
    let reference := listing reference
    let candidate := listing candidate
    s!"shape mismatch: reference {reference}, candidate {candidate}"
  | .crash => "a buffer is too large, or an access is outside of it"

/-- Why an evaluation or a comparison fails. -/
inductive Error where
  | graph (error : Graph.Error)
  | quantize (error : Quantize.Error)
  | fixedPoint (error : FixedPoint.Error)
  /-- An operator, or a mode of one, that is not evaluated. -/
  | unsupportedLayer (node operator : String)
  /-- A convolution that has not been quantized. -/
  | floatConvolution (node : String)
  /-- A name has no value where it is read. -/
  | missingValue (node name : String)
  /-- Elements differ by more than is tolerated. -/
  | verification (mismatches total : Nat) (tolerance maxAbsError : Binary64)
  | invalidInput (fault : InputFault)
deriving DecidableEq

/-- The message of an error; what is wrapped keeps its own message after a heading. -/
def Error.message : Error → String
  | .graph error =>
    let inner := error.message
    s!"Model error: {inner}"
  | .quantize error =>
    let inner := error.message
    s!"Quantization error: {inner}"
  | .fixedPoint error =>
    let inner := error.message
    s!"Fixed-point error: {inner}"
  | .unsupportedLayer node operator => s!"Unsupported layer '{node}' of type {operator}"
  | .floatConvolution node =>
    s!"Float convolution '{node}' cannot be executed; quantize the graph first"
  | .missingValue node name => s!"Node '{node}' reads '{name}', which has no value yet"
  | .verification mismatches total tolerance maxAbsError =>
    let tolerance := Layout.plain.text tolerance
    let maxAbsError := Layout.plain.text maxAbsError
    s!"Verification failed: {mismatches}/{total} elements differ by more than {tolerance} "
      ++ s!"(max error {maxAbsError})"
  | .invalidInput fault =>
    let reason := fault.message
    s!"Invalid input: {reason}"

end DyadicNet.Eval
