import DyadicNet.FixedPoint.Format
import DyadicNet.Graph.Error

/-!
# What can go wrong in a quantization

* `Quantize.Error` — the causes; `Quantize.Error.message` — their wording;
* `ParamsFault`, `NodeFault` — the finer causes inside some of them.
-/

namespace DyadicNet.Quantize

/-- Why a scale and a zero point are not quantization parameters. -/
inductive ParamsFault where
  | zeroPoint
  | sign
  | powerOfTwo
  | integer
deriving DecidableEq

/-- The wording of a fault. -/
def ParamsFault.message : ParamsFault → String
  | .zeroPoint => "only zero point 0 is supported"
  | .sign => "scale must be positive"
  | .powerOfTwo => "scale must be a power of two"
  | .integer => "zero point must be an integer"

/-- Why a node cannot be quantized. -/
inductive NodeFault where
  | missingData
  | missingWeights
  | missingBias
  | missingOutput
  | emptyWeights
  /-- A tensor that the conversion has to add would get a name that is taken. -/
  | nameInUse (name : String)
deriving DecidableEq

/-- The wording of a fault. -/
def NodeFault.message : NodeFault → String
  | .missingData => "missing data input"
  | .missingWeights => "missing weight input"
  | .missingBias => "missing bias input"
  | .missingOutput => "missing output"
  | .emptyWeights => "empty weight tensor"
  | .nameInUse name => s!"derived tensor name '{name}' is already in use"

/-- Why a graph cannot be quantized. -/
inductive Error where
  | invalidParams (scale : Binary64) (zeroPoint : Int) (fault : ParamsFault)
  | missingInitializer (node name : String)
  | malformedNode (node : String) (fault : NodeFault)
  /-- An output scale is not a power of two. -/
  | scaleOutOfRange (node : String) (scale : Binary64)
  | nonFiniteTensor (node name : String)
  | graph (error : Graph.Error)
  | fixedPoint (error : FixedPoint.Error)
deriving DecidableEq

/-- The message of an error; what is wrapped keeps its own message after a heading. -/
def Error.message : Error → String
  | .invalidParams scale zeroPoint fault =>
    let scale := Layout.plain.text scale
    let reason := fault.message
    s!"Invalid quantization parameters (scale {scale}, zero point {zeroPoint}): {reason}"
  | .missingInitializer node name => s!"Node '{node}' references missing initializer '{name}'"
  | .malformedNode node fault =>
    let reason := fault.message
    s!"Malformed node '{node}': {reason}"
  | .scaleOutOfRange node scale =>
    let scale := Layout.plain.text scale
    s!"Output scale {scale} of node '{node}' is not a power of two after clamping"
  | .nonFiniteTensor node name =>
    s!"Tensor '{name}' of node '{node}' contains NaN or infinite values"
  | .graph error =>
    let inner := error.message
    s!"Model error: {inner}"
  | .fixedPoint error =>
    let inner := error.message
    s!"Fixed-point error: {inner}"

end DyadicNet.Quantize
