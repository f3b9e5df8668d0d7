import DyadicNet.Binary64.Log2
import DyadicNet.Graph.Basic
import DyadicNet.Quantize.Error

/-!
# Quantization parameters

An integer of a quantized tensor stands for `integer · scale`.  **Scales are powers of two and zero
stands for zero**, so that changing a scale is a shift.

## Main definitions

* `Params` — a scale with its exponent;
* `Params.make?` — the parameters with a given scale, which is checked;
* `Params.ofExponent`, `Params.ofFormat` — parameters by exponent and by fixed-point format;
* `Params.toTensors?`, `Params.ofConstants?` — the constants that carry parameters in a graph;
* `propagateScale?` — the scale of the output of a convolution.
-/

namespace DyadicNet.Quantize

/-- The parameters of a quantized tensor. -/
structure Params where
  /-- What one unit stands for. -/
  scale : Binary64
  /-- The integer that stands for zero. -/
  zeroPoint : Int
  /-- The exponent of the scale. -/
  exponent : Int
deriving DecidableEq

namespace Params

/-- The parameters with the given scale and zero point.  The zero point is checked first. -/
def make? (scale : Binary64) (zeroPoint : Int) : Except Error Params :=
  if zeroPoint ≠ 0 then .error (.invalidParams scale zeroPoint .zeroPoint)
  else if !(Binary64.zero false).lt scale then .error (.invalidParams scale zeroPoint .sign)
  else
    match scale.exactLog2 with
    | some exponent => .ok ⟨scale, zeroPoint, exponent⟩
    | none => .error (.invalidParams scale zeroPoint .powerOfTwo)

/-- The parameters with the scale `2 ^ exponent`. -/
def ofExponent (exponent : Int) : Params :=
  ⟨.powerOfTwo exponent, 0, exponent⟩

/-- The parameters under which an integer stands for the value of the codeword of a format. -/
def ofFormat (format : FixedPoint.Format) : Params :=
  ofExponent (-format.fracBits)

/-- The scale as a power. -/
def text (params : Params) : String :=
  let exponent := params.exponent
  s!"2^{exponent}"

/-! ### Constants of a graph -/

/-- The constants that carry the scale and the zero point.  The type of the zero point is the type
of the quantized tensor. -/
def toTensors? (params : Params) (dtype : DType) : Except Error (Tensor × Tensor) := do
  let zeroPoint ← (Tensor.scalarInt? dtype params.zeroPoint).mapError (.graph ∘ .tensor)
  .ok (Tensor.scalarReal params.scale, zeroPoint)

/-- The parameters that two constants of a graph carry for a node. -/
def ofConstants? (graph : Graph) (node scaleName zeroPointName : String) : Except Error Params := do
  let scale ← (graph.scalar? node scaleName).mapError .graph
  let zeroPoint ← (graph.scalar? node zeroPointName).mapError .graph
  if zeroPoint.isIntegral then make? scale zeroPoint.toInt64
  else .error (.invalidParams scale zeroPoint.toInt64 .integer)

end Params

/-! ### The scale of an output -/

/-- The exponent of the power of two nearest to a mean magnitude on the logarithmic scale; zero for
a mean of zero. -/
def meanExponent (mean : Binary64) : Int :=
  if (Binary64.zero false).lt mean then
    mean.log2.roundEven.toInt (signedMin 32) (signedMax 32)
  else 0

/-- The parameters of the output of a convolution: the scale of its input divided by the mean
magnitude of its weights, as powers of two, and kept between `1` and `2 ^ totalBits`.  Exponents are
32-bit integers. -/
def propagateScale? (node : String) (input : Params) (mean : Binary64) (totalBits : Nat) :
    Except Error Params :=
  let raw := Binary64.powerOfTwo (wrap32 (input.exponent - meanExponent mean))
  let scale := raw.clamp (.ofInt 1) (.powerOfTwo totalBits)
  if scale.isPowerOfTwo then Params.make? scale 0
  else .error (.scaleOutOfRange node scale)

end DyadicNet.Quantize
