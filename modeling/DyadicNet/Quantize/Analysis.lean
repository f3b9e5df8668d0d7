import DyadicNet.FixedPoint.Codec
import DyadicNet.Quantize.Params

/-!
# Choosing the format of a layer

The weights and the bias of a convolution share one fixed-point format of a given width.  It has
just as many bits before the point as the largest magnitude needs, and the rest after it.

## Main definitions

* `integerWidth` — the bits before the point;
* `Layer` — a layer in fixed point; `Stats` — what the rounding did to its weights;
* `analyze` — the layer for given weights and bias.
-/

namespace DyadicNet.Quantize

/-- The bits before the point, with the sign bit, that a magnitude needs: one more than its
logarithm rounded up, at least one and at most `maxBits`.  Without a magnitude the sign is
enough. -/
def integerWidth (value : Binary64) (maxBits : Nat) : Nat :=
  let zero := Binary64.zero false
  if zero.lt value then
    let bits := (value.log2.maxNum zero).ceil + .ofInt 1
    max 1 ((bits.minNum (.ofInt maxBits)).toInt 0 255).toNat
  else 1

/-- What the rounding did to the weights of a layer. -/
structure Stats where
  /-- The number of weights. -/
  total : Nat := 0
  /-- How many became zero. -/
  zeroCount : Nat := 0
  /-- How many became a power of two, up to the sign. -/
  pow2Count : Nat := 0
  /-- How many became anything else. -/
  remainingCount : Nat := 0
  /-- The largest of the weights and biases. -/
  maxValue : Binary64 := .zero false
  /-- The least of the weights and biases. -/
  minValue : Binary64 := .zero false
  /-- The largest magnitude of the weights and biases. -/
  highestValue : Binary64 := .zero false
  /-- The mean magnitude of the rounding error of a weight. -/
  meanAbsError : Binary64 := .zero false
  /-- The mean magnitude of a rounded weight. -/
  meanAbsValue : Binary64 := .zero false
deriving DecidableEq

namespace Stats

/-- The share of `count` in all weights. -/
def share (stats : Stats) (count : Nat) : Binary64 :=
  if stats.total = 0 then .zero false else .ofInt count / .ofInt stats.total

/-- The share of the weights that became zero. -/
def zeroShare (stats : Stats) : Binary64 :=
  stats.share stats.zeroCount

/-- The share of the weights that became a power of two. -/
def pow2Share (stats : Stats) : Binary64 :=
  stats.share stats.pow2Count

/-- The share of the other weights. -/
def remainingShare (stats : Stats) : Binary64 :=
  stats.share stats.remainingCount

end Stats

/-- The weights and the bias of a convolution in fixed point. -/
structure Layer where
  format : FixedPoint.Format
  /-- The integers that stand for the weights. -/
  weights : Tensor
  /-- The integers that stand for the bias, in the same format. -/
  bias : Tensor
  stats : Stats

/-- The parameters of the weights. -/
def Layer.params (layer : Layer) : Params :=
  .ofFormat layer.format

/-! ### The analysis -/

/-- The elements of a tensor that has to hold finite real numbers. -/
def finiteValues (node name : String) (tensor : Tensor) : Except Error (List Binary64) :=
  match tensor.reals? with
  | none => .error (.graph (.tensor (.dtype .real tensor.dtype)))
  | some values =>
    if values.all Binary64.isFinite then .ok values.toList
    else .error (.nonFiniteTensor node name)

/-- The least and the largest of a list of numbers. -/
def extremes (values : List Binary64) : Binary64 × Binary64 :=
  values.foldl (fun (low, high) v => (low.minNum v, high.maxNum v))
    (.infinity false, .infinity true)

/-- The integer that stands for a value in a format. -/
def code (format : FixedPoint.Format) (value : Binary64) : Except Error Int :=
  ((FixedPoint.encode format value).mapError .fixedPoint).map (FixedPoint.toSigned format)

/-- The mean of a list of magnitudes. -/
def mean (magnitudes : List Binary64) (total : Nat) : Binary64 :=
  magnitudes.foldl (· + ·) (.zero false) / .ofInt total

/-- What the rounding to a format did to weights that became the given integers. -/
def measure (format : FixedPoint.Format) (weights : List Binary64) (codes : List Int)
    (low high : Binary64) : Stats :=
  let rounded := codes.map fun c => Binary64.ofInt c * format.lsb
  let total := weights.length
  let zeroCount := codes.countP (· == 0)
  let pow2Count :=
    (codes.zip rounded).countP fun (c, value) => c != 0 && value.isPowerOfTwo
  { total
    zeroCount
    pow2Count
    remainingCount := total - zeroCount - pow2Count
    maxValue := high
    minValue := low
    highestValue := high.abs.maxNum low.abs
    meanAbsError := mean ((weights.zip rounded).map fun (w, value) => (w - value).abs) total
    meanAbsValue := mean (rounded.map Binary64.abs) total }

/-- The layer for given weights and bias, at a given width.  The weights are looked at before the
bias. -/
def analyze (node : String) (weights bias : Tensor) (totalBits : Nat) : Except Error Layer := do
  let weightValues ← finiteValues node "weights" weights
  let biasValues ← finiteValues node "bias" bias
  if weightValues.isEmpty then .error (.malformedNode node .emptyWeights)
  let (low, high) := extremes (weightValues ++ biasValues)
  let intBits := integerWidth (high.abs.maxNum low.abs) totalBits
  let format ← (FixedPoint.Format.ofTotalBits? totalBits intBits).mapError .fixedPoint
  let weightCodes ← weightValues.mapM (code format)
  let biasCodes ← biasValues.mapM (code format)
  let tensor (shape : List Nat) (type : IntType) (codes : List Int) : Except Error Tensor :=
    (Tensor.ofInts? shape (.int type) codes.toArray).mapError (.graph ∘ .tensor)
  let quantizedWeights ← tensor weights.shape (.forBits totalBits) weightCodes
  let quantizedBias ← tensor bias.shape .i32 biasCodes
  .ok
    { format
      weights := quantizedWeights
      bias := quantizedBias
      stats := measure format weightValues weightCodes low high }

end DyadicNet.Quantize
