import DyadicNet.Eval.Nchw
import DyadicNet.Graph.Node
import DyadicNet.Rounding

/-!
# Quantized convolution

A quantized convolution is computed on integers alone.  The products of a window are summed, the sum
and the bias are brought to a common scale by shifts, and their sum is shifted to the scale of the
output, rounded half to even and clamped to the width of the output.  **Every step before the last
one saturates at the bounds of 64 bits.**

## Main definitions

* `windowCount?` — how many positions a window has along an axis;
* `Requantize` — the shifts and the width of an output;
* `convolve?` — the convolution of padded data, by a formula for each position.
-/

namespace DyadicNet.Eval

/-- How many positions a window has that moves in steps over an axis. -/
def windowCount? (size extent step : Nat) : Except Error Nat :=
  if extent = 0 ∨ step = 0 ∨ size < extent then .error (.invalidInput (.window extent step size))
  else .ok ((size - extent) / step + 1)

/-- The change of scale after a convolution. -/
structure Requantize where
  /-- By how much the sum of the products is shifted to the left. -/
  inputShift : Nat
  /-- By how much the bias is shifted to the left. -/
  biasShift : Nat
  /-- By how much the result is shifted to the right. -/
  outputShift : Int
  /-- The width of the output. -/
  bits : Nat
deriving DecidableEq

/-- The value of a signed integer of the given width that is nearest to `value`.  Widths are at
least one and at most 63. -/
def saturate (value : Int) (bits : Nat) : Int :=
  let bits := max 1 (min bits 63)
  clampInt (signedMin bits) (signedMax bits) value

/-- The value shifted to the left, saturating. -/
def shiftLeft (value : Int) (shift : Nat) : Int :=
  shiftHalfEven value (-(min shift 63 : Nat))

/-- The positions of a window: input channel, row and column, the column varying fastest. -/
def taps (channels height width : Nat) : List (Nat × Nat × Nat) :=
  (List.range channels).flatMap fun c =>
    (List.range height).flatMap fun ky => (List.range width).map fun kx => (c, ky, kx)

/-- The sum of products, saturating at every step. -/
def dot (products : List (Int × Int)) : Int :=
  products.foldl (fun sum (x, w) => saturate64 (sum + saturate64 (x * w))) 0

/-- The output for the sum of a window and the bias of its channel. -/
def Requantize.apply (requantize : Requantize) (sum bias : Int) : Int :=
  let acc := saturate64 (shiftLeft sum requantize.inputShift + shiftLeft bias requantize.biasShift)
  saturate (shiftHalfEven acc requantize.outputShift) requantize.bits

/-- The data under a window with the weights on it, in the order of the positions. -/
def window (input : Array Int) (s : Nchw) (weights : Array Int) (ws : Nchw) (stride : Node.Extents)
    (b oc oy ox : Nat) : List (Int × Int) :=
  (taps s.channels ws.height ws.width).map fun (c, ky, kx) =>
    (s.read input 0 b c (oy * stride.height + ky) (ox * stride.width + kx),
      ws.read weights 0 oc c ky kx)

/-- The extents of a convolution of padded data.  The first two axes of the weights are the output
channel and the input channel; the channels of the data and the bias have to go with them. -/
def convolved? (s ws : Nchw) (biasSize : Nat) (stride : Node.Extents) : Except Error Nchw := do
  if ws.channels ≠ s.channels then .error (.invalidInput (.channels ws.channels s.channels))
  if biasSize ≠ ws.batch then .error (.invalidInput (.biasSize biasSize ws.batch))
  let height ← windowCount? s.height ws.height stride.height
  let width ← windowCount? s.width ws.width stride.width
  .ok ⟨s.batch, ws.batch, height, width⟩

/-- The convolution of padded data with weights, by a formula for each position. -/
def convolve? (input : Array Int) (s : Nchw) (weights : Array Int) (ws : Nchw) (bias : Array Int)
    (stride : Node.Extents) (requantize : Requantize) : Except Error (Array Int × Nchw) := do
  let out ← convolved? s ws bias.size stride
  let element (b oc oy ox : Nat) : Int :=
    requantize.apply (dot (window input s weights ws stride b oc oy ox)) (bias.getD oc 0)
  .ok (out.tabulate element, out)

end DyadicNet.Eval
