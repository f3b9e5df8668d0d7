import DyadicNet.Eval.Pooling

/-!
# Kernels

The formulas for padding, convolution and pooling say which element belongs to each position.  The
kernels that an evaluation runs are loops over buffers.  They find an element by its place, and the
place, the extents of a padded plane, the number of planes and the length of a new buffer are machine
words: **a sum or a product that leaves 64 bits is taken modulo `2 ^ 64`**.  Nothing looks whether
this happens.  What is looked at is every access: the evaluation stops at a buffer that is too large,
and at a slice or an index beyond its buffer.

## Main definitions

* `word`, `maxElements` — machine words, and the length of the longest buffer;
* `Kernel.allocate?`, `Kernel.copySlice?`, `Kernel.load?` — what can stop an evaluation;
* `Kernel.pad?`, `Kernel.convolve?`, `Kernel.maxPool?` — the kernels.
-/

namespace DyadicNet.Eval

/-- The machine word with the same low 64 bits as a number. -/
def word (n : Nat) : Nat :=
  n % twoPow 64

/-- The length of the longest buffer: an element has eight bytes, and the number of bytes is a signed
machine integer. -/
def maxElements : Nat :=
  (twoPow 63 - 1) / 8

namespace Kernel

variable {α : Type}

/-! ### Buffers -/

/-- A new buffer, full of one element. -/
def allocate? (length : Nat) (fill : α) : Except Error (Array α) :=
  if length ≤ maxElements then .ok (Array.replicate length fill) else .error (.invalidInput .crash)

/-- The element at an index. -/
def load? (values : Array α) (index : Nat) : Except Error α :=
  match values[word index]? with
  | some v => .ok v
  | none => .error (.invalidInput .crash)

/-- The target with the first elements of a slice of the source over a slice of its own. -/
def copied (source target : Array α) (start offset : Nat) : Nat → Array α
  | 0 => target
  | n + 1 =>
    let target := copied source target start offset n
    match source[start + n]? with
    | some v => target.setIfInBounds (offset + n) v
    | none => target

/-- The target with a slice of the source over a slice of its own, both of the same length.  Start
and offset are machine words; an end that is not one lies beyond every buffer. -/
def copySlice? (source target : Array α) (start offset length : Nat) : Except Error (Array α) :=
  if word start + length ≤ source.size ∧ word offset + length ≤ target.size then
    .ok (copied source target (word start) (word offset) length)
  else .error (.invalidInput .crash)

/-- The elements that a loop over all positions computes, put one after another into a buffer. -/
def tabulate? (s : Nchw) (f : Nat → Nat → Nat → Nat → Except Error α) : Except Error (Array α) :=
  if s.volume ≤ maxElements then List.toArray <$> (s.tabulate f).toList.mapM id
  else .error (.invalidInput .crash)

/-! ### The kernels -/

/-- The extents with a padding around each plane, as machine words. -/
def padded (s : Nchw) (padding : Padding) : Nchw :=
  { s with
    height := word (s.padded padding).height
    width := word (s.padded padding).width }

/-- How many planes there are, as a machine word. -/
def planes (s : Nchw) : Nat :=
  word (s.batch * s.channels)

/-- A row of a plane of the data, copied to its place in the padded data. -/
def copyRow? (s out : Nchw) (padding : Padding) (values : Array α) (plane : Nat) (buffer : Array α)
    (y : Nat) : Except Error (Array α) :=
  copySlice? values buffer (plane * s.height * s.width + y * s.width)
    (plane * out.height * out.width + (y + padding.top) * out.width + padding.left) s.width

/-- All rows of all planes, copied to their places. -/
def copyRows? (s out : Nchw) (padding : Padding) (values buffer : Array α) :
    Except Error (Array α) :=
  (List.range (planes s)).foldlM (fun buffer plane =>
      (List.range s.height).foldlM (copyRow? s out padding values plane) buffer)
    buffer

/-- The elements with a padding of `fill` around each plane: a buffer is filled with it, and the rows
of the data are copied into it. -/
def pad? (s : Nchw) (padding : Padding) (fill : α) (values : Array α) :
    Except Error (Array α × Nchw) := do
  let out := padded s padding
  let empty ← allocate? (word out.volume) fill
  let full ← copyRows? s out padding values empty
  .ok (full, out)

/-- The data under a window with the weights on it, in the order of the positions. -/
def window? (input : Array Int) (s : Nchw) (weights : Array Int) (ws : Nchw) (stride : Node.Extents)
    (b oc oy ox : Nat) : Except Error (List (Int × Int)) :=
  (taps s.channels ws.height ws.width).mapM fun (c, ky, kx) => do
    let x ← load? input (s.index b c (oy * stride.height + ky) (ox * stride.width + kx))
    let w ← load? weights (ws.index oc c ky kx)
    .ok (x, w)

/-- The convolution of padded data with weights. -/
def convolve? (input : Array Int) (s : Nchw) (weights : Array Int) (ws : Nchw) (bias : Array Int)
    (stride : Node.Extents) (requantize : Requantize) : Except Error (Array Int × Nchw) := do
  let out ← convolved? s ws bias.size stride
  let values ← tabulate? out fun b oc oy ox => do
    let products ← window? input s weights ws stride b oc oy ox
    .ok (requantize.apply (dot products) (bias.getD oc 0))
  .ok (values, out)

/-- The planes of all batches one after another, as the channels of one batch. -/
def flattened (s : Nchw) : Nchw :=
  { s with batch := 1, channels := planes s }

/-- The element at a position of a plane. -/
def loadAt? (values : Array α) (s : Nchw) (plane y x : Nat) : Except Error α :=
  load? values ((flattened s).index 0 plane y x)

/-- The element at a place of a window. -/
def loadUnder? (values : Array α) (s : Nchw) (stride : Node.Extents) (plane oy ox : Nat) :
    Nat × Nat × Nat → Except Error α
  | (_, ky, kx) => loadAt? values s plane (oy * stride.height + ky) (ox * stride.width + kx)

/-- The elements under a window, and once more the one at its first place. -/
def windowAt? (values : Array α) (s : Nchw) (kernel stride : Node.Extents) (plane oy ox : Nat) :
    Except Error (α × List α) := do
  let first ← loadAt? values s plane (oy * stride.height) (ox * stride.width)
  let window ←
    (taps 1 kernel.height kernel.width).mapM (loadUnder? values s stride plane oy ox)
  .ok (first, window)

/-- The planes of all batches one after another, each of them in one row. -/
def rows (s : Nchw) : Nchw :=
  ⟨1, planes s, 1, word s.area⟩

/-- The largest element of each window. -/
def maxPool? (less : α → α → Bool) (values : Array α) (s : Nchw) (kernel stride : Node.Extents) :
    Except Error (Array α × Nchw) := do
  let out ← s.windows? kernel stride
  let pooled ← tabulate? (flattened out) fun _ plane oy ox =>
    (fun (first, window) => largest less first window)
      <$> windowAt? values s kernel stride plane oy ox
  .ok (pooled, out)

end Kernel

end DyadicNet.Eval
