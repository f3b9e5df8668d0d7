import DyadicNet.Eval.Error

/-!
# Planes of batches and channels

Operators on images work on tensors with four axes: batch, channel, row and column.  Their results
are given **by a formula for each position**; `Nchw.tabulate` turns such a formula into elements in
row-major order, and `Nchw.index` says where the element of a position is.

## Main definitions

* `Nchw` — four extents;
* `Nchw.index`, `Nchw.tabulate`, `Nchw.read` — positions and elements;
* `pad` — putting rows and columns around every plane.
-/

namespace DyadicNet.Eval

/-- The extents of a tensor with four axes. -/
structure Nchw where
  batch : Nat
  channels : Nat
  height : Nat
  width : Nat
deriving DecidableEq

namespace Nchw

/-- The four extents of a shape. -/
def ofShape? : List Nat → Except Error Nchw
  | [batch, channels, height, width] => .ok ⟨batch, channels, height, width⟩
  | shape => .error (.invalidInput (.rank shape))

variable (s : Nchw)

/-- The extents as a shape. -/
def toShape : List Nat :=
  [s.batch, s.channels, s.height, s.width]

/-- The number of positions. -/
def volume : Nat :=
  s.batch * s.channels * s.height * s.width

/-- The number of elements of a plane. -/
def area : Nat :=
  s.height * s.width

/-- Where the element of a position is. -/
def index (b c y x : Nat) : Nat :=
  ((b * s.channels + c) * s.height + y) * s.width + x

variable {α : Type}

/-- The elements given by a formula for each position. -/
def tabulate (f : Nat → Nat → Nat → Nat → α) : Array α :=
  Array.ofFn fun i : Fin s.volume =>
    let plane := i.val / s.area
    f (plane / s.channels) (plane % s.channels) (i.val / s.width % s.height) (i.val % s.width)

/-- The element at a position; `absent` where there is none. -/
def read (values : Array α) (absent : α) (b c y x : Nat) : α :=
  values.getD (s.index b c y x) absent

@[simp] theorem size_tabulate (f : Nat → Nat → Nat → Nat → α) :
    (s.tabulate f).size = s.volume := by
  simp [tabulate]

/-! ### Padding -/

/-- The extents with a padding around each plane. -/
def padded (padding : Padding) : Nchw :=
  { s with
    height := s.height + padding.top + padding.bottom
    width := s.width + padding.left + padding.right }

end Nchw

/-- The elements with a padding of `fill` around each plane. -/
def pad {α : Type} (s : Nchw) (padding : Padding) (fill : α) (values : Array α) : Array α :=
  (s.padded padding).tabulate fun b c y x =>
    if padding.top ≤ y ∧ y < padding.top + s.height
        ∧ padding.left ≤ x ∧ x < padding.left + s.width then
      s.read values fill b c (y - padding.top) (x - padding.left)
    else fill

end DyadicNet.Eval
