import DyadicNet.Eval.Convolution

/-!
# Pooling

* `maxPool?` — the largest element of each window, by a formula for each position;
* `averagePool` and `averagePoolInt` — the mean of each plane, of real numbers and of integers.
-/

namespace DyadicNet.Eval

/-- The extents when each window of a plane has become one element. -/
def Nchw.windows? (s : Nchw) (kernel stride : Node.Extents) : Except Error Nchw := do
  let height ← windowCount? s.height kernel.height stride.height
  let width ← windowCount? s.width kernel.width stride.width
  .ok { s with height, width }

/-- The largest of some elements and a first one, by a strict comparison: an element that does not
compare, such as *not a number*, is kept only if it is the first one. -/
def largest {α : Type} (less : α → α → Bool) (first : α) (window : List α) : α :=
  window.foldl (fun largest value => if less largest value then value else largest) first

/-- The largest element of each window, by a formula for each position. -/
def maxPool? {α : Type} (less : α → α → Bool) (absent : α) (values : Array α) (s : Nchw)
    (kernel stride : Node.Extents) : Except Error (Array α × Nchw) := do
  let out ← s.windows? kernel stride
  let element (b c oy ox : Nat) : α :=
    largest less (s.read values absent b c (oy * stride.height) (ox * stride.width))
      ((taps 1 kernel.height kernel.width).map fun (_, ky, kx) =>
        s.read values absent b c (oy * stride.height + ky) (ox * stride.width + kx))
  .ok (out.tabulate element, out)

/-- The elements in pieces of the given size, as many as there are; the last one may be shorter. -/
def pieces {α : Type} (size count : Nat) (values : Array α) : List (List α) :=
  let size := max 1 size
  (List.range (min count ((values.size + size - 1) / size))).map fun i =>
    (values.extract (i * size) (i * size + size)).toList

/-- The extents after each plane has become one element. -/
def Nchw.pooled (s : Nchw) : Nchw :=
  { s with height := 1, width := 1 }

/-- The mean of each plane. -/
def averagePool (values : Array Binary64) (s : Nchw) : Array Binary64 :=
  ((pieces s.area (s.batch * s.channels) values).map fun plane =>
    Binary64.sum plane / .ofInt s.area).toArray

/-- The mean of each plane, rounded half to even.  The sum is a 64-bit integer, and it is divided as
a double. -/
def averagePoolInt (values : Array Int) (s : Nchw) : Array Int :=
  ((pieces s.area (s.batch * s.channels) values).map fun plane =>
    (Binary64.ofInt (wrap64 (plane.foldl (· + ·) 0)) / .ofInt s.area).roundEven.toInt64).toArray

end DyadicNet.Eval
