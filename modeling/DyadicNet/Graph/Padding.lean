/-!
# Padding

Rows and columns that are put around the planes of a tensor.

* `Padding` — the type;
* `Padding.ofInts?` — the padding that a list of numbers describes.
-/

namespace DyadicNet

/-- The numbers of rows and columns around a plane. -/
structure Padding where
  top : Nat
  left : Nat
  bottom : Nat
  right : Nat
deriving DecidableEq

/-- Why numbers are not a padding. -/
inductive Padding.Fault where
  /-- A number is negative. -/
  | negative
  /-- The batch axis or the channel axis would be padded. -/
  | outerAxes
  /-- There are neither four nor eight numbers. -/
  | count (got : Nat)
deriving DecidableEq

namespace Padding

/-- What is wrong with the numbers. -/
def Fault.message : Fault → String
  | .negative => "negative padding"
  | .outerAxes => "batch and channel axes cannot be padded"
  | .count got => s!"expected 4 or 8 values, got {got}"

/-- No padding. -/
def none : Padding :=
  ⟨0, 0, 0, 0⟩

/-- Whether nothing is padded. -/
def isNone (padding : Padding) : Bool :=
  padding == none

/-- The padding that numbers describe.  Four numbers are the padding at the top, on the left, at the
bottom and on the right.  Eight numbers give all four axes, first what is put before them and then
what is put after them; the two outer axes cannot be padded. -/
def ofInts? (values : List Int) : Except Fault Padding :=
  if values.any (· < 0) then .error .negative
  else
    match values.map Int.toNat with
    | [top, left, bottom, right] => .ok ⟨top, left, bottom, right⟩
    | [batchBefore, channelBefore, top, left, batchAfter, channelAfter, bottom, right] =>
      if batchBefore = 0 ∧ channelBefore = 0 ∧ batchAfter = 0 ∧ channelAfter = 0 then
        .ok ⟨top, left, bottom, right⟩
      else .error .outerAxes
    | _ => .error (.count values.length)

end Padding

end DyadicNet
