import DyadicNet.Decimal.Numeral

/-!
# The fewest digits that read back

Many decimals round to the same double.  The ones that do form an interval around it, reaching
half way to either neighbour; its ends belong to it when the significand is even, because a tie is
rounded to the even side.  **The digits of a double are the shortest decimal in that interval**, and
of several equally short ones the nearest.

The search is the definition itself: for one digit, two digits and so on it looks at the two
decimals of that length next to the value, and stops at the first length that has one inside the
interval.

## Main definitions

* `Shortest.Interval` — the decimals that read back as a given double;
* `Shortest.digits` — the digits of a positive double and the place of the first one.
-/

namespace DyadicNet.Shortest

/-- How two equally near candidates are told apart: the even one, or the one further from zero. -/
inductive Tie where
  | even
  | away
deriving DecidableEq

/-- The numbers that round to one double. -/
structure Interval where
  /-- The lower end. -/
  lower : Rat
  /-- The upper end. -/
  upper : Rat
  /-- Whether the ends belong to the interval. -/
  closed : Bool

/-- Whether a number lies in the interval. -/
def Interval.holds (i : Interval) (q : Rat) : Bool :=
  if i.closed then decide (i.lower ≤ q ∧ q ≤ i.upper) else decide (i.lower < q ∧ q < i.upper)

/-- The numbers that round to `m · 2ᵉ`.  Below a power of two the doubles are twice as close. -/
def interval (m : Nat) (e : Int) : Interval where
  lower := (if m = twoPow 52 ∧ -1074 < e then (m : Rat) - 1 / 4 else m - 1 / 2) * 2 ^ e
  upper := ((m : Rat) + 1 / 2) * 2 ^ e
  closed := m % 2 == 0

/-- The exponent of the largest power of ten that does not exceed the positive `q`.  The binary
exponent gives it up to one step either way. -/
def floorLog10 (q : Rat) : Int :=
  let guess := Binary64.floorLog2 q * 1233 / 4096 - 1
  if (10 : Rat) ^ (guess + 2) ≤ q then guess + 2
  else if (10 : Rat) ^ (guess + 1) ≤ q then guess + 1
  else guess

/-- The multiple of `10 ^ place` that is next to `q`, lies in the interval, and is the nearer one if
both neighbours do; as a count of the grid's units. -/
def nearestOnGrid (i : Interval) (tie : Tie) (q : Rat) (place : Int) : Option Nat :=
  let grid : Rat := 10 ^ place
  let below := (q / grid).floor.toNat
  let above := below + 1
  let middle : Rat := below + 1 / 2
  let takesAbove : Bool :=
    if q / grid = middle then tie = .away || below % 2 == 1 else decide (middle < q / grid)
  match i.holds (below * grid), i.holds (above * grid) with
  | true, true => some (if takesAbove then above else below)
  | true, false => some below
  | false, true => some above
  | false, false => none

/-- The first grid, from `place` downwards, that has a point in the interval: the point and the
grid's place. -/
def search (i : Interval) (tie : Tie) (q : Rat) (place : Int) : Nat → Option (Nat × Int)
  | 0 => none
  | fuel + 1 =>
    match nearestOnGrid i tie q place with
    | some n => some (n, place)
    | none => search i tie q (place - 1) fuel

/-- The decimal digits of `n` without the zeros at the end. -/
def significantDigits (n : Nat) : List Nat :=
  ((decimalDigits n).reverse.dropWhile (· == 0)).reverse

/-- The digits of the positive double `m · 2ᵉ`, without zeros at either end, and the power of ten
of the first digit.  Seventeen digits always suffice; were none found, the exact value would be
written out. -/
def digits (tie : Tie) (m : Nat) (e : Int) : List Nat × Int :=
  let q : Rat := (m : Rat) * 2 ^ e
  let (n, place) :=
    (search (interval m e) tie q (floorLog10 q) 17).getD
      (if 0 ≤ e then (m * twoPow e.toNat, 0) else (m * Nat.pow 5 (-e).toNat, e))
  (significantDigits n, place + (decimalDigits n).length - 1)

end DyadicNet.Shortest
