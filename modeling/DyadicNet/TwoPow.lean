/-!
# Powers of two

The widths, the bounds and the scales of this library are powers of two, and `twoPow` is how all of
them are written.

* `twoPow` — the power with a given exponent;
* `twoPow_succ`, `twoPow_pos` — how it grows.
-/

namespace DyadicNet

/-- Two to the power `n`, which is the weight of bit `n`. -/
def twoPow (n : Nat) : Nat :=
  Nat.pow 2 n

@[simp] theorem twoPow_zero : twoPow 0 = 1 := rfl

theorem twoPow_succ (n : Nat) : twoPow (n + 1) = 2 * twoPow n :=
  Nat.mul_comm _ _

theorem twoPow_pos (n : Nat) : 0 < twoPow n := by
  induction n with
  | zero => decide
  | succ n ih => rw [twoPow_succ]; omega

end DyadicNet
