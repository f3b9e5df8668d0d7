import DyadicNet.Eval.Error

/-!
# Comparing outputs

Two tensors of one shape are compared element by element, as doubles.

* `Comparison` — the outcome;
* `compare?` — the comparison of two tensors;
* `ensureWithin?` — the same, refused if an element differs by more than is tolerated.
-/

namespace DyadicNet.Eval

/-- How far two tensors agree. -/
structure Comparison where
  /-- The number of elements. -/
  total : Nat
  /-- How many differ by more than is tolerated. -/
  mismatches : Nat
  maxAbsError : Binary64
  meanAbsError : Binary64
  tolerance : Binary64
deriving DecidableEq

/-- Whether no element differs by more than is tolerated. -/
def Comparison.passed (comparison : Comparison) : Bool :=
  comparison.mismatches == 0

/-- The comparison of a candidate with a reference.  An error that is *not a number* is never
tolerated; the largest error leaves it out. -/
def compare? (reference candidate : Tensor) (tolerance : Binary64) : Except Error Comparison :=
  if reference.shape ≠ candidate.shape then
    .error (.invalidInput (.shapes reference.shape candidate.shape))
  else
    let zero := Binary64.zero false
    let errors := (reference.toReals.toList.zip candidate.toReals.toList).map fun (e, a) =>
      (e - a).abs
    let total := reference.size
    .ok
      { total
        mismatches := errors.countP fun error => !error.le tolerance
        maxAbsError := errors.foldl Binary64.maxNum zero
        meanAbsError := if total = 0 then zero else errors.foldl (· + ·) zero / .ofInt total
        tolerance }

/-- The comparison of a candidate with a reference that it has to match. -/
def ensureWithin? (reference candidate : Tensor) (tolerance : Binary64) :
    Except Error Comparison := do
  let comparison ← compare? reference candidate tolerance
  if comparison.passed then .ok comparison
  else
    .error
      (.verification comparison.mismatches comparison.total tolerance comparison.maxAbsError)

end DyadicNet.Eval
