import Mathlib
import DyadicNet.Eval.Comparison
import DyadicNet.Proofs.Binary64.Difference
import DyadicNet.Proofs.Binary64.Order
import DyadicNet.Proofs.Tensor

/-!
# What a comparison sees

Tensors are compared as doubles.  A tolerance of zero asks for equality, and no rounding of the
differences gets in the way: the difference of two doubles is zero only if they are equal, and the
order in which they are subtracted does not show.  What does get in the way is that integers become
doubles first.  **A comparison without tolerance counts the positions at which the nearest doubles
differ**, and these are the positions at which the elements differ as long as every integer is a
double.  Beyond `2 ^ 53` two different integers can have the same nearest double, and pass for equal.

## Main Definitions

* `Tensor.toRats` — the elements of a tensor as rationals;
* `differences` — at how many positions two lists differ.

## Main Statements

* `toReals_eq_nearestDouble` — elements as doubles;
* `compare?_exact` — comparisons without tolerance;
* `compare?_ne_exact` — different integers that pass for equal.
-/

namespace DyadicNet

open Binary64

/-! ### Exact elements -/

/-- Elements that are real numbers are finite ones. -/
def Elements.AllFinite : Elements → Prop
  | .reals values => ∀ v ∈ values, v.isFinite = true
  | .ints _ _ => True

instance : DecidablePred Elements.AllFinite
  | .reals values => inferInstanceAs (Decidable (∀ v ∈ values, v.isFinite = true))
  | .ints _ _ => inferInstanceAs (Decidable True)

/-- The elements of a tensor as rationals. -/
def Tensor.toRats (x : Tensor) : List ℚ :=
  match x.elements with
  | .reals values => values.toList.map toRat
  | .ints _ values => values.toList.map Int.cast

/-- The value of the double that is nearest to a rational. -/
def nearestDouble (q : ℚ) : ℚ :=
  (ofRat q).toRat

variable {x y : Tensor}

/-- A rational that a double holds is the nearest double to itself. -/
theorem nearestDouble_eq {q : ℚ} (h : IsMagnitude |q|) : nearestDouble q = q :=
  toRat_ofRat h

theorem length_toRats (x : Tensor) : x.toRats.length = elementCount x.shape := by
  have hsize := x.size_eq
  unfold Tensor.toRats
  cases helements : x.elements with
  | reals values => simpa [helements, Elements.size] using hsize
  | ints type values => simpa [helements, Elements.size] using hsize

/-- The doubles that elements become are finite. -/
theorem isFinite_of_mem_toReals (hx : x.elements.AllFinite) :
    ∀ v ∈ x.toReals.toList, v.isFinite = true := by
  unfold Tensor.toReals
  cases helements : x.elements with
  | reals values =>
    rw [helements] at hx
    exact fun v hv => hx v (Array.mem_toList_iff.mp hv)
  | ints type values =>
    intro v hv
    obtain ⟨n, hn, rfl⟩ := Array.mem_map.mp (Array.mem_toList_iff.mp hv)
    have hfits := IntType.fits64_of_holds (Tensor.holds_of_mem_ints helements hn)
    exact (denotes_ofInt64 hfits).isFinite

/-- **Elements become their nearest doubles.** -/
theorem toReals_eq_nearestDouble (hx : x.elements.AllFinite) :
    x.toReals.toList.map toRat = x.toRats.map nearestDouble := by
  unfold Tensor.toReals Tensor.toRats
  cases helements : x.elements with
  | reals values =>
    rw [helements] at hx
    dsimp only
    rw [List.map_map]
    refine List.map_congr_left fun v hv => ?_
    have hvalue := denotes_self (hx v (Array.mem_toList_iff.mp hv))
    exact (nearestDouble_eq (hvalue.abs_toRat ▸ hvalue.isMagnitude)).symm
  | ints type values =>
    dsimp only
    rw [Array.toList_map, List.map_map, List.map_map]
    rfl

/-! ### Positions that differ -/

/-- The number of positions at which two lists differ. -/
def differences (ps qs : List ℚ) : ℕ :=
  (ps.zip qs).countP fun pair => decide (pair.1 ≠ pair.2)

theorem differences_eq_zero_iff {ps qs : List ℚ} (h : ps.length = qs.length) :
    differences ps qs = 0 ↔ ps = qs := by
  unfold differences
  rw [List.countP_eq_zero, ← List.forall₂_eq_eq_eq, List.forall₂_iff_zip]
  simp [h]

namespace Eval

/-- What two tensors differ by, element by element. -/
def distances (x y : Tensor) : List Binary64 :=
  (x.toReals.toList.zip y.toReals.toList).map fun (e, a) => (e - a).abs

theorem distances_comm (x y : Tensor) : distances x y = distances y x := by
  unfold distances
  rw [← List.zip_swap y.toReals.toList, List.map_map]
  exact List.map_congr_left fun _ _ => distance_comm _ _

/-- Distances of more than zero are between numbers that differ. -/
theorem countP_distances (hx : x.elements.AllFinite) (hy : y.elements.AllFinite) :
    (distances x y).countP (fun distance => !distance.le (zero false))
      = differences (x.toRats.map nearestDouble) (y.toRats.map nearestDouble) := by
  unfold distances differences
  rw [← toReals_eq_nearestDouble hx, ← toReals_eq_nearestDouble hy, List.zip_map, List.countP_map,
    List.countP_map]
  refine List.countP_congr fun (e, a) hpair => ?_
  obtain ⟨he, ha⟩ := List.of_mem_zip hpair
  have hzero := isZero_sub_iff (isFinite_of_mem_toReals hx e he) (isFinite_of_mem_toReals hy a ha)
  simp [← hzero, ← abs_le_zero_iff]

/-! ### Comparisons -/

/-- Tensors of one shape can be compared, and what counts is their distances. -/
theorem exists_compare? (hshape : x.shape = y.shape) (tolerance : Binary64) :
    ∃ comparison, compare? x y tolerance = .ok comparison ∧ comparison.mismatches
      = (distances x y).countP fun distance => !distance.le tolerance := by
  unfold compare?
  rw [if_neg (not_not.mpr hshape)]
  exact ⟨_, rfl, rfl⟩

/-- **Comparing is symmetric**, whatever is tolerated. -/
theorem compare?_comm (hshape : x.shape = y.shape) (tolerance : Binary64) :
    compare? x y tolerance = compare? y x tolerance := by
  have hsize : x.size = y.size := by
    rw [Tensor.size, x.size_eq, Tensor.size, y.size_eq, hshape]
  have herrors := distances_comm x y
  unfold distances at herrors
  unfold compare?
  rw [if_neg (not_not.mpr hshape), if_neg (not_not.mpr hshape.symm), hsize, herrors]

theorem exists_ensureWithin?_iff {tolerance : Binary64} {comparison : Comparison}
    (h : compare? x y tolerance = .ok comparison) :
    (∃ accepted, ensureWithin? x y tolerance = .ok accepted) ↔ comparison.passed = true := by
  unfold ensureWithin?
  rw [h, ok_bind]
  split_ifs with hpassed
  · exact ⟨fun _ => hpassed, fun _ => ⟨comparison, rfl⟩⟩
  · constructor
    · rintro ⟨accepted, haccepted⟩
      cases haccepted
    · exact fun haccepted => absurd haccepted hpassed

theorem passed_iff_differences {comparison : Comparison} {ps qs : List ℚ}
    (hlength : ps.length = qs.length) (h : comparison.mismatches = differences ps qs) :
    comparison.passed = true ↔ ps = qs := by
  unfold Comparison.passed
  rw [beq_iff_eq, h, differences_eq_zero_iff hlength]

/-- **What a comparison without tolerance says.**  Let two tensors have the same shape, with integers
of any types or with finite real numbers.  Then the comparison exists, it is the same with the tensors
swapped, and `ensureWithin?` accepts if it is passed.  It counts the positions at which the nearest
doubles of the elements differ, so it is passed exactly if there are none.  If all elements are
doubles, it counts the positions at which the elements differ, and is passed exactly if the elements
are equal. -/
theorem compare?_exact (hx : x.elements.AllFinite) (hy : y.elements.AllFinite)
    (hshape : x.shape = y.shape) :
    ∃ comparison, compare? x y (zero false) = .ok comparison ∧
      compare? y x (zero false) = .ok comparison ∧
      ((∃ accepted, ensureWithin? x y (zero false) = .ok accepted) ↔ comparison.passed = true) ∧
      comparison.mismatches
        = differences (x.toRats.map nearestDouble) (y.toRats.map nearestDouble) ∧
      (comparison.passed = true ↔ x.toRats.map nearestDouble = y.toRats.map nearestDouble) ∧
      ((∀ q ∈ x.toRats ++ y.toRats, IsMagnitude |q|) →
        comparison.mismatches = differences x.toRats y.toRats ∧
          (comparison.passed = true ↔ x.toRats = y.toRats)) := by
  obtain ⟨comparison, hcompare, hcount⟩ := exists_compare? hshape (zero false)
  rw [countP_distances hx hy] at hcount
  have hlength : x.toRats.length = y.toRats.length := by
    rw [length_toRats, length_toRats, hshape]
  refine ⟨comparison, hcompare, (compare?_comm hshape _).symm.trans hcompare,
    exists_ensureWithin?_iff hcompare, hcount, passed_iff_differences (by simpa using hlength) hcount,
    fun hdoubles => ?_⟩
  have hsame : ∀ qs : List ℚ, (∀ q ∈ qs, IsMagnitude |q|) → qs.map nearestDouble = qs :=
    fun qs h => (List.map_congr_left fun q hq => nearestDouble_eq (h q hq)).trans (List.map_id qs)
  rw [hsame _ fun q hq => hdoubles q (List.mem_append_left _ hq),
    hsame _ fun q hq => hdoubles q (List.mem_append_right _ hq)] at hcount
  exact ⟨hcount, passed_iff_differences hlength hcount⟩

/-- The least positive double, and the first integer from which on not every integer is a double. -/
def extremes : Tensor :=
  ⟨[2], .reals #[ofRat (2 ^ (-1074 : ℤ)), ofInt (twoPow 53)], by decide +kernel, by decide +kernel⟩

/-- Zero and the same integer, stored as integers. -/
def extremeInts : Tensor :=
  ⟨[2], .ints .i64 #[0, twoPow 53], by decide +kernel, by decide +kernel⟩

/-- Real numbers against integers: the least difference there is counts, and the large numbers are
equal. -/
theorem compare?_exact_extremes :
    (extremes.elements.AllFinite ∧ extremeInts.elements.AllFinite ∧
        extremes.shape = extremeInts.shape) ∧
      (∀ q ∈ extremes.toRats ++ extremeInts.toRats, IsMagnitude |q|) ∧
      ∃ comparison, compare? extremes extremeInts (zero false) = .ok comparison ∧
        comparison.mismatches = 1 ∧ comparison.passed = false := by
  have hfinite : extremes.elements.AllFinite := by decide +kernel
  obtain ⟨comparison, hcompare, -, -, -, -, hexact⟩ :=
    compare?_exact (x := extremes) (y := extremeInts) hfinite trivial rfl
  have hvalues : extremes.toRats ++ extremeInts.toRats
      = [(2 : ℚ) ^ (-1074 : ℤ), ((twoPow 53 : ℕ) : ℚ), 0, ((twoPow 53 : ℕ) : ℚ)] := by
    decide +kernel
  have hdoubles : ∀ q ∈ extremes.toRats ++ extremeInts.toRats, IsMagnitude |q| := by
    rw [hvalues]
    have hlarge : IsMagnitude |((twoPow 53 : ℕ) : ℚ)| := by
      rw [Nat.abs_cast]
      exact isMagnitude_natCast le_rfl
    have hleast : IsMagnitude |(2 : ℚ) ^ (-1074 : ℤ)| := by
      rw [abs_of_pos (zpow_two_pos _)]
      exact isMagnitude_zpow (by decide) (by decide)
    simp only [List.forall_mem_cons, List.not_mem_nil, false_implies, implies_true, and_true]
    exact ⟨hleast, hlarge, by simpa using isMagnitude_zero, hlarge⟩
  obtain ⟨hcount, -⟩ := hexact hdoubles
  have hone : comparison.mismatches = 1 := hcount.trans (by decide +kernel)
  refine ⟨⟨hfinite, trivial, rfl⟩, hdoubles, comparison, hcompare, hone, ?_⟩
  unfold Comparison.passed
  rw [hone]
  rfl

/-- **Different integers can pass for equal**: the first one that is not a double, and its nearest
double. -/
theorem compare?_ne_exact :
    ∃ x y : Tensor, x.shape = [1] ∧ y.shape = [1] ∧
      x.elements = .ints .i64 #[9007199254740993] ∧ y.elements = .ints .i64 #[9007199254740992] ∧
      differences x.toRats y.toRats = 1 ∧
      compare? x y (zero false) = .ok ⟨1, 0, zero false, zero false, zero false⟩ ∧
      ensureWithin? x y (zero false) = .ok ⟨1, 0, zero false, zero false, zero false⟩ := by
  refine ⟨⟨[1], .ints .i64 #[9007199254740993], by decide +kernel, by decide +kernel⟩,
    ⟨[1], .ints .i64 #[9007199254740992], by decide +kernel, by decide +kernel⟩, rfl, rfl, rfl, rfl,
    ?_, ?_, ?_⟩
  · decide +kernel
  · decide +kernel
  · decide +kernel

end Eval

end DyadicNet
