import Mathlib
import DyadicNet.Proofs.Binary64.Zero
import DyadicNet.Proofs.Except
import DyadicNet.Tensor.Basic

/-!
# Building and comparing tensors

What the functions that build a tensor from numbers check and give, and for which tensors equality
of values is equality.  Numbers that are equal by value are the same but for zeros of either sign,
so tensors of integers, and of real numbers without a zero, have no second form.

## Main Definitions

* `Tensor.oneReal`, `Tensor.zeroPoint` — tensors of one element;
* `Elements.NaNFree` — elements that are numbers;
* `Tensor.Rigid` — a tensor that is the only one with its values.

## Main Statements

* `Tensor.ofReals?_eq_ok_iff`, `Tensor.ofInts?_eq_ok_iff` — tensors from numbers;
* `Tensor.sameValues_self` — a tensor of numbers has its own values;
* `Tensor.rigid_of_ints`, `Tensor.rigid_of_reals` — tensors with one form.
-/

namespace DyadicNet

theorem IntType.one_le_bits (type : IntType) : 1 ≤ type.bits := by
  cases type <;> decide

/-- Every integer type has zero. -/
theorem IntType.holds_zero (type : IntType) : type.holds 0 = true := by
  cases type <;> decide +kernel

theorem IntType.fits64_of_holds {type : IntType} {v : ℤ} (h : type.holds v = true) : Fits64 v := by
  have hrange := of_decide_eq_true h
  have hleast : signedMin 64 ≤ type.least := by cases type <;> decide
  have hgreatest : type.greatest ≤ signedMax 64 := by cases type <;> decide
  exact ⟨hleast.trans hrange.1, hrange.2.trans hgreatest⟩

/-- All elements are numbers. -/
def Elements.NaNFree : Elements → Prop
  | .reals values => ∀ v ∈ values, v.isNaN = false
  | .ints _ _ => True

instance : DecidablePred Elements.NaNFree
  | .reals values => inferInstanceAs (Decidable (∀ v ∈ values, v.isNaN = false))
  | .ints _ _ => inferInstanceAs (Decidable True)

namespace Tensor

variable {shape : List ℕ} {tensor : Tensor}

/-- A tensor is its shape and its elements. -/
theorem ext_elements {x y : Tensor} (hshape : x.shape = y.shape)
    (helements : x.elements = y.elements) : x = y := by
  cases x
  cases y
  cases hshape
  cases helements
  rfl

theorem ofReals?_eq_ok_iff {values : Array Binary64} :
    ofReals? shape values = .ok tensor ↔
      values.size = elementCount shape ∧
        tensor.shape = shape ∧ tensor.elements = .reals values := by
  unfold ofReals?
  split_ifs with hsize
  · rw [Except.ok.injEq]
    constructor
    · rintro rfl
      exact ⟨hsize, rfl, rfl⟩
    · rintro ⟨-, hshape, helements⟩
      exact ext_elements hshape.symm helements.symm
  · constructor
    · intro herror
      cases herror
    · rintro ⟨hcount, -⟩
      exact absurd hcount hsize

theorem ofInts?_eq_ok_iff {type : IntType} {values : Array ℤ} :
    ofInts? shape (.int type) values = .ok tensor ↔
      (values.size = elementCount shape ∧ values.all type.holds = true) ∧
        tensor.shape = shape ∧ tensor.elements = .ints type values := by
  unfold ofInts?
  split_ifs with hsize
  · dsimp only
    split_ifs with hrange
    · rw [Except.ok.injEq]
      constructor
      · rintro rfl
        exact ⟨⟨hsize, hrange⟩, rfl, rfl⟩
      · rintro ⟨-, hshape, helements⟩
        exact ext_elements hshape.symm helements.symm
    · constructor
      · intro herror
        cases herror
      · rintro ⟨⟨-, hall⟩, -⟩
        exact absurd hall hrange
  · constructor
    · intro herror
      cases herror
    · rintro ⟨⟨hcount, -⟩, -⟩
      exact absurd hcount hsize

theorem ints?_eq_some_iff {values : Array ℤ} :
    tensor.ints? = some values ↔ ∃ type, tensor.elements = .ints type values := by
  unfold ints?
  cases tensor.elements with
  | reals reals => exact ⟨nofun, nofun⟩
  | ints type ints => simp

/-- A tensor has as many integers as its shape asks for. -/
theorem size_of_ints {type : IntType} {values : Array ℤ}
    (h : tensor.elements = .ints type values) : values.size = elementCount tensor.shape := by
  have hsize := tensor.size_eq
  rwa [h] at hsize

theorem size_toReals (tensor : Tensor) : tensor.toReals.size = elementCount tensor.shape := by
  have hsize := tensor.size_eq
  unfold toReals
  cases helements : tensor.elements with
  | reals values => rwa [helements] at hsize
  | ints type values =>
    rw [helements] at hsize
    exact Array.size_map.trans hsize

/-- The constant zero of an integer type. -/
theorem scalar?_of_zero {type : IntType} (h : tensor.elements = .ints type #[0]) :
    tensor.scalar? = some (.zero false) := by
  have hzero : Binary64.ofInt 0 = .zero false := by decide +kernel
  unfold scalar? size toReals
  rw [h]
  simp [Elements.size, hzero]

/-- The integers of a tensor are values of its type. -/
theorem all_holds_of_ints {type : IntType} {values : Array ℤ}
    (h : tensor.elements = .ints type values) : values.all type.holds = true := by
  have hrange := tensor.inRange
  rwa [h] at hrange

theorem holds_of_mem_ints {type : IntType} {values : Array ℤ}
    (h : tensor.elements = .ints type values) {v : ℤ} (hv : v ∈ values) : type.holds v = true :=
  Array.all_eq_true_iff_forall_mem.mp (all_holds_of_ints h) v hv

/-! ### Tensors of one element -/

theorem size_oneReal (axes : ℕ) (value : Binary64) :
    (Elements.reals #[value]).size = elementCount (List.replicate axes 1) := by
  have hproduct : ∀ n : ℕ, (List.replicate n 1).foldl (· * ·) 1 = 1 := by
    intro n
    induction n with
    | zero => rfl
    | succ n ih => exact ih
  unfold elementCount
  rw [hproduct]
  rfl

theorem inRange_oneReal (value : Binary64) : (Elements.reals #[value]).inRange = true := rfl

/-- One real number, in the given number of axes. -/
def oneReal (axes : ℕ) (value : Binary64) : Tensor :=
  ⟨List.replicate axes 1, .reals #[value], size_oneReal axes value, inRange_oneReal value⟩

theorem size_zeroPoint : (Elements.ints .i16 #[0]).size = elementCount [] := by decide

theorem inRange_zeroPoint : (Elements.ints .i16 #[0]).inRange = true := by decide +kernel

/-- The zero point of 16-bit numbers. -/
def zeroPoint : Tensor :=
  ⟨[], .ints .i16 #[0], size_zeroPoint, inRange_zeroPoint⟩

/-! ### Equality of values -/

/-- Whatever has the values of the tensor is the tensor. -/
def Rigid (tensor : Tensor) : Prop :=
  ∀ other : Tensor, other.sameValues tensor = true → other = tensor

theorem rigid_of_ints {type : IntType} {values : Array ℤ} (h : tensor.elements = .ints type values) :
    tensor.Rigid := by
  intro other hsame
  unfold sameValues at hsame
  obtain ⟨hshape, hvalues⟩ := Bool.and_eq_true_iff.mp hsame
  rw [h] at hvalues
  cases helements : other.elements with
  | reals xs =>
    rw [helements] at hvalues
    cases hvalues
  | ints s xs =>
    rw [helements] at hvalues
    obtain ⟨htype, heq⟩ := Bool.and_eq_true_iff.mp hvalues
    refine ext_elements (eq_of_beq hshape) ?_
    rw [h, helements, eq_of_beq htype, eq_of_beq heq]

theorem rigid_of_reals {values : Array Binary64} (h : tensor.elements = .reals values)
    (hvalues : ∀ x ∈ values, ¬x.IsZero) : tensor.Rigid := by
  intro other hsame
  unfold sameValues at hsame
  obtain ⟨hshape, hequal⟩ := Bool.and_eq_true_iff.mp hsame
  refine ext_elements (eq_of_beq hshape) ?_
  rw [h] at hequal ⊢
  cases helements : other.elements with
  | ints s xs =>
    rw [helements] at hequal
    cases hequal
  | reals xs =>
    rw [helements] at hequal
    obtain ⟨hsize, hall⟩ := Bool.and_eq_true_iff.mp hequal
    refine congrArg Elements.reals (Array.ext (eq_of_beq hsize) fun i hi hi' => ?_)
    refine Binary64.eq_of_eq_of_not_isZero (hvalues _ (Array.getElem_mem hi')) ?_
    have hpair : i < (xs.zip values).size := by simpa using ⟨hi, hi'⟩
    simpa using Array.all_eq_true.mp hall i hpair

theorem rigid_scalarReal {scale : Binary64} {q : ℚ} (h : scale.Denotes false q) (hpos : 0 < q) :
    (scalarReal scale).Rigid := by
  refine rigid_of_reals rfl fun x hx hzero => ?_
  obtain rfl : x = scale := by simpa using hx
  rw [Binary64.IsZero, h.eq_iff (Binary64.denotes_zero false), h.toRat_pos,
    (Binary64.denotes_zero false).toRat_pos] at hzero
  exact hpos.ne' hzero

theorem sameValues_self (h : tensor.elements.NaNFree) : tensor.sameValues tensor = true := by
  unfold sameValues
  rw [Bool.and_eq_true_iff]
  refine ⟨beq_self_eq_true _, ?_⟩
  cases helements : tensor.elements with
  | ints type values => simp
  | reals values =>
    rw [helements] at h
    have hvalues : ∀ x ∈ values, x.isNaN = false := h
    refine Bool.and_eq_true_iff.mpr ⟨beq_self_eq_true _, Array.all_eq_true.mpr fun i hi => ?_⟩
    have hvalue : i < values.size := by simpa using hi
    simpa using Binary64.eq_self (hvalues _ (Array.getElem_mem hvalue))

end Tensor

end DyadicNet
