import Mathlib
import DyadicNet.Proofs.Shift
import DyadicNet.Proofs.Eval.Handover

/-!
# Leaky rectifiers of integers

A leaky rectifier multiplies a negative integer by its slope, a double, and rounds the product half
to even.  **If the slope is a power of two below one, this is a shift to the right**, which needs no
multiplier: the product of an integer of 53 bits with the slope is exact, however small it is, and
minus zero is converted to the same integer as zero.

Whatever the slope between zero and one, the result lies between the integer and zero, so it has the
type of the integer.

## Main Definitions

* `shiftSlope`, `shiftNegative` — a power of two as a slope, and the shift;
* `IsSlope` — doubles between zero and one;
* `LeakyRectifier` — a node and its slope.

## Main Statements

* `leakyRectifyInt_eq_shift` — the shift;
* `holds_leakyRectifyInt` — the type is kept;
* `leakyRectify_shift` — arrays of integers, and nodes.
-/

namespace DyadicNet.Eval

open Binary64

variable {slope : Binary64} {shift v : ℤ}

/-! ### One integer -/

/-- The power of two that a shift to the right divides by, as a slope. -/
def shiftSlope (shift : ℤ) : Binary64 :=
  ofRat (2 ^ (-shift))

/-- A negative integer shifted to the right and rounded half to even. -/
def shiftNegative (shift v : ℤ) : ℤ :=
  if 0 ≤ v then v else shiftHalfEven v shift

theorem leakyRectifyInt_of_nonneg (slope : Binary64) (h : 0 ≤ v) : leakyRectifyInt slope v = v :=
  if_neg (not_lt.mpr h)

/-- A negative integer becomes the rounded value of its product. -/
theorem leakyRectifyInt_of_neg (h : v < 0) (hfinite : (ofInt v * slope).isFinite = true) :
    leakyRectifyInt slope v = saturate64 (roundHalfEven (ofInt v * slope).toRat) := by
  unfold leakyRectifyInt
  rw [if_pos h, toInt64, toInt_roundEven hfinite]
  rfl

/-- The product of an integer of 53 bits with a power of two below one is exact. -/
theorem denotes_ofInt_mul_slope (hslope : slope.Denotes false (2 ^ (-shift))) (hpos : 1 ≤ shift)
    (hv : v.natAbs ≤ twoPow 53) :
    (ofInt v * slope).Denotes (decide (v < 0)) (|(v : ℚ)| * 2 ^ (-shift)) := by
  have hmagnitude : IsMagnitude (|(v : ℚ)| * 2 ^ (-shift)) := by
    rw [abs_cast_eq]
    exact (isMagnitude_natCast hv).natCast_mul_zpow hslope.exponent_bounds.1 (by omega)
  simpa using (denotes_ofInt hv).mul hslope hmagnitude

/-- **A power of two as the slope is a shift.** -/
theorem leakyRectifyInt_eq_shift (hslope : slope.Denotes false (2 ^ (-shift))) (hpos : 1 ≤ shift)
    (hv : v.natAbs ≤ twoPow 53) :
    leakyRectifyInt slope v = shiftNegative shift v := by
  unfold shiftNegative
  split_ifs with hsign
  · exact leakyRectifyInt_of_nonneg slope hsign
  have hproduct := denotes_ofInt_mul_slope hslope hpos hv
  have h53 : twoPow 53 ≤ twoPow 62 := by decide
  rw [leakyRectifyInt_of_neg (not_le.mp hsign) hproduct.isFinite, hproduct.toRat_of_sign, zpow_neg,
    ← div_eq_mul_inv]
  exact ((shiftHalfEven_eq_iff (fits64_of_natAbs_le hv)).mpr fun _ => hv.trans h53).symm

/-! ### Slopes between zero and one -/

/-- A double from zero to one. -/
structure IsSlope (slope : Binary64) : Prop where
  isFinite : slope.isFinite = true
  nonneg : 0 ≤ slope.toRat
  le_one : slope.toRat ≤ 1

/-- The product of a negative integer of 53 bits with a slope is not beyond the integer. -/
theorem IsSlope.product_bounds (h : IsSlope slope) (hv : v.natAbs ≤ twoPow 53) (hneg : v < 0) :
    (ofInt v * slope).isFinite = true ∧ v ≤ (ofInt v * slope).toRat ∧
      (ofInt v * slope).toRat ≤ 0 := by
  have hint := denotes_ofInt hv
  have hslope := denotes_self h.isFinite
  have habs : |(v : ℚ)| = -v := abs_of_neg (by exact_mod_cast hneg)
  have hpos : (0 : ℚ) < |(v : ℚ)| := abs_pos.mpr (by exact_mod_cast hneg.ne)
  rw [decide_eq_true hneg] at hint
  rw [hint.mul_eq_ofMagnitude hslope]
  rcases hslope.nonneg.eq_or_lt with hzero | hmagnitude
  · -- zero may have either sign
    have hproduct := denotes_ofMagnitude (true != slope.isNegative) isMagnitude_zero
    rw [← hzero, mul_zero]
    refine ⟨hproduct.isFinite, ?_, ?_⟩
    · rw [hproduct.toRat_eq, neg_zero, ite_self]
      exact_mod_cast hneg.le
    · rw [hproduct.toRat_eq, neg_zero, ite_self]
  · have hsign : slope.isNegative = false := by
      rw [← Bool.not_eq_true]
      intro hnegative
      have hvalue := h.nonneg
      rw [hslope.toRat_eq, if_pos hnegative] at hvalue
      linarith
    have hone : slope.magnitude ≤ 1 := by
      have hvalue := h.le_one
      rwa [hslope.toRat_eq, if_neg (Bool.eq_false_iff.mp hsign)] at hvalue
    obtain ⟨r, hr, hproduct⟩ := exists_denotes_ofMagnitude (true != slope.isNegative)
      hint.isMagnitude (mul_nonneg hpos.le hmagnitude.le) (mul_le_of_le_one_right hpos.le hone)
    have hvalue : (ofMagnitude (true != slope.isNegative) (|(v : ℚ)| * slope.magnitude)).toRat = -r :=
      hproduct.toRat_eq.trans (if_pos (by rw [hsign]; rfl))
    rw [hvalue]
    exact ⟨hproduct.isFinite, by linarith, by linarith [hproduct.nonneg]⟩

/-- A negative integer is raised, but not beyond zero. -/
theorem IsSlope.leakyRectifyInt_mem (h : IsSlope slope) (hv : v.natAbs ≤ twoPow 53) (hneg : v < 0) :
    v ≤ leakyRectifyInt slope v ∧ leakyRectifyInt slope v ≤ 0 := by
  obtain ⟨hfinite, hlow, hhigh⟩ := h.product_bounds hv hneg
  have hbelow : v ≤ roundHalfEven (ofInt v * slope).toRat := le_roundHalfEven hlow
  have habove : roundHalfEven (ofInt v * slope).toRat ≤ 0 :=
    roundHalfEven_le (hhigh.trans_eq Int.cast_zero.symm)
  have hfits := fits64_of_natAbs_le hv
  have hrounded : Fits64 (roundHalfEven (ofInt v * slope).toRat) :=
    ⟨hfits.1.trans hbelow, habove.trans (by decide)⟩
  rw [leakyRectifyInt_of_neg hneg hfinite, hrounded.saturate64_eq]
  exact ⟨hbelow, habove⟩

/-- The types but the widest one have only integers of 53 bits. -/
theorem natAbs_le_of_holds {type : IntType} (hnarrow : type ≠ .i64) (hv : type.holds v = true) :
    v.natAbs ≤ twoPow 53 := by
  have hbits : type.bits ≤ 32 := by cases type <;> first | contradiction | decide
  have hrange := of_decide_eq_true hv
  exact (natAbs_lt_of_mem hbits hrange.1 hrange.2).le

/-- **A leaky rectifier keeps the type of an integer.** -/
theorem holds_leakyRectifyInt (h : IsSlope slope) {type : IntType} (hv : type.holds v = true) :
    type.holds (leakyRectifyInt slope v) = true := by
  rcases le_or_gt 0 v with hsign | hneg
  · rwa [leakyRectifyInt_of_nonneg slope hsign]
  by_cases hwide : type = .i64
  · -- the conversion keeps it in the widest type, even if doubles do not hold the integer
    subst hwide
    unfold leakyRectifyInt
    rw [if_pos hneg]
    exact decide_eq_true (fits64_toInt64 _)
  · obtain ⟨hlow, hhigh⟩ := h.leakyRectifyInt_mem (natAbs_le_of_holds hwide hv) hneg
    have hzero : 0 ≤ type.greatest := by cases type <;> decide
    exact decide_eq_true ⟨(of_decide_eq_true hv).1.trans hlow, hhigh.trans hzero⟩

/-! ### Nodes -/

/-- A leaky rectifier of a graph and its slope, which an attribute gives, or else the
configuration. -/
structure LeakyRectifier (interpreter : Interpreter) (node : Node) (slope : Binary64) : Prop where
  operator : node.operator = .leakyRelu
  slope : ∃ given, node.real? "alpha" = .ok given ∧
    given.getD interpreter.config.leakyReluSlope = slope

variable {interpreter : Interpreter} {environment : Environment} {node : Node}

/-- The value of a leaky rectifier for a tensor. -/
theorem LeakyRectifier.evalNode_eq {x : Tensor} (h : LeakyRectifier interpreter node slope)
    (hx : interpreter.value environment node 0 = .ok x) :
    interpreter.evalNode environment node
      = (fun y => (y, environment.leakyFormat)) <$>
        elementwise (leakyRectify slope environment.leakyFormat) (leakyRectifyInt slope) x := by
  obtain ⟨given, hgiven, rfl⟩ := h.slope
  unfold Interpreter.evalNode
  rw [h.operator]
  dsimp only
  rw [hgiven, hx]
  rfl

/-- The value of an operator that works on each integer on its own and keeps their type. -/
theorem exists_elementwise {x : Tensor} {type : IntType} {values : Array ℤ}
    (onReal : Binary64 → Binary64) {onInt : ℤ → ℤ} (hx : x.elements = .ints type values)
    (hkeeps : ∀ v, type.holds v = true → type.holds (onInt v) = true) :
    ∃ y, elementwise onReal onInt x = .ok y ∧ y.shape = x.shape ∧
      y.elements = .ints type (values.map onInt) := by
  have hholds : (values.map onInt).all type.holds = true := by
    rw [Array.all_map, Array.all_eq_true_iff_forall_mem]
    exact fun v hv => hkeeps v (Tensor.holds_of_mem_ints hx hv)
  unfold elementwise
  rw [hx]
  exact exists_intTensor (Array.size_map.trans (Tensor.size_of_ints hx)) hholds

/-- **A leaky rectifier of integers is a shift**, if its slope is a power of two from one half down
to the smallest double.  Each integer of 53 bits becomes itself or, if it is negative, is shifted to
the right and rounded half to even.  A node does so with every tensor of a type other than the
widest one, and keeps its shape and type. -/
theorem leakyRectify_shift (hpos : 1 ≤ shift) (hle : shift ≤ 1074) :
    (shiftSlope shift).toRat = 2 ^ (-shift) ∧
      (∀ values : Array ℤ, (∀ v ∈ values, v.natAbs ≤ twoPow 53) →
        values.map (leakyRectifyInt (shiftSlope shift)) = values.map (shiftNegative shift)) ∧
      ∀ interpreter node environment x type values,
        LeakyRectifier interpreter node (shiftSlope shift) →
        interpreter.value environment node 0 = .ok x → x.elements = .ints type values →
        type ≠ .i64 →
        ∃ y, interpreter.evalNode environment node = .ok (y, environment.leakyFormat) ∧
          y.shape = x.shape ∧ y.elements = .ints type (values.map (shiftNegative shift)) := by
  have hslope : (shiftSlope shift).Denotes false (2 ^ (-shift)) :=
    denotes_ofRat_zpow (by omega) (by omega)
  have hvalues : ∀ values : Array ℤ, (∀ v ∈ values, v.natAbs ≤ twoPow 53) →
      values.map (leakyRectifyInt (shiftSlope shift)) = values.map (shiftNegative shift) :=
    fun values hshort =>
      Array.map_congr_left fun v hv => leakyRectifyInt_eq_shift hslope hpos (hshort v hv)
  refine ⟨hslope.toRat_pos, hvalues, ?_⟩
  intro interpreter node environment x type values hnode hx helements hnarrow
  have hone : IsSlope (shiftSlope shift) :=
    { isFinite := hslope.isFinite
      nonneg := by
        rw [hslope.toRat_pos]
        exact (zpow_two_pos _).le
      le_one := by
        rw [hslope.toRat_pos]
        exact zpow_le_one_of_nonpos₀ one_le_two (by omega) }
  obtain ⟨y, hy, hshape, hints⟩ :=
    exists_elementwise (leakyRectify (shiftSlope shift) environment.leakyFormat) helements
      fun v hv => holds_leakyRectifyInt hone hv
  have hshort : ∀ v ∈ values, v.natAbs ≤ twoPow 53 := fun v hv =>
    natAbs_le_of_holds hnarrow (Tensor.holds_of_mem_ints helements hv)
  refine ⟨y, ?_, hshape, hints.trans (congrArg _ (hvalues values hshort))⟩
  rw [hnode.evalNode_eq hx, hy]
  rfl

/-! ### One node -/

/-- A leaky rectifier with a slope of one quarter. -/
def quarterNode : Node :=
  { operator := .leakyRelu
    name := "leaky"
    inputs := ["x"]
    outputs := ["y"]
    attributes := .ofList [("alpha", .real (shiftSlope 2))] }

/-- Two ties, another negative byte, a positive one and the least one. -/
def signedBytes : Tensor :=
  ⟨[5], .ints .i8 #[-2, -6, -3, 5, -128], by decide, by decide +kernel⟩

/-- Half a unit below zero is rounded to minus zero, which is the integer zero, and one and a half
units to the even neighbour.  The greatest odd integer of 53 bits is a quarter above an integer. -/
theorem leakyRectify_shift_quarter :
    let interpreter : Interpreter := ⟨.empty "quarter", {}⟩
    let environment : Environment := ⟨[("x", signedBytes)], none⟩
    let odd : Array ℤ := #[-(twoPow 53 - 1)]
    (1 : ℤ) ≤ 2 ∧ (2 : ℤ) ≤ 1074 ∧ (∀ v ∈ odd, v.natAbs ≤ twoPow 53) ∧
      odd.map (leakyRectifyInt (shiftSlope 2)) = #[-2251799813685248] ∧
      LeakyRectifier interpreter quarterNode (shiftSlope 2) ∧
      interpreter.value environment quarterNode 0 = .ok signedBytes ∧
      ∃ y, interpreter.evalNode environment quarterNode = .ok (y, none) ∧ y.shape = [5] ∧
        y.elements = .ints .i8 #[0, -2, -1, 5, -32] := by
  intro interpreter environment odd
  have hodd : ∀ v ∈ odd, v.natAbs ≤ twoPow 53 := by decide +kernel
  have hnode : LeakyRectifier interpreter quarterNode (shiftSlope 2) :=
    ⟨rfl, some (shiftSlope 2), by decide +kernel, rfl⟩
  have hx : interpreter.value environment quarterNode 0 = .ok signedBytes := by decide +kernel
  obtain ⟨-, hvalues, hnodes⟩ :=
    leakyRectify_shift (by decide : (1 : ℤ) ≤ 2) (by decide)
  obtain ⟨y, hy, hshape, helements⟩ :=
    hnodes interpreter quarterNode environment signedBytes .i8 _ hnode hx rfl (by decide)
  have hbytes : (#[-2, -6, -3, 5, -128] : Array ℤ).map (shiftNegative 2) = #[0, -2, -1, 5, -32] := by
    decide +kernel
  refine ⟨by decide, by decide, hodd, ?_, hnode, hx, y, hy, hshape,
    helements.trans (congrArg _ hbytes)⟩
  rw [hvalues odd hodd]
  decide +kernel

end DyadicNet.Eval
