import Mathlib
import DyadicNet.Proofs.Eval.Quantizing

/-!
# Integers that pass through real numbers

Between two quantized convolutions stand two nodes, one that turns integers into real numbers and
one that turns them back.  Under one scale they do nothing: the product of a short integer with a
power of two is a double, the quotient by the same power is the integer again, and an integer that
has the width of an activation is not clamped.  **This holds down to the smallest scale**, where the
product has fewer bits than the integer could have elsewhere.

## Main Definitions

* `Expressible` — tensors whose integers have products that are doubles;
* `Interpreter.Paired` — a dequantizer and a quantizer under one scale.

## Main Statements

* `quantizeValue_mul` — one integer there and back;
* `quantizeTensor_dequantizeTensor` — a tensor there and back;
* `Interpreter.Paired.quantize_dequantize` — through two nodes of a graph.
-/

namespace DyadicNet.Eval

open Binary64

/-! ### One integer -/

section Value

variable {scale : Binary64} {exponent : ℤ} {bits : ℕ} {v : ℤ}

/-- An integer of at most 32 bits is a short one. -/
theorem natAbs_lt_of_mem {n : ℕ} (hbits : n ≤ 32) (hlow : signedMin n ≤ v)
    (hhigh : v ≤ signedMax n) : v.natAbs < twoPow 53 := by
  have hmin : signedMin 32 ≤ v := (signedMin_le_signedMin hbits).trans hlow
  have hmax : v ≤ signedMax 32 := hhigh.trans (signedMax_le_signedMax hbits)
  have h32 : signedMin 32 = -2147483648 ∧ signedMax 32 = 2147483647 := by decide
  have h53 : twoPow 53 = 9007199254740992 := by decide
  omega

/-- The product of a short integer with a scale is exact. -/
theorem denotes_ofInt_mul (hscale : scale.Denotes false (2 ^ exponent)) (hv : v.natAbs < twoPow 53)
    (hfits : |(v : ℚ)| * 2 ^ exponent < 2 ^ (1024 : ℤ)) :
    (ofInt v * scale).Denotes (decide (v < 0)) (|(v : ℚ)| * 2 ^ exponent) := by
  have hmagnitude : IsMagnitude (|(v : ℚ)| * 2 ^ exponent) := by
    rw [abs_cast_eq] at hfits ⊢
    exact isMagnitude_mul_zpow hv hscale.exponent_bounds.1 hfits
  simpa using (denotes_ofInt hv.le).mul hscale hmagnitude

/-- **An integer is what its product with a scale is quantized to**, under the same scale. -/
theorem quantizeValue_mul {node : Node} (hscale : scale.Denotes false (2 ^ exponent))
    (hpos : 1 ≤ bits) (hbits : bits ≤ 32) (hlow : signedMin bits ≤ v) (hhigh : v ≤ signedMax bits)
    (hfits : |(v : ℚ)| * 2 ^ exponent < 2 ^ (1024 : ℤ)) :
    quantizeValue node scale bits (ofInt v * scale) = .ok v := by
  have hproduct := denotes_ofInt_mul hscale (natAbs_lt_of_mem hbits hlow hhigh) hfits
  rw [quantizeValue_eq_ok node hscale hpos (by omega) hproduct.isFinite, level,
    hproduct.toRat_of_sign, mul_div_cancel_right₀ _ (zpow_two_ne_zero exponent),
    roundHalfEven_intCast, clampInt_eq_self hlow hhigh]

end Value

/-! ### A tensor -/

section Tensor

variable {scale : Binary64} {exponent : ℤ} {bits : ℕ} {type : IntType} {x y : Tensor}
  {values : Array ℤ}

/-- The integers of a tensor have a width, and their products with a power of two are no larger than
doubles are. -/
structure Expressible (x : Tensor) (type : IntType) (bits : ℕ) (exponent : ℤ) : Prop where
  elements : ∃ values, x.elements = .ints type values ∧ ∀ v ∈ values,
    (signedMin bits ≤ v ∧ v ≤ signedMax bits) ∧ |(v : ℚ)| * 2 ^ exponent < 2 ^ (1024 : ℤ)

theorem Expressible.isInteger (h : Expressible x type bits exponent) : x.isInteger = true := by
  obtain ⟨values, helements, -⟩ := h.elements
  unfold Tensor.isInteger Tensor.dtype
  rw [helements]
  rfl

/-- What the integers of a tensor stand for can always be written down. -/
theorem exists_dequantizeTensor (node : Node) (scale : Binary64)
    (hx : x.elements = .ints type values) :
    ∃ y, dequantizeTensor node scale x = .ok y ∧ y.shape = x.shape ∧
      y.elements = .reals (values.map fun v => ofInt v * scale) := by
  have hsize : (values.map fun v => ofInt v * scale).size = elementCount x.shape := by
    rw [Array.size_map, Tensor.size_of_ints hx]
  unfold dequantizeTensor
  rw [integers_eq_ok_iff.mpr (Tensor.ints?_eq_some_iff.mpr ⟨type, hx⟩), ok_bind]
  exact exists_realTensor hsize

/-- **Integers are what the tensor they stand for is quantized to**, under the same scale. -/
theorem quantizeTensor_dequantizeTensor {m n : Node} (hscale : scale.Denotes false (2 ^ exponent))
    (hpos : 1 ≤ bits) (hbits : bits ≤ 32) (hx : Expressible x type bits exponent) :
    ∃ y, dequantizeTensor m scale x = .ok y ∧ quantizeTensor n scale type bits y = .ok x := by
  obtain ⟨values, helements, hvalues⟩ := hx.elements
  obtain ⟨y, hy, hshape, hreals⟩ := exists_dequantizeTensor m scale helements
  refine ⟨y, hy, ?_⟩
  have hback : y.toReals.toList.mapM (quantizeValue n scale bits) = .ok values.toList := by
    have htoReals : y.toReals = values.map fun v => ofInt v * scale := by
      unfold Tensor.toReals
      rw [hreals]
    rw [htoReals, Array.toList_map]
    refine mapM_map_eq_ok fun v hv => ?_
    obtain ⟨⟨hlow, hhigh⟩, hfits⟩ := hvalues v (Array.mem_toList_iff.mp hv)
    exact quantizeValue_mul hscale hpos hbits hlow hhigh hfits
  unfold quantizeTensor intTensor
  rw [hback, ok_bind, hshape, Array.toArray_toList]
  exact mapError_eq_ok_iff.mpr (Tensor.ofInts?_eq_ok_iff.mpr
    ⟨⟨Tensor.size_of_ints helements, Tensor.all_holds_of_ints helements⟩, rfl, helements⟩)

end Tensor

/-! ### Two nodes -/

namespace Interpreter

variable {I : Interpreter} {m n : Node} {params : Quantize.Params} {type : IntType} {x : Tensor}

/-- A node that turns integers into real numbers, and a node that turns real numbers into integers of
a type, under the same parameters. -/
structure Paired (interpreter : Interpreter) (dequantizer quantizer : Node)
    (params : Quantize.Params) (type : IntType) : Prop where
  known : interpreter.params dequantizer 1 2 = .ok params
  same : interpreter.params quantizer 1 2 = .ok params
  typed : ∃ bits, interpreter.quantizedType quantizer 2 = .ok (type, bits)

/-- **Two paired nodes do nothing** to a tensor of the type whose integers have the width of an
activation, as long as these stand for numbers that are not too large. -/
theorem Paired.quantize_dequantize (hconfig : I.config.Valid) (h : Paired I m n params type)
    (hx : Expressible x type (min I.config.activationBits type.bits) params.exponent) :
    ∃ y, I.dequantize m x = .ok y ∧ I.quantize n y = .ok x := by
  obtain ⟨bits, htype⟩ := h.typed
  obtain rfl := quantizedType_bits htype
  have hpos : 1 ≤ min I.config.activationBits type.bits :=
    le_min hconfig.activationBits_pos type.one_le_bits
  have hle : min I.config.activationBits type.bits ≤ 32 :=
    (Nat.min_le_left _ _).trans hconfig.activationBits_le
  obtain ⟨y, hdequantize, hquantize⟩ := quantizeTensor_dequantizeTensor (m := m) (n := n)
    (valid_params h.known).scale hpos hle hx
  refine ⟨y, ?_, ?_⟩
  · unfold dequantize
    rw [h.known]
    exact hdequantize
  · unfold quantize
    rw [h.same, htype]
    exact hquantize

end Interpreter

end DyadicNet.Eval
