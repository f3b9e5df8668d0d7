import Mathlib
import DyadicNet.Proofs.Eval.QuantizedNode
import DyadicNet.Proofs.FixedPoint.Encoding

/-!
# Two ways from real numbers to integers

A quantizer of a graph divides by its scale, rounds the quotient, converts it to 64 bits and clamps
it.  The encoder of a fixed-point format compares with the bounds first, multiplies, and assembles a
codeword.  Both give the **nearest level**: the exact quotient by a power of two, rounded half to
even and kept in the range of a width.

The quotient that the quantizer rounds is a double, and not always the exact one.  There are two
ways in which it can differ, and neither is seen in the result.  It can be infinite; then the exact
one is beyond all integers of 64 bits, and both are clamped to the same end.  And bits can fall off
below the smallest double; then both are far below one half, and rounded to zero.

## Main Definitions

* `level` — the nearest level of a number;
* `Quantizer` — a quantizer of a graph, with its scale and its type.

## Main Statements

* `quantizeValue_eq_ok` — the level that the quantizer computes;
* `toSigned_encode` — the level that the encoder computes;
* `Interpreter.quantizeLinear_exact` — the value of a quantizer in a graph.
-/

namespace DyadicNet.Eval

open Binary64

/-- The nearest level of a number: how many steps of `2 ^ exponent` it is away from zero, rounded
half to even, and kept in the range of a width. -/
def level (bits : ℕ) (exponent : ℤ) (v : Binary64) : ℤ :=
  clampInt (signedMin bits) (signedMax bits) (roundHalfEven (v.toRat / 2 ^ exponent))

section Value

variable {scale v : Binary64} {exponent lo hi : ℤ} {bits : ℕ}

/-! ### Quotients beyond all integers -/

/-- The double quotient is infinite exactly where the exact one is too large. -/
theorem div_eq_infinity (hscale : scale.Denotes false (2 ^ exponent)) (hv : v.isFinite = true)
    (hmax : 2 ^ (1024 : ℤ) ≤ v.magnitude / 2 ^ exponent) : v / scale = .infinity v.isNegative := by
  rw [(denotes_self hv).div_eq_ofMagnitude hscale (zpow_two_ne_zero exponent), Bool.bne_false,
    ofMagnitude_eq_infinity _ hmax]

/-- An infinite quotient becomes the end of the range on its side. -/
theorem clampInt_toInt64_infinity (hlh : lo ≤ hi) (hlo : signedMin 64 ≤ lo)
    (hhi : hi ≤ signedMax 64) (negative : Bool) :
    clampInt lo hi (infinity negative).roundEven.toInt64 = if negative then lo else hi := by
  cases negative with
  | true => exact clampInt_of_le hlo
  | false => exact clampInt_of_ge hlh hhi

/-- An exact quotient that is too large for a double becomes the same end. -/
theorem clampInt_roundHalfEven_of_large (hlh : lo ≤ hi) (hlo : signedMin 64 ≤ lo)
    (hhi : hi ≤ signedMax 64) (hv : v.isFinite = true)
    (hmax : 2 ^ (1024 : ℤ) ≤ v.magnitude / 2 ^ exponent) :
    clampInt lo hi (roundHalfEven (v.toRat / 2 ^ exponent))
      = if v.isNegative then lo else hi := by
  have hlarge : ((twoPow 63 : ℕ) : ℚ) ≤ v.magnitude / 2 ^ exponent := by
    refine le_trans ?_ hmax
    rw [cast_twoPow]
    exact zpow_le_zpow_right₀ one_le_two (by norm_num)
  have hmin64 : signedMin 64 = -twoPow 63 := rfl
  have hmax64 : signedMax 64 = twoPow 63 - 1 := rfl
  rw [(denotes_self hv).toRat_eq]
  cases v.isNegative with
  | true =>
    have hlow : roundHalfEven (-v.magnitude / 2 ^ exponent) ≤ -(twoPow 63 : ℤ) := by
      apply roundHalfEven_le
      push_cast
      rw [neg_div]
      exact neg_le_neg hlarge
    exact clampInt_of_le (hlow.trans (by omega))
  | false =>
    have hhigh : (twoPow 63 : ℤ) ≤ roundHalfEven (v.magnitude / 2 ^ exponent) :=
      le_roundHalfEven (by exact_mod_cast hlarge)
    exact clampInt_of_ge hlh ((show hi ≤ twoPow 63 by omega).trans hhigh)

/-! ### The quantizer -/

/-- **Quantizing a finite number gives its nearest level**, wherever the quotient of doubles is. -/
theorem quantizeValue_eq_ok (node : Node) (hscale : scale.Denotes false (2 ^ exponent))
    (hpos : 1 ≤ bits) (hle : bits ≤ 63) (hv : v.isFinite = true) :
    quantizeValue node scale bits v = .ok (level bits exponent v) := by
  have hlh := signedMin_le_signedMax bits
  have hlo : signedMin 64 ≤ signedMin bits := signedMin_le_signedMin (by omega)
  have hhi : signedMax bits ≤ signedMax 64 := signedMax_le_signedMax (by omega)
  have hclamp : clampInt (signedMin bits) (signedMax bits) (v / scale).roundEven.toInt64
      = level bits exponent v := by
    unfold level
    by_cases hmax : v.magnitude / 2 ^ exponent < 2 ^ (1024 : ℤ)
    · obtain ⟨hfinite, hround⟩ := (denotes_self hv).roundHalfEven_div hscale hmax
      rw [toInt64, toInt_roundEven hfinite, hround, clampInt_clampInt hlh hlo hhi]
    · rw [div_eq_infinity hscale hv (not_lt.mp hmax), clampInt_toInt64_infinity hlh hlo hhi,
        clampInt_roundHalfEven_of_large hlh hlo hhi hv (not_lt.mp hmax)]
  unfold quantizeValue
  rw [if_pos hv, saturate_eq hpos hle, hclamp]

/-- The levels of a width are integers of every type that is at least as wide. -/
theorem holds_level {type : IntType} (h : bits ≤ type.bits) (exponent : ℤ) (v : Binary64) :
    type.holds (level bits exponent v) = true := by
  have hlow : signedMin bits ≤ level bits exponent v := le_clampInt _ _ _
  have hhigh : level bits exponent v ≤ signedMax bits :=
    clampInt_le (signedMin_le_signedMax bits) _
  exact decide_eq_true
    ⟨(signedMin_le_signedMin h).trans hlow, hhigh.trans (signedMax_le_signedMax h)⟩

/-- **A tensor of finite numbers is quantized to their levels.** -/
theorem exists_quantizeTensor (node : Node) {type : IntType} {x : Tensor}
    (hscale : scale.Denotes false (2 ^ exponent)) (hpos : 1 ≤ bits) (hle : bits ≤ 63)
    (htype : bits ≤ type.bits) (hx : ∀ v ∈ x.toReals, v.isFinite = true) :
    ∃ y, quantizeTensor node scale type bits x = .ok y ∧ y.shape = x.shape ∧
      y.elements = .ints type (x.toReals.map (level bits exponent)) := by
  have hsize : (x.toReals.map (level bits exponent)).size = elementCount x.shape := by
    rw [Array.size_map, Tensor.size_toReals]
  have hrange : (x.toReals.map (level bits exponent)).all type.holds = true := by
    rw [Array.all_map]
    exact Array.all_eq_true_iff_forall_mem.mpr fun v _ => holds_level htype exponent v
  have hvalues : x.toReals.toList.mapM (quantizeValue node scale bits)
      = .ok (x.toReals.toList.map (level bits exponent)) :=
    mapM_eq_ok_map fun v hv =>
      quantizeValue_eq_ok node hscale hpos hle (hx v (Array.mem_toList_iff.mp hv))
  unfold quantizeTensor
  rw [hvalues, ok_bind, ← Array.toList_map, Array.toArray_toList]
  exact exists_intTensor hsize hrange

end Value

/-! ### The encoder -/

/-- **Encoding a finite number gives its nearest level** as well, for the step of the format. -/
theorem toSigned_encode {format : FixedPoint.Format} {v : Binary64} (hsigned : format.signed = true)
    (hv : v.isFinite = true) :
    FixedPoint.toSigned format <$> FixedPoint.encode format v
      = .ok (level format.totalBits (-format.fracBits) v) := by
  obtain ⟨code, hencode, hvalue⟩ := FixedPoint.exists_encode format (denotes_self hv).isNaN_eq
  rw [format.nearest_of_signed hsigned hv] at hvalue
  rw [hencode, level, zpow_neg, div_inv_eq_mul, ← hvalue]
  rfl

/-- The signed format of a width that has a given number of bits after the point. -/
theorem exists_signedFormat {bits fracBits : ℕ} (hfrac : fracBits < bits) (hbits : bits ≤ 32) :
    ∃ format : FixedPoint.Format,
      FixedPoint.Format.make? true (bits - fracBits) fracBits = .ok format ∧
        format.signed = true ∧ format.totalBits = bits ∧ format.fracBits = fracBits := by
  have hwidth : 0 < bits - fracBits + fracBits ∧
      bits - fracBits + fracBits ≤ FixedPoint.maxTotalBits := by
    unfold FixedPoint.maxTotalBits
    omega
  refine ⟨⟨bits - fracBits, fracBits, true, hwidth.1, hwidth.2, fun _ => by omega⟩, ?_, rfl,
    Nat.sub_add_cancel hfrac.le, rfl⟩
  unfold FixedPoint.Format.make?
  rw [dif_pos hwidth, dif_pos fun _ => by omega]

/-! ### Quantizers in a graph -/

/-- A quantizer of a graph: its scale is a constant with one element, its zero point the constant
zero of an integer type. -/
structure Quantizer (graph : Graph) (node : Node) (scale : Binary64) (type : IntType) : Prop where
  operator : node.operator = .quantizeLinear
  scale : ∃ name ∈ node.input? 1, ∃ tensor ∈ graph.initializers.get? name,
    tensor.scalar? = some scale
  zeroPoint : ∃ name ∈ node.input? 2, ∃ tensor ∈ graph.initializers.get? name,
    tensor.elements = .ints type #[0]

instance (graph : Graph) (node : Node) (scale : Binary64) (type : IntType) :
    Decidable (Quantizer graph node scale type) :=
  decidable_of_iff (_ ∧ _ ∧ _)
    ⟨fun ⟨operator, scale, zeroPoint⟩ => ⟨operator, scale, zeroPoint⟩,
      fun ⟨operator, scale, zeroPoint⟩ => ⟨operator, scale, zeroPoint⟩⟩

namespace Interpreter

variable {interpreter : Interpreter} {graph : Graph} {config : Config} {node : Node}
  {scale : Binary64} {exponent : ℤ} {type : IntType}

/-- The parameters that an interpreter finds in two constants with one element, of which the second is
a zero of either sign. -/
theorem params_of_scalars {i j : ℕ} (hscale : scale.Denotes false (2 ^ exponent))
    (hscalar : ∃ name ∈ node.input? i, ∃ tensor ∈ interpreter.graph.initializers.get? name,
      tensor.scalar? = some scale)
    (hzero : ∃ name ∈ node.input? j, ∃ tensor ∈ interpreter.graph.initializers.get? name,
      ∃ negative, tensor.scalar? = some (.zero negative)) :
    interpreter.params node i j = .ok ⟨scale, 0, exponent⟩ := by
  obtain ⟨scaleName, hscaleName, scaleTensor, hscaleTensor, hscalar⟩ := hscalar
  obtain ⟨zeroName, hzeroName, zeroTensor, hzeroTensor, negative, hzero⟩ := hzero
  refine params_eq_ok_iff.mpr ⟨scaleName, hscaleName, zeroName, hzeroName, ?_⟩
  rw [Quantize.Params.ofConstants?_eq_make? (Quantize.Params.scalar?_eq_ok hscaleTensor hscalar)
    (Quantize.Params.scalar?_eq_ok hzeroTensor hzero)]
  exact Quantize.Params.make?_eq_ok_iff.mpr ⟨⟨rfl, hscale⟩, rfl, rfl⟩

/-- The parameters that an interpreter finds for a quantizer are those of its scale. -/
theorem params_of_quantizer (hnode : Quantizer interpreter.graph node scale type)
    (hscale : scale.Denotes false (2 ^ exponent)) :
    interpreter.params node 1 2 = .ok ⟨scale, 0, exponent⟩ := by
  obtain ⟨name, hname, tensor, htensor, hzero⟩ := hnode.zeroPoint
  exact params_of_scalars hscale hnode.scale
    ⟨name, hname, tensor, htensor, false, Tensor.scalar?_of_zero hzero⟩

/-- The type of a quantizer is that of its zero point. -/
theorem quantizedType_of_quantizer (hnode : Quantizer interpreter.graph node scale type) :
    interpreter.quantizedType node 2
      = .ok (type, min interpreter.config.activationBits type.bits) := by
  obtain ⟨name, hname, tensor, htensor, helements⟩ := hnode.zeroPoint
  have hdtype : tensor.dtype = .int type := by
    unfold Tensor.dtype
    rw [helements]
    rfl
  unfold quantizedType
  rw [operand_eq_ok hname, ok_bind, constant_eq_ok htensor, ok_bind, hdtype]

/-- **Quantizing in a graph agrees with the encoder, in exact arithmetic.**  Let the scale of a
quantizer be a positive power of two, no matter how large or small as long as it is a double, and
the width the narrower one of that of an activation and that of the zero point.  A tensor of finite
numbers becomes the tensor of their nearest levels, even where a quotient is too large or too small
for a double.  If the scale is the weight of the last bit of a signed format of this width, then
every level is what the codeword of the number in this format stands for. -/
theorem quantizeLinear_exact {environment : Environment} {x : Tensor}
    (hmake : make? graph config = .ok interpreter) (hlow : -1074 ≤ exponent)
    (hhigh : exponent ≤ 1023) (hnode : Quantizer graph node (ofRat (2 ^ exponent)) type)
    (hx : interpreter.value environment node 0 = .ok x)
    (hfinite : ∀ v ∈ x.toReals, v.isFinite = true) :
    let bits := min config.activationBits type.bits
    ∃ y, interpreter.evalNode environment node = .ok (y, environment.leakyFormat) ∧
      y.shape = x.shape ∧
      y.elements = .ints type (x.toReals.map fun v =>
        clampInt (signedMin bits) (signedMax bits) (roundHalfEven (v.toRat / 2 ^ exponent))) ∧
      ∀ fracBits < bits, exponent = -fracBits →
        ∃ format, FixedPoint.Format.make? true (bits - fracBits) fracBits = .ok format ∧
          ∀ v ∈ x.toReals, FixedPoint.toSigned format <$> FixedPoint.encode format v
            = .ok (clampInt (signedMin bits) (signedMax bits)
                (roundHalfEven (v.toRat / 2 ^ exponent))) := by
  intro bits
  obtain ⟨hvalidate, -, rfl⟩ := make?_eq_ok_iff.mp hmake
  have hconfig : config.Valid := Config.valid_of_validate hvalidate
  have hpos : 1 ≤ bits := le_min hconfig.activationBits_pos type.one_le_bits
  have hle : bits ≤ 32 := (Nat.min_le_left _ _).trans hconfig.activationBits_le
  have hscale : (ofRat (2 ^ exponent)).Denotes false (2 ^ exponent) :=
    denotes_ofRat_zpow hlow hhigh
  obtain ⟨y, hy, hshape, helements⟩ := exists_quantizeTensor node hscale hpos (by omega)
    (Nat.min_le_right _ _) hfinite
  refine ⟨y, ?_, hshape, helements, ?_⟩
  · unfold evalNode quantize
    rw [hnode.operator]
    dsimp only
    rw [hx, ok_bind, params_of_quantizer hnode hscale, ok_bind, quantizedType_of_quantizer hnode,
      ok_bind, hy]
    rfl
  · intro fracBits hfrac hexponent
    obtain ⟨format, hformat, hsigned, hwidth, hpoint⟩ := exists_signedFormat hfrac hle
    refine ⟨format, hformat, fun v hv => ?_⟩
    rw [toSigned_encode hsigned (hfinite v hv), hwidth, hpoint, hexponent, level]

/-! ### One quantizer -/

/-- A quantizer. -/
def sixteenthNode : Node :=
  { operator := .quantizeLinear
    name := "quantize"
    inputs := ["x", "s", "z"]
    outputs := ["y"]
    attributes := ⟨[], by decide⟩ }

/-- A graph with this node; the scale is one sixteenth, and the zero point has eight bits. -/
def sixteenthGraph : Graph :=
  let zeroPoint : Tensor := ⟨[], .ints .i8 #[0], by decide, by decide +kernel⟩
  { name := "sixteenth"
    opset := 11
    inputs := [.ofName "x"]
    outputs := [.ofName "y"]
    nodes := [sixteenthNode]
    initializers :=
      ⟨[("s", .scalarReal (ofRat (2 ^ (-4 : ℤ)))), ("z", zeroPoint)], by
        simp only [List.pairwise_cons]
        decide⟩ }

/-- Two and a half steps, the largest power of two, and a negative number that is almost zero. -/
def sixteenthData : Tensor :=
  ⟨[3], .reals #[ofRat (5 / 32), .finite false (twoPow 52) 971 (by decide),
    .finite true 3 (-1074) (by decide)], by decide, rfl⟩

/-- The quotient of the largest power of two is infinite, two and a half steps go to the even level,
and nothing is left of the last number.  The codeword with four bits after the point is the same. -/
theorem quantizeLinear_exact_sixteenth :
    let interpreter : Interpreter := ⟨sixteenthGraph, {}⟩
    let environment : Environment := ⟨[("x", sixteenthData)], none⟩
    make? sixteenthGraph {} = .ok interpreter ∧
      Quantizer sixteenthGraph sixteenthNode (ofRat (2 ^ (-4 : ℤ))) .i8 ∧
      interpreter.value environment sixteenthNode 0 = .ok sixteenthData ∧
      (∀ v ∈ sixteenthData.toReals, v.isFinite = true) ∧
      ∃ y, interpreter.evalNode environment sixteenthNode = .ok (y, none) ∧ y.shape = [3] ∧
        y.elements = .ints .i8 #[2, 127, 0] ∧
        ∃ format, FixedPoint.Format.make? true 4 4 = .ok format ∧
          FixedPoint.toSigned format <$> FixedPoint.encode format (ofRat (5 / 32)) = .ok 2 := by
  intro interpreter environment
  have hmake : make? sixteenthGraph {} = .ok interpreter :=
    make?_eq_ok_iff.mpr ⟨by decide +kernel, by decide +kernel, rfl⟩
  have hnode : Quantizer sixteenthGraph sixteenthNode (ofRat (2 ^ (-4 : ℤ))) .i8 := by
    decide +kernel
  have hx : interpreter.value environment sixteenthNode 0 = .ok sixteenthData := by decide +kernel
  have hfinite : ∀ v ∈ sixteenthData.toReals, v.isFinite = true := by decide +kernel
  obtain ⟨y, hy, hshape, helements, hcodec⟩ :=
    quantizeLinear_exact hmake (by decide) (by decide) hnode hx hfinite
  obtain ⟨format, hformat, hcodes⟩ := hcodec 4 (by decide) rfl
  have hlevels : (sixteenthData.toReals.map fun v =>
      clampInt (signedMin 8) (signedMax 8) (roundHalfEven (v.toRat / 2 ^ (-4 : ℤ))))
        = #[2, 127, 0] := by decide +kernel
  have htie : clampInt (signedMin 8) (signedMax 8)
      (roundHalfEven ((ofRat (5 / 32)).toRat / 2 ^ (-4 : ℤ))) = 2 := by decide +kernel
  exact ⟨hmake, hnode, hx, hfinite, y, hy, hshape, helements.trans (congrArg _ hlevels), format,
    hformat, (hcodes _ (by decide +kernel)).trans (congrArg _ htie)⟩

end Interpreter

end DyadicNet.Eval
