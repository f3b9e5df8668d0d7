import Mathlib
import DyadicNet.Eval.Interpreter
import DyadicNet.Proofs.Config
import DyadicNet.Proofs.Eval.Agreement
import DyadicNet.Proofs.Eval.Quantized
import DyadicNet.Proofs.FixedPoint.Range
import DyadicNet.Proofs.Quantize.Params

/-!
# Quantized convolutions in a graph

An interpreter finds the operands of a quantized convolution in the constants of its graph.  What it
checks on the way is what the exact value of the convolution rests on: the scales are powers of two,
the shifts between them are small, and the width is one of the element type.

## Main Definitions

* `Interpreter.Assembled` — where the operands come from.

## Main Statements

* `Interpreter.operands_wellFormed` — the operands that are found;
* `Interpreter.evalNode_qlinearConv` — evaluating the node is computing from the operands;
* `Interpreter.qlinearConv_exact` — the value of the node in real arithmetic.
-/

namespace DyadicNet

/-- The steps of a window are positive. -/
theorem Node.strides_pos {node : Node} {stride : Node.Extents} (h : node.strides? = .ok stride) :
    0 < stride.height ∧ 0 < stride.width := by
  unfold Node.strides? at h
  simp only [bind_eq_ok_iff, Except.ok.injEq] at h
  obtain ⟨given, hpair, rfl⟩ := h
  cases given with
  | none => decide
  | some extents =>
    unfold Node.pair? at hpair
    simp only [bind_eq_ok_iff] at hpair
    obtain ⟨ints, -, hpair⟩ := hpair
    split at hpair
    · cases hpair
    · split at hpair
      · split_ifs at hpair
        obtain rfl := Option.some_inj.mp (Except.ok.inj hpair)
        exact ⟨by show 0 < Int.toNat _; omega, by show 0 < Int.toNat _; omega⟩
      · split_ifs at hpair
        obtain rfl := Option.some_inj.mp (Except.ok.inj hpair)
        exact ⟨by show 0 < Int.toNat _; omega, by show 0 < Int.toNat _; omega⟩
      · cases hpair

namespace Eval.Interpreter

variable {interpreter : Interpreter} {graph : Graph} {config : Config} {node : Node}

/-! ### The operands -/

theorem valid_params {scale zeroPoint : ℕ} {params : Quantize.Params}
    (h : interpreter.params node scale zeroPoint = .ok params) : params.Valid := by
  obtain ⟨_, -, _, -, hconstants⟩ := params_eq_ok_iff.mp h
  exact Quantize.Params.valid_of_ofConstants? hconstants

theorem quantizedType_bits {zeroPoint : ℕ} {type : IntType} {bits : ℕ}
    (h : interpreter.quantizedType node zeroPoint = .ok (type, bits)) :
    bits = min interpreter.config.activationBits type.bits := by
  unfold quantizedType at h
  simp only [bind_eq_ok_iff] at h
  obtain ⟨_, -, tensor, -, h⟩ := h
  split at h
  · cases h
    rfl
  · cases h

/-- Where the operands of a quantized convolution of a tensor come from. -/
structure Assembled (interpreter : Interpreter) (node : Node) (x : Tensor) (operands : Operands) :
    Prop where
  dataParams : interpreter.params node 1 2 = .ok operands.dataParams
  weightParams : interpreter.params node 4 5 = .ok operands.weightParams
  outputParams : interpreter.params node 6 7 = .ok operands.outputParams
  type : interpreter.quantizedType node 7 = .ok (operands.type, operands.bits)
  data : x.ints? = some operands.data
  dataShape : x.shape = operands.dataShape.toShape
  weights : ∃ name tensor, node.input? 3 = some name ∧
    interpreter.constant node name = .ok tensor ∧ tensor.ints? = some operands.weights ∧
    tensor.shape = operands.weightShape.toShape
  bias : interpreter.bias node operands.weightShape.batch = .ok operands.bias
  padding : node.pads? = .ok operands.padding
  padded : Kernel.pad? operands.dataShape operands.padding 0 operands.data
    = .ok (operands.padded, operands.paddedShape)
  shifts_small : operands.shifts.areSmall = true
  stride : node.strides? = .ok operands.stride

/-- Operands that an interpreter finds are those that the node names. -/
theorem assembled_of_operands {x : Tensor} {operands : Operands}
    (h : interpreter.operands node x = .ok operands) : Assembled interpreter node x operands := by
  unfold Interpreter.operands ofGraph at h
  simp only [bind_eq_ok_iff, Prod.exists, Except.ok.injEq, mapError_eq_ok_iff, operand_eq_ok_iff,
    integers_eq_ok_iff, Nchw.ofShape?_eq_ok_iff, checkShifts_eq_ok_iff] at h
  obtain ⟨dataParams, hdata, weightParams, hweights, outputParams, houtput, type, bits, htype, data,
    hints, name, hname, tensor, htensor, weights, hcodes, weightShape, hweightShape, bias, hbias, _,
    -, dataShape, hshape, padding, hpadding, padded, size, hpadded, _, hsmall, stride, hstride,
    rfl⟩ := h
  exact
    { dataParams := hdata
      weightParams := hweights
      outputParams := houtput
      type := htype
      data := hints
      dataShape := hshape
      weights := ⟨name, tensor, hname, htensor, hcodes, hweightShape⟩
      bias := hbias
      padding := hpadding
      padded := hpadded
      shifts_small := hsmall
      stride := hstride }

section Assembled

variable {x constant : Tensor} {operands : Operands} {name : String}
  (h : Assembled interpreter node x operands)
  (hconstant : interpreter.graph.initializers.get? name = some constant)
include h hconstant

/-- The weights of the operands are those of the constant that the node names. -/
theorem Assembled.weights_eq (hname : node.input? 3 = some name) :
    constant.ints? = some operands.weights ∧ constant.shape = operands.weightShape.toShape := by
  obtain ⟨name', tensor, hname', htensor, hints, hshape⟩ := h.weights
  obtain rfl := Option.some_inj.mp (hname.symm.trans hname')
  obtain rfl := Except.ok.inj (htensor.symm.trans (constant_eq_ok hconstant))
  exact ⟨hints, hshape⟩

/-- The bias of the operands is that of the constant that the node names. -/
theorem Assembled.bias_eq (hname : node.input? 8 = some name) :
    constant.ints? = some operands.bias := by
  have hbias := h.bias
  unfold Interpreter.bias at hbias
  rw [hname] at hbias
  dsimp only at hbias
  rwa [constant_eq_ok hconstant, ok_bind, integers_eq_ok_iff] at hbias

end Assembled

/-- A tensor of integers with four axes has as many elements as these ask for. -/
theorem size_of_ints? {x : Tensor} {values : Array ℤ} {s : Nchw} (hints : x.ints? = some values)
    (hshape : x.shape = s.toShape) : values.size = word s.volume := by
  obtain ⟨type, helements⟩ := Tensor.ints?_eq_some_iff.mp hints
  rw [Tensor.size_of_ints helements, hshape, Nchw.elementCount_toShape]

/-- What an interpreter has made sure of when it has the operands of a quantized convolution. -/
theorem operands_wellFormed {x : Tensor} {operands : Operands} (hconfig : interpreter.config.Valid)
    (h : interpreter.operands node x = .ok operands) :
    operands.WellFormed ∧ operands.bits = min interpreter.config.activationBits operands.type.bits
      ∧ x.ints? = some operands.data ∧ x.shape = operands.dataShape.toShape := by
  have hassembled := assembled_of_operands h
  have hbits := quantizedType_bits hassembled.type
  obtain ⟨hheight, hwidth⟩ := Node.strides_pos hassembled.stride
  obtain ⟨_, tensor, -, -, hweights, hweightShape⟩ := hassembled.weights
  refine ⟨?_, hbits, hassembled.data, hassembled.dataShape⟩
  exact
    { dataScale := (valid_params hassembled.dataParams).toRat_scale
      weightScale := (valid_params hassembled.weightParams).toRat_scale
      outputScale := (valid_params hassembled.outputParams).toRat_scale
      data_size := size_of_ints? hassembled.data hassembled.dataShape
      weights_size := size_of_ints? hweights hweightShape
      padded := hassembled.padded
      shifts_small := hassembled.shifts_small
      bits_pos := hbits ▸ le_min hconfig.activationBits_pos operands.type.one_le_bits
      bits_le := hbits ▸ (Nat.min_le_left _ _).trans hconfig.activationBits_le
      bits_le_type := hbits ▸ Nat.min_le_right _ _
      stride_height_pos := hheight
      stride_width_pos := hwidth }

/-! ### The value of a node -/

/-- The format of the leaky rectifiers after a convolution exists for every weight format. -/
theorem exists_activationFormat (hconfig : interpreter.config.Valid) (weights : Quantize.Params) :
    ∃ format, interpreter.activationFormat weights = .ok format := by
  have hpos := hconfig.activationBits_pos
  have hle := hconfig.activationBits_le
  unfold activationFormat
  dsimp only
  have hfrac : (clampInt 0 (interpreter.config.activationBits - 1) (-weights.exponent)).toNat
      < interpreter.config.activationBits := by
    have hrange : (0 : ℤ) ≤ interpreter.config.activationBits - 1 := by omega
    have := clampInt_le hrange (-weights.exponent)
    omega
  have hint : 1 ≤ interpreter.config.activationBits
      - (clampInt 0 (interpreter.config.activationBits - 1) (-weights.exponent)).toNat := by
    omega
  obtain ⟨format, hformat⟩ :=
    FixedPoint.Format.exists_ofTotalBits? hint (Nat.sub_le _ _) hle
  exact ⟨format, mapError_eq_ok_iff.mpr hformat⟩

/-- Evaluating a quantized convolution whose operands are known is computing its result. -/
theorem evalNode_qlinearConv {environment : Environment} {x y : Tensor} {operands : Operands}
    (hconfig : interpreter.config.Valid) (hnode : node.operator = .qlinearConv)
    (hx : interpreter.value environment node 0 = .ok x)
    (hoperands : interpreter.operands node x = .ok operands) :
    (∃ format, interpreter.evalNode environment node = .ok (y, format)) ↔
      operands.result = .ok y := by
  obtain ⟨leaky, hleaky⟩ := exists_activationFormat hconfig operands.weightParams
  unfold evalNode convolution
  rw [hnode]
  dsimp only
  rw [hx]
  simp only [bind_eq_ok_iff, Except.ok.injEq, Prod.exists, Prod.mk.injEq]
  constructor
  · rintro ⟨format, _, rfl, _, weights, ⟨found, hfound, _, hresult, rfl, rfl⟩, _, -, rfl, -⟩
    rw [hoperands, Except.ok.injEq] at hfound
    exact hfound ▸ hresult
  · intro hresult
    exact ⟨some leaky, x, rfl, y, _, ⟨operands, hoperands, y, hresult, rfl, rfl⟩, leaky, hleaky, rfl,
      rfl⟩

/-- A constant with one number. -/
def tieScale (exponent : ℤ) : Tensor :=
  .scalarReal (.powerOfTwo exponent)

theorem size_byteZero : (Elements.ints .i8 #[0]).size = elementCount [] := by decide

theorem inRange_byteZero : (Elements.ints .i8 #[0]).inRange = true := by decide +kernel

/-- The zero point of bytes. -/
def byteZero : Tensor :=
  ⟨[], .ints .i8 #[0], size_byteZero, inRange_byteZero⟩

/-- A quantized convolution with a bias, one column of padding on the right, and steps of two rows. -/
def tieNode : Node :=
  { operator := .qlinearConv
    name := "conv"
    inputs := ["x", "sx", "zx", "w", "sw", "zw", "sy", "zy", "b"]
    outputs := ["y"]
    attributes := .ofList [("pads", .ints [0, 0, 0, 1]), ("strides", .ints [2, 1])] }

/-- A graph with this node: data in eighths, weights in quarters, and sixteenths as the output. -/
def tieGraph : Graph :=
  { name := "tie"
    opset := 11
    inputs := [.ofName "x"]
    outputs := [.ofName "y"]
    nodes := [tieNode]
    initializers := .ofList
      [("sx", tieScale (-3)), ("zx", .zeroPoint),
        ("w", ⟨[1, 1, 1, 2], .ints .i8 #[3, -2], by decide, by decide +kernel⟩),
        ("sw", tieScale (-2)), ("zw", byteZero), ("sy", tieScale (-4)), ("zy", byteZero),
        ("b", ⟨[1], .ints .i8 #[4], by decide, by decide +kernel⟩)] }

/-- Two rows of two integers, of which only the first row meets a window. -/
def tieData : Tensor :=
  ⟨[1, 1, 2, 2], .ints .i16 #[5, -3, 7, 2], by decide, by decide +kernel⟩

/-- What their convolution is computed from. -/
def tieOperands : Operands :=
  { data := #[5, -3, 7, 2]
    dataShape := ⟨1, 1, 2, 2⟩
    dataParams := .ofExponent (-3)
    weights := #[3, -2]
    weightShape := ⟨1, 1, 1, 2⟩
    weightParams := .ofExponent (-2)
    bias := #[4]
    outputParams := .ofExponent (-4)
    type := .i8
    bits := 8
    padding := ⟨0, 0, 0, 1⟩
    padded := #[5, -3, 0, 7, 2, 0]
    paddedShape := ⟨1, 1, 2, 3⟩
    stride := ⟨2, 1⟩ }

/-- A quantized convolution with so much padding on the right that places leave 64 bits, and steps of
four rows. -/
def farNode : Node :=
  { operator := .qlinearConv
    name := "conv"
    inputs := ["x", "s", "z", "w", "s", "z", "s", "z"]
    outputs := ["y"]
    attributes := .ofList [("pads", .ints [0, 0, 7, twoPow 62 - 4]),
      ("strides", .ints [4, twoPow 63 - 1])] }

theorem size_farWeight : (Elements.ints .i8 #[1]).size = elementCount [1, 1, 1, 1] := by decide

theorem inRange_farWeight : (Elements.ints .i8 #[1]).inRange = true := by decide +kernel

/-- A weight of one. -/
def farWeight : Tensor :=
  ⟨[1, 1, 1, 1], .ints .i8 #[1], size_farWeight, inRange_farWeight⟩

/-- A graph with this node, in which every integer stands for itself. -/
def farGraph : Graph :=
  { name := "far"
    opset := 11
    inputs := [.ofName "x"]
    outputs := [.ofName "y"]
    nodes := [farNode]
    initializers := .ofList
      [("s", tieScale 0), ("z", .zeroPoint), ("w", farWeight)] }

/-- One row of integers. -/
def farData : Tensor :=
  ⟨[1, 1, 1, 5], .ints .i16 #[1, 2, 3, 4, 5], by decide, by decide +kernel⟩

/-- What their convolution is computed from: eight rows of `2 ^ 62 + 1` integers ask for a buffer of
eight. -/
def farOperands : Operands :=
  { data := #[1, 2, 3, 4, 5]
    dataShape := ⟨1, 1, 1, 5⟩
    dataParams := .ofExponent 0
    weights := #[1]
    weightShape := ⟨1, 1, 1, 1⟩
    weightParams := .ofExponent 0
    bias := #[0]
    outputParams := .ofExponent 0
    type := .i16
    bits := 16
    padding := ⟨0, 0, 7, twoPow 62 - 4⟩
    padded := #[1, 2, 3, 4, 5, 0, 0, 0]
    paddedShape := ⟨1, 1, 8, twoPow 62 + 1⟩
    stride := ⟨4, twoPow 63 - 1⟩ }

end Eval.Interpreter

end DyadicNet
