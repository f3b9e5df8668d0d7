import Mathlib
import DyadicNet.Proofs.Eval.Averaging
import DyadicNet.Proofs.Eval.KernelShape
import DyadicNet.Proofs.Eval.MissingValues
import DyadicNet.Proofs.Eval.Pooling
import DyadicNet.Proofs.Eval.Rectifying

/-!
# Integers keep their type

The result of an operator on integers becomes a tensor only if every integer is a value of the
element type.  **This check never fails.**  Rectifiers, padding and pooling give integers that lie
between two integers of the data, or zero; the type of a quantized tensor is at least as wide as
what its integers are clamped to.  The one case that needs an argument about rounding is the mean:
its sum and its quotient are doubles, and the error must not carry it past an end of the type.

That an operator fails for another reason is not excluded: windows may not fit, operands or
constants may be missing.

## Main Definitions

* `Node.PadsConstant` — the mode of padding that is evaluated;
* `Contained` — what holds of a result, if there is one;
* `Interpreter.compute?` — what a node applies to its data;
* `Interpreter.KeepsType` — the operators that keep the type of their data;
* `Interpreter.ZeroPointType` — the type that a constant gives to a quantized tensor.

## Main Statements

* `contained_averagePoolNode`, `contained_maxPoolNode`, `contained_quantizeTensor`,
  `Operands.contained_result` — the operators;
* `Interpreter.evalNode_contained` — nodes.
-/

namespace DyadicNet

/-- The mode of padding, if there is one, is to put a constant around the planes. -/
def Node.PadsConstant (node : Node) : Prop :=
  ∀ mode, node.attributes.get? "mode" = some (.text mode) → mode = "constant"

namespace Eval

/-- A tensor with zeros around its planes. -/
def padPlanes (padding : Padding) (x : Tensor) : Except Error Tensor := do
  let s ← Nchw.ofShape? x.shape
  match x.elements with
  | .ints type values =>
    let (padded, out) ← Kernel.pad? s padding 0 values
    intTensor out.toShape (.int type) padded
  | .reals values =>
    let (padded, out) ← Kernel.pad? s padding (.zero false) values
    realTensor out.toShape padded

/-- What a node does whose mode of padding is evaluated. -/
theorem padNode_of_constant {I : Interpreter} {node : Node} (h : node.PadsConstant) (x : Tensor) :
    I.padNode node x = I.padding node >>= fun padding => padPlanes padding x := by
  unfold Node.PadsConstant at h
  unfold Interpreter.padNode
  generalize node.attributes.get? "mode" = given at h
  -- only a text can be a mode
  rcases given with _ | _ | _ | _ | _ | mode
  on_goal 6 =>
    obtain rfl := h mode rfl
    dsimp only
    rw [if_neg (not_not.mpr rfl)]
  all_goals rfl

open Error (OfRange OfValues Unchecked)

/-- A computation that is not refused for an integer that does not have its type.  If it gives a
tensor, this has integers of one of the types of a set, and they have a width that may be less than
that of the type. -/
structure Contained (types : IntType → Prop) (width : IntType → ℕ) (result : Except Error Tensor) :
    Prop where
  inRange : Avoids OfRange result
  elements : ∀ y, result = .ok y → ∃ type values, types type ∧ y.elements = .ints type values ∧
    ∀ v ∈ values, type.holds v = true ∧ signedMin (width type) ≤ v ∧ v ≤ signedMax (width type)

variable {types : IntType → Prop} {width : IntType → ℕ} {type : IntType} {values : Array ℤ}
  {x : Tensor} {node : Node}

/-! ### Building the result -/

/-- Steps before a result that do not look at the type of integers. -/
theorem Contained.bind {α : Type} {before : Except Error α} {f : α → Except Error Tensor}
    (h : Avoids OfRange before) (hrest : ∀ a, before = .ok a → Contained types width (f a)) :
    Contained types width (before >>= f) where
  inRange := h.bind fun a ha => (hrest a ha).inRange
  elements y hy := by
    obtain ⟨a, ha, hy⟩ := bind_eq_ok_iff.mp hy
    exact (hrest a ha).elements y hy

/-- Such steps are all checks. -/
theorem Contained.check {α : Type} {before : Except Error α} {f : α → Except Error Tensor}
    (h : Avoids Unchecked before) (hrest : ∀ a, before = .ok a → Contained types width (f a)) :
    Contained types width (before >>= f) :=
  .bind (h.mono fun _ he => he.ofValues.unchecked) hrest

/-- Integers of a width that the type has. -/
theorem contained_intTensor (shape : List ℕ) (htype : types type) (hwidth : width type ≤ type.bits)
    (hvalues : ∀ v ∈ values, signedMin (width type) ≤ v ∧ v ≤ signedMax (width type)) :
    Contained types width (intTensor shape (.int type) values) := by
  have hholds : ∀ v ∈ values, type.holds v = true := fun v hv =>
    decide_eq_true ⟨(signedMin_le_signedMin hwidth).trans (hvalues v hv).1,
      (hvalues v hv).2.trans (signedMax_le_signedMax hwidth)⟩
  constructor
  · by_cases hsize : values.size = elementCount shape
    · obtain ⟨y, hy, -⟩ := exists_intTensor hsize (Array.all_eq_true_iff_forall_mem.mpr hholds)
      exact avoids_of_eq_ok hy
    · unfold intTensor Tensor.ofInts?
      rw [dif_neg hsize]
      exact avoids_error id
  · intro y hy
    obtain ⟨-, -, helements⟩ := Tensor.ofInts?_eq_ok_iff.mp (mapError_eq_ok_iff.mp hy)
    exact ⟨type, values, htype, helements, fun v hv => ⟨hholds v hv, hvalues v hv⟩⟩

/-- Integers of the type of the data. -/
theorem contained_of_holds (shape : List ℕ) (hvalues : ∀ v ∈ values, type.holds v = true) :
    Contained (· = type) IntType.bits (intTensor shape (.int type) values) :=
  contained_intTensor shape rfl le_rfl fun v hv => of_decide_eq_true (hvalues v hv)

/-! ### Operators that keep the type -/

theorem holds_rectifyInt {v : ℤ} (h : type.holds v = true) : type.holds (rectifyInt v) = true := by
  unfold rectifyInt
  split
  · exact type.holds_zero
  · exact h

/-- An operator that works on each integer on its own. -/
theorem contained_elementwise (onReal : Binary64 → Binary64) {onInt : ℤ → ℤ}
    (hx : x.elements = .ints type values)
    (hkeeps : ∀ v, type.holds v = true → type.holds (onInt v) = true) :
    Contained (· = type) IntType.bits (elementwise onReal onInt x) := by
  unfold elementwise
  rw [hx]
  refine contained_of_holds _ fun v hv => ?_
  obtain ⟨w, hw, rfl⟩ := Array.mem_map.mp hv
  exact hkeeps w (Tensor.holds_of_mem_ints hx hw)

/-- Padding, whatever its extents. -/
theorem contained_padNode {I : Interpreter} (hmode : node.PadsConstant)
    (hx : x.elements = .ints type values) :
    Contained (· = type) IntType.bits (I.padNode node x) := by
  rw [padNode_of_constant hmode]
  refine .bind (Interpreter.avoids_padding.mono fun _ => Error.OfRange.ofValues) fun padding _ => ?_
  refine .check (avoids_ofShape? _) fun s _ => ?_
  rw [hx]
  refine .check (Kernel.avoids_pad? _ _ _ _) fun ⟨padded, out⟩ hpad => ?_
  exact contained_of_holds _ fun v hv =>
    (Kernel.mem_of_pad? hpad v hv).elim (fun hfill => hfill ▸ type.holds_zero)
      (Tensor.holds_of_mem_ints hx)

/-- The means of planes. -/
theorem contained_averagePoolNode {s : Nchw} (hx : x.elements = .ints type values)
    (hshape : x.shape = s.toShape)
    (hsums : ∀ plane < Kernel.planes s, Fits64 ((Kernel.rows s).planeSum values 0 plane)) :
    Contained (· = type) IntType.bits (averagePoolNode x) := by
  unfold averagePoolNode
  rw [Nchw.ofShape?_eq_ok_iff.mpr hshape, ok_bind, hx]
  refine contained_of_holds _ fun v hv => ?_
  obtain ⟨piece, hpiece, rfl⟩ := List.mem_map.mp (List.mem_toArray.mp hv)
  have hsize : values.size = word s.volume := by
    rw [Tensor.size_of_ints hx, hshape, Nchw.elementCount_toShape]
  have harea := area_pos_of_mem_pieces hsize hpiece
  obtain ⟨b, hb, plane, hplane, hsum⟩ := exists_plane_of_mem_pieces harea hpiece
  obtain rfl : b = 0 := Nat.lt_one_iff.mp hb
  obtain ⟨hlow, hhigh⟩ :=
    planeSum_mem (fun v => Tensor.holds_of_mem_ints hx) (Kernel.rows s) 0 plane
  have hfits := hsums plane hplane
  rw [hsum, hfits.wrap64_eq]
  exact holds_roundedMean hfits harea hlow hhigh

/-- The largest elements of windows: the padding never wins. -/
theorem contained_maxPoolNode {s : Nchw} {kernel : Node.Extents} {padding : Padding}
    (hx : x.elements = .ints type values) (hshape : x.shape = s.toShape)
    (hheight : 1 ≤ s.height) (hwidth : 1 ≤ s.width)
    (hkernel : node.kernelShape? = .ok kernel) (hpadding : node.pads? = .ok padding)
    (hnarrower : Narrower padding kernel) :
    Contained (· = type) IntType.bits (maxPoolNode node x) := by
  have hleast : ∀ v ∈ values, signedMin 64 ≤ v := fun v hv =>
    (IntType.fits64_of_holds (Tensor.holds_of_mem_ints hx hv)).1
  unfold maxPoolNode
  refine .bind (avoids_of_eq_ok (mapError_eq_ok_iff.mpr hkernel)) fun kernel' hkernel' => ?_
  obtain rfl := Except.ok.inj (hkernel.symm.trans (mapError_eq_ok_iff.mp hkernel'))
  refine .check (avoids_ofGraph (node.avoids_strides? fun _ _ _ => id)) fun stride _ => ?_
  refine .bind (avoids_of_eq_ok (mapError_eq_ok_iff.mpr hpadding)) fun padding' hpadding' => ?_
  obtain rfl := Except.ok.inj (hpadding.symm.trans (mapError_eq_ok_iff.mp hpadding'))
  rw [Nchw.ofShape?_eq_ok_iff.mpr hshape, ok_bind, hx]
  refine .check (Kernel.avoids_pad? _ _ _ _) fun ⟨padded, size⟩ hpad => ?_
  refine .check (Kernel.avoids_maxPool? _ _ _ _ _) fun ⟨pooled, out⟩ hpool => ?_
  have hmem := mem_of_maxPool? ranked_ints hleast hheight hwidth hnarrower hpad hpool
  exact contained_of_holds _ fun v hv => Tensor.holds_of_mem_ints hx (hmem v hv)

/-! ### Quantized operators -/

/-- Levels have the width that they are clamped to. -/
theorem contained_quantizeTensor (node : Node) (scale : Binary64) (x : Tensor) (htype : types type)
    (hpos : 1 ≤ width type) (hle : width type ≤ 63) (hwidth : width type ≤ type.bits) :
    Contained types width (quantizeTensor node scale type (width type) x) := by
  refine .check (avoids_levels _ _ _) fun levels hlevels => contained_intTensor _ htype hwidth ?_
  intro v hv
  obtain ⟨w, -, hw⟩ := exists_mem_of_mapM hlevels v (List.mem_toArray.mp hv)
  unfold quantizeValue at hw
  split at hw
  · cases hw
    rw [saturate_eq hpos hle]
    exact ⟨le_clampInt _ _ _, clampInt_le (signedMin_le_signedMax _) _⟩
  · cases hw

/-- So do the elements of a convolution, also if a sum saturates. -/
theorem Operands.contained_result {operands : Operands} (h : operands.WellFormed)
    (htype : types operands.type) (hwidth : width operands.type = operands.bits) :
    Contained types width operands.result := by
  refine .check (Kernel.avoids_convolve? _ _ _ _ _ _ _) fun ⟨values, out⟩ hconvolve => ?_
  refine contained_intTensor _ htype (hwidth ▸ h.bits_le_type) fun v hv => ?_
  obtain ⟨-, -, -, -, hmem⟩ := Kernel.of_convolve? hconvolve
  obtain ⟨_, _, _, _, _, -, rfl⟩ := hmem v hv
  rw [hwidth]
  exact Requantize.apply_mem (r := operands.requantize) h.bits_pos (h.bits_le.trans (by decide)) _ _

namespace Interpreter

variable {interpreter : Interpreter} {graph : Graph} {config : Config} {environment : Environment}

/-- The type of a constant that a node names as its zero point. -/
def ZeroPointType (graph : Graph) (node : Node) (index : ℕ) (type : IntType) : Prop :=
  ∃ name ∈ node.input? index, ∃ tensor ∈ graph.initializers.get? name, tensor.dtype = .int type

theorem zeroPointType_of_quantizedType {index bits : ℕ}
    (h : interpreter.quantizedType node index = .ok (type, bits)) :
    ZeroPointType interpreter.graph node index type := by
  unfold quantizedType constant at h
  simp only [bind_eq_ok_iff, operand_eq_ok_iff] at h
  obtain ⟨name, hname, tensor, htensor, h⟩ := h
  have hconstant := mapError_eq_ok_iff.mp htensor
  unfold Graph.constant? at hconstant
  split at hconstant
  · next found hfound =>
    cases hconstant
    split at h
    · next dtype hdtype =>
      cases h
      exact ⟨name, hname, _, hfound, hdtype⟩
    · cases h
  · cases hconstant

theorem avoids_range_operand (index : ℕ) : Avoids OfRange (operand node index) := by
  unfold operand
  split
  · exact avoids_ok _ _
  · exact avoids_error id

/-- Quantizing any tensor. -/
theorem contained_quantize (hconfig : interpreter.config.Valid) (x : Tensor) :
    Contained (ZeroPointType interpreter.graph node 2)
      (fun type => min interpreter.config.activationBits type.bits)
      (interpreter.quantize node x) := by
  have hP : ∀ e, OfRange e → OfValues e := fun _ => Error.OfRange.ofValues
  refine .bind (avoids_params hP (avoids_range_operand 1) (avoids_range_operand 2)) fun params _ => ?_
  refine .bind (avoids_quantizedType hP (avoids_range_operand 2)) fun ⟨type, bits⟩ htype => ?_
  obtain rfl := quantizedType_bits htype
  have hle := hconfig.activationBits_le
  exact contained_quantizeTensor node _ x (zeroPointType_of_quantizedType htype)
    (le_min hconfig.activationBits_pos type.one_le_bits)
    ((Nat.min_le_left _ _).trans (by omega)) (Nat.min_le_right _ _)

/-- Convolving any tensor. -/
theorem contained_convolution (hconfig : interpreter.config.Valid) {operands : Operands}
    (h : interpreter.operands node x = .ok operands) :
    Contained (ZeroPointType interpreter.graph node 7)
      (fun type => min interpreter.config.activationBits type.bits) operands.result := by
  obtain ⟨hwell, hbits, -, -⟩ := operands_wellFormed hconfig h
  have htype := (assembled_of_operands h).type
  exact operands.contained_result hwell (zeroPointType_of_quantizedType htype) hbits.symm

/-! ### Nodes -/

/-- What a node applies to its data, if the format of leaky rectifiers has nothing to do with it. -/
def compute? (interpreter : Interpreter) (node : Node) : Option (Tensor → Except Error Tensor) :=
  match node.operator with
  | .relu => some (elementwise rectify rectifyInt)
  | .pad => some (interpreter.padNode node)
  | .maxPool => some (maxPoolNode node)
  | .globalAveragePool => some averagePoolNode
  | .quantizeLinear => some (interpreter.quantize node)
  | .dequantizeLinear => some (interpreter.dequantize node)
  | .conv | .qlinearConv | .leakyRelu | .other _ => none

/-- Such a node passes the format on. -/
theorem evalNode_of_compute? {compute : Tensor → Except Error Tensor}
    (hcompute : interpreter.compute? node = some compute)
    (hx : interpreter.value environment node 0 = .ok x) :
    interpreter.evalNode environment node
      = (fun y => (y, environment.leakyFormat)) <$> compute x := by
  unfold compute? at hcompute
  unfold evalNode
  split at hcompute
  case h_7 | h_8 | h_9 | h_10 => cases hcompute
  all_goals
    next hoperator =>
      cases hcompute
      rw [hoperator]
      dsimp only
      rw [hx]
      rfl

/-- The operators that keep the type of the integers that they are applied to.  The planes of a pooling
are not empty, and the planes of which a node takes means, as it counts them, have sums of 64
bits. -/
inductive KeepsType (interpreter : Interpreter) (node : Node) (shape : List ℕ) (values : Array ℤ) :
    Prop
  | relu (operator : node.operator = .relu)
  | leakyRelu {slope : Binary64} (rectifier : LeakyRectifier interpreter node slope)
      (bounds : IsSlope slope)
  | pad (operator : node.operator = .pad) (mode : node.PadsConstant)
  | globalAveragePool {s : Nchw} (operator : node.operator = .globalAveragePool)
      (shape_eq : shape = s.toShape)
      (sums : ∀ plane < Kernel.planes s, Fits64 ((Kernel.rows s).planeSum values 0 plane))
  | maxPool {s : Nchw} {kernel : Node.Extents} {padding : Padding}
      (operator : node.operator = .maxPool) (shape_eq : shape = s.toShape)
      (height_pos : 1 ≤ s.height) (width_pos : 1 ≤ s.width)
      (kernelShape : node.kernelShape? = .ok kernel) (pads : node.pads? = .ok padding)
      (narrower : Narrower padding kernel)

theorem KeepsType.contained_evalNode (h : KeepsType interpreter node x.shape values)
    (hx : interpreter.value environment node 0 = .ok x) (hints : x.elements = .ints type values) :
    Contained (· = type) IntType.bits (Prod.fst <$> interpreter.evalNode environment node) := by
  cases h with
  | relu operator =>
    rw [evalNode_of_compute? (by rw [compute?, operator]) hx, fst_map_pair]
    exact contained_elementwise _ hints fun _ => holds_rectifyInt
  | leakyRelu rectifier bounds =>
    rw [rectifier.evalNode_eq hx, fst_map_pair]
    exact contained_elementwise _ hints fun _ => holds_leakyRectifyInt bounds
  | pad operator mode =>
    rw [evalNode_of_compute? (by rw [compute?, operator]) hx, fst_map_pair]
    exact contained_padNode mode hints
  | globalAveragePool operator shape_eq sums =>
    rw [evalNode_of_compute? (by rw [compute?, operator]) hx, fst_map_pair]
    exact contained_averagePoolNode hints shape_eq sums
  | maxPool operator shape_eq height_pos width_pos kernelShape pads narrower =>
    rw [evalNode_of_compute? (by rw [compute?, operator]) hx, fst_map_pair]
    exact contained_maxPoolNode hints shape_eq height_pos width_pos kernelShape pads narrower

/-- A quantized convolution also leaves a format behind. -/
theorem contained_qlinearConv (hnode : node.operator = .qlinearConv)
    (hconfig : interpreter.config.Valid) (hx : interpreter.value environment node 0 = .ok x) :
    Contained (ZeroPointType interpreter.graph node 7)
      (fun type => min interpreter.config.activationBits type.bits)
      (Prod.fst <$> interpreter.evalNode environment node) := by
  have hresult := fun operands (h : interpreter.operands node x = .ok operands) =>
    contained_convolution hconfig h
  constructor
  · refine Avoids.map ?_ _
    unfold evalNode convolution
    rw [hnode]
    dsimp only
    rw [hx, ok_bind]
    have hoperands : Avoids OfRange (interpreter.operands node x) :=
      avoids_operands (fun _ => Error.OfRange.ofValues) (fun index _ => avoids_range_operand index) x
    refine (hoperands.bind fun operands h => ?_).bind fun _ _ => ?_
    · exact (hresult operands h).inRange.bind fun _ _ => avoids_ok _ _
    · exact (avoids_mapError fun _ => id).bind fun _ _ => avoids_ok _ _
  · intro y hy
    obtain ⟨⟨_, format⟩, hvalue, rfl⟩ := map_eq_ok_iff.mp hy
    unfold evalNode convolution at hvalue
    rw [hnode] at hvalue
    simp only [hx, bind_eq_ok_iff, Prod.exists, Except.ok.injEq, Prod.mk.injEq] at hvalue
    obtain ⟨_, rfl, _, _, ⟨operands, hoperands, _, hgives, rfl, rfl⟩, _, -, rfl, -⟩ := hvalue
    exact (hresult operands hoperands).elements _ hgives

/-- **Integers keep their type.**  A node of a graph that is accepted is never refused because an
integer of its result is too large or too small for the element type.  If it is a rectifier, a
padding, a mean or a pooling of integers, each integer of the result has the type of the data; and a
quantizer or a quantized convolution, of any tensor, gives integers of the type of its zero point,
in the range of the narrower one of that type and an activation. -/
theorem evalNode_contained (hmake : make? graph config = .ok interpreter)
    (hx : interpreter.value environment node 0 = .ok x) :
    (∀ type values, x.elements = .ints type values →
        KeepsType interpreter node x.shape values →
        Contained (· = type) IntType.bits (Prod.fst <$> interpreter.evalNode environment node)) ∧
      (node.operator = .quantizeLinear →
        Contained (ZeroPointType graph node 2) (fun type => min config.activationBits type.bits)
          (Prod.fst <$> interpreter.evalNode environment node)) ∧
      (node.operator = .qlinearConv →
        Contained (ZeroPointType graph node 7) (fun type => min config.activationBits type.bits)
          (Prod.fst <$> interpreter.evalNode environment node)) := by
  obtain ⟨hvalidate, -, rfl⟩ := make?_eq_ok_iff.mp hmake
  have hconfig : (Interpreter.mk graph config).config.Valid := Config.valid_of_validate hvalidate
  refine ⟨fun type values hints hkeeps => hkeeps.contained_evalNode hx hints, ?_, ?_⟩
  · intro hnode
    rw [evalNode_of_compute? (by rw [compute?, hnode]) hx, fst_map_pair]
    exact contained_quantize hconfig x
  · exact fun hnode => contained_qlinearConv hnode hconfig hx

/-! ### The greatest integer -/

/-- The greatest integer of the widest type. -/
def greatest : Tensor :=
  ⟨[1, 1, 1, 1], .ints .i64 #[signedMax 64], by decide, by decide +kernel⟩

/-- The quotient of the greatest integer and one is `2 ^ 63` as a double, and three times this
integer does not have 64 bits.  Both come back into the range: the mean into that of the data, the
sum of the convolution into that of an activation, although the zero point has sixteen bits. -/
theorem evalNode_contained_greatest :
    let config : Config := { activationBits := 8 }
    let interpreter : Interpreter := ⟨halfGraph, config⟩
    let environment : Environment := ⟨[("x", greatest)], none⟩
    let meanNode : Node := { halfNode with operator := .globalAveragePool }
    let value := fun node => Prod.fst <$> interpreter.evalNode environment node
    make? halfGraph config = .ok interpreter ∧
      interpreter.value environment meanNode 0 = .ok greatest ∧
      interpreter.value environment halfNode 0 = .ok greatest ∧
      KeepsType interpreter meanNode greatest.shape #[signedMax 64] ∧
      Contained (· = .i64) IntType.bits (value meanNode) ∧
      Tensor.elements <$> value meanNode = .ok (.ints .i64 #[9223372036854775807]) ∧
      Contained (ZeroPointType halfGraph halfNode 7) (fun type => min 8 type.bits)
        (value halfNode) ∧
      Tensor.elements <$> value halfNode = .ok (.ints .i16 #[127, 0]) := by
  intro config interpreter environment meanNode value
  have hmake : make? halfGraph config = .ok interpreter :=
    make?_eq_ok_iff.mpr ⟨by decide +kernel, by decide +kernel, rfl⟩
  have hmean : interpreter.value environment meanNode 0 = .ok greatest := by decide +kernel
  have hhalf : interpreter.value environment halfNode 0 = .ok greatest := by decide +kernel
  have hkeeps : KeepsType interpreter meanNode greatest.shape #[signedMax 64] :=
    .globalAveragePool (s := ⟨1, 1, 1, 1⟩) rfl rfl (by decide +kernel)
  exact ⟨hmake, hmean, hhalf, hkeeps, (evalNode_contained hmake hmean).1 .i64 _ rfl hkeeps,
    by decide +kernel, (evalNode_contained hmake hhalf).2.2 rfl, by decide +kernel⟩

end Interpreter

end Eval

end DyadicNet
