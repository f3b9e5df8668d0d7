import Mathlib
import DyadicNet.Proofs.Eval.Agreement

/-!
# Faults that quantized operators do not have

A quantized operator fails for one of two reasons.  Either the graph does not have the constants
that belong to the node: one is missing, or they are no parameters.  Or the constants are there,
and the data or the attributes of the node do not go with them.  **An operator whose constants are
there never fails for the first reason**, in whatever environment it is evaluated.

The constants of a quantized convolution also say by how much it has to shift, and too large a
shift is refused.  **Whether it is depends on nothing else**: neither on the data nor on the
attributes of the node.

Which error a computation in steps ends with is not looked at.  A set of errors is avoided by the
whole if it is avoided by each step, so every operator is done by going through its steps once.

## Main Definitions

* `Error.OfConstants`, `Error.OfShifts` — the errors about constants and those about shifts;
* `Error.OfMissingValue` — the errors about values that are not there;
* `Error.OfOperands` — all of these, none of which comes from applying an operator to its operands;
* `Error.OfRange` — the errors about integers that do not have their type;
* `Error.OfValues`, `Error.Unchecked` — what is left where constants are there, and what no check of
  operands and attributes finds;
* `Interpreter.HasConstants` — that a graph has the constants of a quantized convolution.

## Main Statements

* `Interpreter.avoids_quantizeLinear`, `Interpreter.avoids_qlinearConv`,
  `Interpreter.avoids_dequantizeLinear` — the operators do not miss constants;
* `Interpreter.avoids_shifts_of_areSmall`, `Interpreter.areSmall_of_evalNode` — shifts are refused
  unless they are small.
-/

namespace DyadicNet

/-! ### Attributes -/

/-- A constant that a node needs is missing. -/
def Graph.Error.OfConstants : Graph.Error → Prop
  | .missingInitializer _ _ => True
  | _ => False

namespace Node

variable (node : Node) (name : String) {P : Graph.Error → Prop}
  (hP : ∀ node name fault, ¬P (.invalidAttribute node name fault))
include hP

theorem avoids_ints? : Avoids P (node.ints? name) := by
  unfold ints?
  split
  · exact avoids_ok _ _
  · exact avoids_ok _ _
  · exact avoids_ok _ _
  · exact avoids_error (hP _ _ _)

theorem avoids_pair? : Avoids P (node.pair? name) := by
  unfold pair?
  refine (node.avoids_ints? name hP).bind fun values _ => ?_
  split
  · exact avoids_ok _ _
  · split
    · split
      · exact avoids_ok _ _
      · exact avoids_error (hP _ _ _)
    · split
      · exact avoids_ok _ _
      · exact avoids_error (hP _ _ _)
    · exact avoids_error (hP _ _ _)

theorem avoids_strides? : Avoids P node.strides? :=
  (node.avoids_pair? "strides" hP).bind fun _ _ => avoids_ok _ _

theorem avoids_pads? : Avoids P node.pads? := by
  unfold pads?
  refine (node.avoids_ints? "pads" hP).bind fun values _ => ?_
  split
  · exact avoids_ok _ _
  · exact avoids_mapError fun _ => hP _ _ _

end Node

namespace Eval

/-! ### Kinds of errors -/

/-- A constant is missing, or constants are no parameters. -/
def Error.OfConstants : Error → Prop
  | .graph error => error.OfConstants
  | .quantize _ => True
  | _ => False

/-- A convolution would have to shift too far. -/
def Error.OfShifts : Error → Prop
  | .invalidInput (.shifts _ _ _ _) => True
  | _ => False

/-- Either of the two: what the constants of a node decide before its data is looked at. -/
def Error.OfMetadata : Error → Prop
  | .graph error => error.OfConstants
  | .quantize _ => True
  | .invalidInput (.shifts _ _ _ _) => True
  | _ => False

/-- A value is missing. -/
def Error.OfMissingValue : Error → Prop
  | .missingValue _ _ => True
  | _ => False

/-- Any of these: what can be wrong before an operator is applied to its operands. -/
def Error.OfOperands : Error → Prop
  | .missingValue _ _ => True
  | error => error.OfMetadata

/-- An integer is not one of the type of its tensor, or of a constant. -/
def Error.OfRange : Error → Prop
  | .graph (.tensor (.outOfRange _ _)) => True
  | .quantize (.graph (.tensor (.outOfRange _ _))) => True
  | _ => False

/-- Either of the two: what neither parameters nor attributes decide. -/
def Error.OfValues : Error → Prop
  | .missingValue _ _ => True
  | error => error.OfRange

/-- Any of these: what comes up where operands are looked up and where tensors are built, and not
where operands and attributes are checked. -/
def Error.Unchecked : Error → Prop
  | .graph (.tensor (.outOfRange _ _)) => True
  | error => error.OfOperands

open Error
  (OfConstants OfShifts OfMetadata OfMissingValue OfOperands OfRange OfValues Unchecked)

theorem Error.OfConstants.ofMetadata {e : Error} (h : e.OfConstants) : e.OfMetadata := by
  cases e with
  | graph error => exact h
  | quantize error => trivial
  | _ => exact h.elim

theorem Error.OfShifts.ofMetadata {e : Error} (h : e.OfShifts) : e.OfMetadata := by
  cases e with
  | invalidInput fault =>
    cases fault with
    | shifts => trivial
    | _ => exact h.elim
  | _ => exact h.elim

theorem Error.OfMetadata.ofOperands {e : Error} (h : e.OfMetadata) : e.OfOperands := by
  cases e with
  | missingValue node name => trivial
  | _ => exact h

theorem Error.OfMissingValue.ofOperands {e : Error} (h : e.OfMissingValue) : e.OfOperands := by
  cases e with
  | missingValue node name => trivial
  | _ => exact h.elim

theorem Error.OfOperands.unchecked {e : Error} (h : e.OfOperands) : e.Unchecked := by
  unfold Unchecked
  split
  · trivial
  · exact h

theorem Error.OfRange.ofValues {e : Error} (h : e.OfRange) : e.OfValues := by
  unfold OfValues
  split
  · trivial
  · exact h

theorem Error.OfMissingValue.ofValues {e : Error} (h : e.OfMissingValue) : e.OfValues := by
  cases e with
  | missingValue node name => trivial
  | _ => exact h.elim

theorem Error.OfValues.unchecked {e : Error} (h : e.OfValues) : e.Unchecked := by
  unfold OfValues at h
  split at h
  · trivial
  · unfold OfRange at h
    split at h
    · trivial
    · trivial
    · exact h.elim

variable {node : Node}

theorem avoids_ofGraph {α : Type} {x : Except Graph.Error α}
    (h : Avoids (fun error => Unchecked (.graph error)) x) : Avoids Unchecked (ofGraph x) :=
  h.mapError fun _ => id

/-! ### Tensors -/

theorem avoids_integers (x : Tensor) : Avoids Unchecked (integers node x) := by
  unfold integers
  split
  · exact avoids_ok _ _
  · exact avoids_error id

theorem avoids_ofShape? (shape : List ℕ) : Avoids Unchecked (Nchw.ofShape? shape) := by
  unfold Nchw.ofShape?
  split
  · exact avoids_ok _ _
  · exact avoids_error id

theorem avoids_intTensor (shape : List ℕ) (dtype : DType) (values : Array ℤ) :
    Avoids OfOperands (intTensor shape dtype values) :=
  avoids_mapError fun _ => id

theorem avoids_realTensor (shape : List ℕ) (values : Array Binary64) :
    Avoids OfOperands (realTensor shape values) :=
  avoids_mapError fun _ => id

theorem avoids_levels (scale : Binary64) (bits : ℕ) (values : List Binary64) :
    Avoids Unchecked (values.mapM (quantizeValue node scale bits)) := by
  refine avoids_mapM fun value _ => ?_
  unfold quantizeValue
  split
  · exact avoids_ok _ _
  · exact avoids_error id

theorem avoids_quantizeTensor (scale : Binary64) (type : IntType) (bits : ℕ) (x : Tensor) :
    Avoids OfOperands (quantizeTensor node scale type bits x) :=
  ((avoids_levels _ _ _).mono fun _ => Error.OfOperands.unchecked).bind fun _ _ =>
    avoids_intTensor _ _ _

theorem avoids_dequantizeTensor (scale : Binary64) (x : Tensor) :
    Avoids OfOperands (dequantizeTensor node scale x) :=
  ((avoids_integers x).mono fun _ => Error.OfOperands.unchecked).bind fun _ _ =>
    avoids_realTensor _ _

/-! ### Windows -/

theorem avoids_checkKernel (ws : Nchw) : Avoids Unchecked (checkKernel node ws) := by
  unfold checkKernel
  refine (avoids_ofGraph (node.avoids_ints? _ fun _ _ _ => id)).bind fun declared _ => ?_
  split
  · split
    · exact avoids_error id
    · exact avoids_ok _ _
  · exact avoids_ok _ _

/-- Whatever the shifts are, they are not a constant that is missing. -/
theorem avoids_checkShifts (shifts : Shifts) : Avoids OfConstants (checkShifts node shifts) := by
  unfold checkShifts
  split
  · exact avoids_error id
  · exact avoids_ok _ _

theorem avoids_windowCount? (size extent step : ℕ) :
    Avoids Unchecked (windowCount? size extent step) := by
  unfold windowCount?
  split
  · exact avoids_error id
  · exact avoids_ok _ _

theorem avoids_convolved? (s ws : Nchw) (biasSize : ℕ) (stride : Node.Extents) :
    Avoids Unchecked (convolved? s ws biasSize stride) :=
  avoids_check id <| avoids_check id <| (avoids_windowCount? _ _ _).bind fun _ _ =>
    (avoids_windowCount? _ _ _).bind fun _ _ => avoids_ok _ _

theorem avoids_windows? (s : Nchw) (kernel stride : Node.Extents) :
    Avoids Unchecked (s.windows? kernel stride) :=
  (avoids_windowCount? _ _ _).bind fun _ _ =>
    (avoids_windowCount? _ _ _).bind fun _ _ => avoids_ok _ _

/-! ### Kernels -/

namespace Kernel

variable {α : Type} {s : Nchw}

theorem avoids_allocate? (length : ℕ) (fill : α) : Avoids Unchecked (allocate? length fill) := by
  unfold allocate?
  split
  · exact avoids_ok _ _
  · exact avoids_error id

theorem avoids_load? (values : Array α) (index : ℕ) : Avoids Unchecked (load? values index) := by
  unfold load?
  split
  · exact avoids_ok _ _
  · exact avoids_error id

theorem avoids_copySlice? (source target : Array α) (start offset length : ℕ) :
    Avoids Unchecked (copySlice? source target start offset length) := by
  unfold copySlice?
  split
  · exact avoids_ok _ _
  · exact avoids_error id

theorem avoids_tabulate? {f : ℕ → ℕ → ℕ → ℕ → Except Error α}
    (h : ∀ b c y x, Avoids Unchecked (f b c y x)) : Avoids Unchecked (tabulate? s f) := by
  unfold tabulate?
  split
  · refine (avoids_mapM fun step hstep => ?_).map _
    obtain ⟨b, c, y, x, -, rfl⟩ := Nchw.exists_of_mem_tabulate (Array.mem_toList_iff.mp hstep)
    exact h b c y x
  · exact avoids_error id

theorem avoids_pad? (s : Nchw) (padding : Padding) (fill : α) (values : Array α) :
    Avoids Unchecked (pad? s padding fill values) := by
  refine (avoids_allocate? _ _).bind fun _ _ => Avoids.bind ?_ fun _ _ => avoids_ok _ _
  exact avoids_foldlM fun _ _ _ _ _ _ => avoids_foldlM fun _ _ _ _ _ _ => avoids_copySlice? _ _ _ _ _

theorem avoids_convolve? (input : Array ℤ) (s : Nchw) (weights : Array ℤ) (ws : Nchw)
    (bias : Array ℤ) (stride : Node.Extents) (requantize : Requantize) :
    Avoids Unchecked (convolve? input s weights ws bias stride requantize) := by
  refine (avoids_convolved? _ _ _ _).bind fun _ _ => Avoids.bind ?_ fun _ _ => avoids_ok _ _
  refine avoids_tabulate? fun _ _ _ _ => Avoids.bind ?_ fun _ _ => avoids_ok _ _
  exact avoids_mapM fun _ _ => (avoids_load? _ _).bind fun _ _ => (avoids_load? _ _).bind
    fun _ _ => avoids_ok _ _

theorem avoids_maxPool? (less : α → α → Bool) (values : Array α) (s : Nchw)
    (kernel stride : Node.Extents) : Avoids Unchecked (maxPool? less values s kernel stride) := by
  refine (avoids_windows? _ _ _).bind fun _ _ => Avoids.bind ?_ fun _ _ => avoids_ok _ _
  refine avoids_tabulate? fun _ _ _ _ => Avoids.map ?_ _
  exact (avoids_load? _ _).bind fun _ _ => (avoids_mapM fun _ _ => avoids_load? _ _).bind
    fun _ _ => avoids_ok _ _

end Kernel

theorem Operands.avoids_result (operands : Operands) : Avoids OfOperands operands.result :=
  ((Kernel.avoids_convolve? _ _ _ _ _ _ _).mono fun _ => Error.OfOperands.unchecked).bind
    fun _ _ => avoids_intTensor _ _ _

/-! ### Looking up operands -/

namespace Interpreter

variable {I : Interpreter} {graph : Graph} {e : Environment} {params : Quantize.Params}
  {type : IntType} {bits : ℕ}

theorem avoids_operand (index : ℕ) : Avoids OfMetadata (operand node index) := by
  unfold operand
  split
  · exact avoids_ok _ _
  · exact avoids_error id

/-- A value that is not there yet is not a constant that is missing. -/
theorem avoids_value (index : ℕ) : Avoids OfMetadata (I.value e node index) := by
  refine (avoids_operand index).bind fun name _ => ?_
  split
  · exact avoids_ok _ _
  · exact avoids_error id

theorem avoids_activationFormat (weights : Quantize.Params) :
    Avoids OfOperands (I.activationFormat weights) :=
  avoids_mapError fun _ => id

/-! ### Operands that are found -/

section Operands

variable {P : Error → Prop} (hP : ∀ e, P e → e.OfValues)

theorem avoids_constant (name : String) : Avoids OfValues (I.constant node name) := by
  refine Avoids.mapError (P := fun error => OfValues (.graph error)) ?_ fun _ => id
  unfold Graph.constant?
  split
  · exact avoids_ok _ _
  · exact avoids_error id

theorem avoids_bias (channels : ℕ) : Avoids OfValues (I.bias node channels) := by
  unfold Interpreter.bias
  split
  · exact (avoids_constant _).bind fun _ _ =>
      (avoids_integers _).mono fun _ => Error.OfValues.unchecked
  · exact (Kernel.avoids_allocate? _ _).mono fun _ => Error.OfValues.unchecked

theorem avoids_padding : Avoids OfValues (I.padding node) := by
  unfold padding
  split
  · refine (avoids_constant _).bind fun _ _ => ?_
    refine ((avoids_integers _).mono fun _ => Error.OfValues.unchecked).bind fun _ _ => ?_
    exact avoids_mapError fun _ => id
  · exact (avoids_ofGraph (node.avoids_pads? fun _ _ _ => id)).mono fun _ => Error.OfValues.unchecked

theorem avoids_ofConstants? (label scaleName zeroPointName : String) :
    Avoids (fun error => OfValues (.quantize error))
      (Quantize.Params.ofConstants? graph label scaleName zeroPointName) := by
  have hscalar : ∀ name, Avoids (fun error => OfValues (.quantize error))
      ((graph.scalar? label name).mapError .graph) := by
    intro name
    refine Avoids.mapError (P := fun error => OfValues (.quantize (.graph error))) ?_ fun _ => id
    unfold Graph.scalar? Graph.constant?
    refine Avoids.bind ?_ fun tensor _ => ?_
    · split
      · exact avoids_ok _ _
      · exact avoids_error id
    · split
      · exact avoids_ok _ _
      · exact avoids_error id
  unfold Quantize.Params.ofConstants? Quantize.Params.make?
  refine (hscalar _).bind fun _ _ => (hscalar _).bind fun _ _ => ?_
  split
  · split
    · exact avoids_error id
    · split
      · exact avoids_error id
      · split
        · exact avoids_ok _ _
        · exact avoids_error id
  · exact avoids_error id

include hP

/-- Parameters are looked up by their place. -/
theorem avoids_params {scale zeroPoint : ℕ} (hscale : Avoids P (operand node scale))
    (hzeroPoint : Avoids P (operand node zeroPoint)) : Avoids P (I.params node scale zeroPoint) :=
  hscale.bind fun _ _ => hzeroPoint.bind fun _ _ =>
    (avoids_ofConstants? _ _ _).mapError fun _ => hP _

theorem avoids_quantizedType {zeroPoint : ℕ} (h : Avoids P (operand node zeroPoint)) :
    Avoids P (I.quantizedType node zeroPoint) := by
  refine h.bind fun _ _ => ((avoids_constant _).mono hP).bind fun tensor _ => ?_
  split
  · exact avoids_ok _ _
  · exact avoids_error (hP _)

/-- The operands of a quantized convolution: the only ones that are looked up by their place are the
parameters and the weights. -/
theorem avoids_operands (h : ∀ index < 8, Avoids P (operand node index)) (x : Tensor) :
    Avoids P (I.operands node x) := by
  have hP' : ∀ e, P e → e.Unchecked := fun e he => (hP e he).unchecked
  have hparams : ∀ i < 8, ∀ j < 8, Avoids P (I.params node i j) :=
    fun i hi j hj => avoids_params hP (h i hi) (h j hj)
  refine (hparams 1 (by decide) 2 (by decide)).bind fun _ _ => ?_
  refine (hparams 4 (by decide) 5 (by decide)).bind fun _ _ => ?_
  refine (hparams 6 (by decide) 7 (by decide)).bind fun _ _ => ?_
  refine (avoids_quantizedType hP (h 7 (by decide))).bind fun _ _ => ?_
  refine ((avoids_integers x).mono hP').bind fun _ _ => (h 3 (by decide)).bind fun _ _ => ?_
  refine ((avoids_constant _).mono hP).bind fun tensor _ => ?_
  refine ((avoids_integers tensor).mono hP').bind fun _ _ => ?_
  refine ((avoids_ofShape? _).mono hP').bind fun _ _ => ((avoids_bias _).mono hP).bind fun _ _ => ?_
  refine ((avoids_checkKernel _).mono hP').bind fun _ _ => ?_
  refine ((avoids_ofShape? _).mono hP').bind fun _ _ => ?_
  refine ((avoids_ofGraph (node.avoids_pads? fun _ _ _ => id)).mono hP').bind fun _ _ => ?_
  refine ((Kernel.avoids_pad? _ _ _ _).mono hP').bind fun _ _ => ?_
  refine Avoids.bind ?_ fun _ _ => ?_
  · unfold checkShifts
    split
    · exact avoids_error (hP _)
    · exact avoids_ok _ _
  · exact ((avoids_ofGraph (node.avoids_strides? fun _ _ _ => id)).mono hP').bind fun _ _ =>
      avoids_ok _ _

end Operands

/-! ### Nodes whose constants are there -/

/-- A quantizer whose parameters are there. -/
theorem avoids_quantizeLinear (hnode : node.operator = .quantizeLinear)
    (hparams : I.params node 1 2 = .ok params) (htype : I.quantizedType node 2 = .ok (type, bits)) :
    Avoids OfMetadata (I.evalNode e node) := by
  unfold evalNode
  rw [hnode]
  refine (avoids_value 0).bind fun x _ => Avoids.map ?_ _
  unfold Interpreter.quantize
  rw [hparams, htype]
  exact (avoids_quantizeTensor _ _ _ _).mono fun _ => Error.OfMetadata.ofOperands

/-- A dequantizer whose parameters are there. -/
theorem avoids_dequantizeLinear (hnode : node.operator = .dequantizeLinear)
    (hparams : I.params node 1 2 = .ok params) : Avoids OfMetadata (I.evalNode e node) := by
  unfold evalNode
  rw [hnode]
  refine (avoids_value 0).bind fun x _ => Avoids.map ?_ _
  unfold Interpreter.dequantize
  rw [hparams]
  exact (avoids_dequantizeTensor _ _).mono fun _ => Error.OfMetadata.ofOperands

/-- A graph has the constants of a quantized convolution. -/
structure HasConstants (interpreter : Interpreter) (node : Node) : Prop where
  dataParams : ∃ params, interpreter.params node 1 2 = .ok params
  weightParams : ∃ params, interpreter.params node 4 5 = .ok params
  outputParams : ∃ params, interpreter.params node 6 7 = .ok params
  type : ∃ type, interpreter.quantizedType node 7 = .ok type
  weights : ∃ name tensor, node.input? 3 = some name ∧
    interpreter.graph.initializers.get? name = some tensor
  bias : ∃ name tensor, node.input? 8 = some name ∧
    interpreter.graph.initializers.get? name = some tensor

variable {P : Error → Prop}

/-- The operands of a quantized convolution whose constants are there.  What is left to decide is
whether its shifts are refused. -/
theorem HasConstants.avoids_operands (h : I.HasConstants node) (hP : ∀ e, P e → e.OfMetadata)
    (hshifts : ∀ data weights output, I.params node 1 2 = .ok data →
      I.params node 4 5 = .ok weights → I.params node 6 7 = .ok output →
      Avoids P (checkShifts node (.ofExponents data.exponent weights.exponent output.exponent)))
    (x : Tensor) : Avoids P (I.operands node x) := by
  replace hP : ∀ e, P e → e.Unchecked := fun e he => (hP e he).ofOperands.unchecked
  obtain ⟨dataParams, hdata⟩ := h.dataParams
  obtain ⟨weightParams, hweightParams⟩ := h.weightParams
  obtain ⟨outputParams, houtput⟩ := h.outputParams
  obtain ⟨⟨type, bits⟩, htype⟩ := h.type
  obtain ⟨weightName, weights, hweightName, hweights⟩ := h.weights
  obtain ⟨biasName, biasTensor, hbiasName, hbias⟩ := h.bias
  have hbias : ∀ channels, Avoids Unchecked (I.bias node channels) := by
    intro channels
    unfold Interpreter.bias
    rw [hbiasName]
    exact (avoids_of_eq_ok (constant_eq_ok hbias)).bind fun tensor _ => avoids_integers tensor
  have hshifts := hshifts dataParams weightParams outputParams hdata hweightParams houtput
  unfold Interpreter.operands
  rw [hdata, hweightParams, houtput, htype, operand_eq_ok hweightName]
  refine ((avoids_integers x).mono hP).bind fun _ _ => ?_
  refine (avoids_of_eq_ok (constant_eq_ok hweights)).bind fun tensor _ => ?_
  refine ((avoids_integers tensor).mono hP).bind fun _ _ => ?_
  refine ((avoids_ofShape? _).mono hP).bind fun _ _ => ((hbias _).mono hP).bind fun _ _ => ?_
  refine ((avoids_checkKernel _).mono hP).bind fun _ _ => ?_
  refine ((avoids_ofShape? _).mono hP).bind fun _ _ => ?_
  refine ((avoids_ofGraph (node.avoids_pads? fun _ _ _ => id)).mono hP).bind fun _ _ => ?_
  refine ((Kernel.avoids_pad? _ _ _ _).mono hP).bind fun _ _ => hshifts.bind fun _ _ => ?_
  exact ((avoids_ofGraph (node.avoids_strides? fun _ _ _ => id)).mono hP).bind fun _ _ => avoids_ok _ _

/-- So is it for the quantized convolution as a whole. -/
theorem HasConstants.avoids_evalNode (h : I.HasConstants node) (hnode : node.operator = .qlinearConv)
    (hP : ∀ e, P e → e.OfMetadata)
    (hshifts : ∀ data weights output, I.params node 1 2 = .ok data →
      I.params node 4 5 = .ok weights → I.params node 6 7 = .ok output →
      Avoids P (checkShifts node (.ofExponents data.exponent weights.exponent output.exponent))) :
    Avoids P (I.evalNode e node) := by
  unfold evalNode
  rw [hnode]
  refine ((avoids_value 0).mono hP).bind fun x _ => ?_
  have hP' : ∀ e, P e → e.OfOperands := fun e he => (hP e he).ofOperands
  refine Avoids.bind ?_ fun _ _ =>
    ((avoids_activationFormat _).mono hP').bind fun _ _ => avoids_ok _ _
  unfold convolution
  exact (h.avoids_operands hP hshifts x).bind fun operands _ =>
    (operands.avoids_result.mono hP').bind fun _ _ => avoids_ok _ _

/-- A quantized convolution whose constants are there does not miss any. -/
theorem avoids_qlinearConv (hnode : node.operator = .qlinearConv) (h : I.HasConstants node) :
    Avoids OfConstants (I.evalNode e node) :=
  h.avoids_evalNode hnode (fun _ => Error.OfConstants.ofMetadata) fun _ _ _ _ _ _ =>
    avoids_checkShifts _

/-- A quantized convolution whose constants are there, with small shifts, is not refused for
them. -/
theorem avoids_shifts_of_areSmall (hnode : node.operator = .qlinearConv) (h : I.HasConstants node)
    (hsmall : ∀ data weights output, I.params node 1 2 = .ok data →
      I.params node 4 5 = .ok weights → I.params node 6 7 = .ok output →
      (Shifts.ofExponents data.exponent weights.exponent output.exponent).areSmall = true) :
    Avoids OfShifts (I.evalNode e node) :=
  h.avoids_evalNode hnode (fun _ => Error.OfShifts.ofMetadata)
    fun data weights output hdata hweights houtput =>
      avoids_of_eq_ok (a := ()) <| checkShifts_eq_ok_iff.mpr <|
        hsmall data weights output hdata hweights houtput

/-- A quantized convolution that has a value has small shifts. -/
theorem areSmall_of_evalNode {data weights output : Quantize.Params}
    {value : Tensor × Option FixedPoint.Format} (hnode : node.operator = .qlinearConv)
    (hdata : I.params node 1 2 = .ok data) (hweights : I.params node 4 5 = .ok weights)
    (houtput : I.params node 6 7 = .ok output) (h : I.evalNode e node = .ok value) :
    (Shifts.ofExponents data.exponent weights.exponent output.exponent).areSmall = true := by
  unfold evalNode convolution at h
  rw [hnode] at h
  dsimp only at h
  simp only [bind_eq_ok_iff] at h
  obtain ⟨x, -, _, ⟨operands, hoperands, -⟩, -⟩ := h
  unfold Interpreter.operands at hoperands
  rw [hdata, hweights, houtput] at hoperands
  simp only [ok_bind, bind_eq_ok_iff, checkShifts_eq_ok_iff] at hoperands
  obtain ⟨_, -, _, -, _, -, _, -, _, -, _, -, _, -, _, -, _, -, _, -, _, -, _, hsmall, -⟩ := hoperands
  exact hsmall

end Interpreter

end Eval

end DyadicNet
