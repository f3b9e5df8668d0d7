import Mathlib
import DyadicNet.Proofs.Eval.Agreement
import DyadicNet.Proofs.Quantize.Walk

/-!
# The nodes that a conversion puts in

A conversion puts in three kinds of nodes, together with the constants that they read.  In a graph
that has those constants **each of the nodes does what it was put in for**: the quantizer quantizes
under its parameters, the quantized convolution is computed from the layer, and the last node turns
integers back under the parameters of the output.

## Main Statements

* `advance_quantizer`, `advance_convolution`, `advance_dequantizer` — what the nodes bind;
* `operands_convolution_iff` — the convolution is computed from the layer;
* `Params.ofConstants?_label` — parameters do not depend on who reads them.
-/

namespace DyadicNet.Quantize

open Eval Eval.Interpreter

/-- Who reads the constants of parameters only matters for the wording of an error. -/
theorem Params.ofConstants?_label {graph : Graph} {scaleName zeroPointName label : String}
    {params : Params} (h : ofConstants? graph label scaleName zeroPointName = .ok params)
    (other : String) : ofConstants? graph other scaleName zeroPointName = .ok params := by
  have hscalar : ∀ name value, graph.scalar? label name = .ok value →
      graph.scalar? other name = .ok value := by
    intro name value hvalue
    unfold Graph.scalar? Graph.constant? at hvalue ⊢
    cases hget : graph.initializers.get? name with
    | none =>
      rw [hget] at hvalue
      cases hvalue
    | some tensor =>
      rw [hget] at hvalue
      exact hvalue
  unfold ofConstants? at h ⊢
  simp only [bind_eq_ok_iff, mapError_eq_ok_iff] at h ⊢
  obtain ⟨scale, hscale, zeroPoint, hzero, h⟩ := h
  exact ⟨scale, hscalar _ _ hscale, zeroPoint, hscalar _ _ hzero, h⟩

/-! ### Operands that stand under known names -/

section Operands

variable {I : Interpreter} {node : Node} {i j : ℕ} {scaleName zeroPointName : String}
  {params : Params} {type : IntType}

/-- Valid parameters whose constants a graph has are found. -/
theorem params_of_carriedBy (hscale : node.input? i = some scaleName)
    (hzero : node.input? j = some zeroPointName) (hvalid : params.Valid)
    (h : params.CarriedBy type I.graph.initializers.get? scaleName zeroPointName) :
    I.params node i j = .ok params :=
  params_eq_ok_iff.mpr
    ⟨_, hscale, _, hzero, Params.ofConstants?_of_carriedBy hvalid h node.label⟩

/-- The type of quantized values is that of the constants that carry their parameters. -/
theorem quantizedType_of_carriedBy (hzero : node.input? j = some zeroPointName)
    (h : params.CarriedBy type I.graph.initializers.get? scaleName zeroPointName) :
    I.quantizedType node j = .ok (type, min I.config.activationBits type.bits) := by
  obtain ⟨tensor, hget, -, helements⟩ := h.zeroPoint
  have hdtype : tensor.dtype = .int type := by
    unfold Tensor.dtype
    rw [helements]
    rfl
  unfold Interpreter.quantizedType
  rw [operand_eq_ok hzero, ok_bind, constant_eq_ok hget, ok_bind, hdtype]

end Operands

/-! ### Names of operands -/

/-- The names of the constants that an inserted quantizer reads. -/
theorem input?_quantizer (input : String) (params : Params) :
    ((Quantizer.derived input params).node input).input? 1
      = some (Derived.scaleName (input ++ "_quant")) ∧
    ((Quantizer.derived input params).node input).input? 2
      = some (Derived.zeroPointName (input ++ "_quant")) := by
  simp [Quantizer.node, Quantizer.derived, Node.make, Node.input?, Derived.scaleName,
    Derived.zeroPointName]

/-- The names of the operands of an inserted dequantizer. -/
theorem input?_dequantizer (node : Node) (result : String) :
    (Walk.dequantizer node result).input? 0 = some (Walk.dequantName node.label) ∧
    (Walk.dequantizer node result).input? 1
      = some (Derived.scaleName (Walk.dequantName node.label)) ∧
    (Walk.dequantizer node result).input? 2
      = some (Derived.zeroPointName (Walk.dequantName node.label)) := by
  simp [Walk.dequantizer, Node.make, Node.input?, Walk.dequantName, Derived.scaleName,
    Derived.zeroPointName]

/-- The names of the operands of a quantized convolution that are never left out. -/
theorem input?_convolution (node : Node) (source : Quantizer) :
    (Walk.convolution node source).input? 3 = some (node.label ++ "_quant_weights") ∧
    (Walk.convolution node source).input? 4
      = some (Derived.scaleName (node.label ++ "_quant_weights")) ∧
    (Walk.convolution node source).input? 5
      = some (Derived.zeroPointName (node.label ++ "_quant_weights")) ∧
    (Walk.convolution node source).input? 6
      = some (Derived.scaleName (node.label ++ "_quant")) ∧
    (Walk.convolution node source).input? 7
      = some (Derived.zeroPointName (node.label ++ "_quant")) ∧
    (Walk.convolution node source).input? 8 = some (node.label ++ "_quant_bias") := by
  simp [Walk.convolution, Walk.operandNames, Node.input?, Derived.scaleName, Derived.zeroPointName]

/-- The names that a quantized convolution takes from its quantizer, if they are not empty. -/
theorem input?_convolution_source (node : Node) (source : Quantizer) :
    (source.output ≠ "" → (Walk.convolution node source).input? 0 = some source.output) ∧
    (source.scale ≠ "" → (Walk.convolution node source).input? 1 = some source.scale) ∧
    (source.zeroPoint ≠ "" →
      (Walk.convolution node source).input? 2 = some source.zeroPoint) := by
  refine ⟨?_, ?_, ?_⟩
  · intro hname
    simp [Walk.convolution, Walk.operandNames, Node.input?, hname]
  · intro hname
    simp [Walk.convolution, Walk.operandNames, Node.input?, hname]
  · intro hname
    simp [Walk.convolution, Walk.operandNames, Node.input?, hname]

/-! ### The quantizer of a tensor -/

variable {I J : Interpreter} {e : Environment} {node : Node} {params output : Params} {x y : Tensor}

/-- A quantizer that was put in binds the integers of its tensor, under its parameters. -/
theorem advance_quantizer (input : String) (hvalid : params.Valid)
    (h : params.CarriedBy (Reference.activationType J) J.graph.initializers.get?
      (Derived.scaleName (input ++ "_quant")) (Derived.zeroPointName (input ++ "_quant"))) :
    J.advance e ((Quantizer.derived input params).node input)
      = J.value e ((Quantizer.derived input params).node input) 0 >>= fun x =>
        quantizeTensor ((Quantizer.derived input params).node input) params.scale
          (Reference.activationType J) (Reference.activationWidth J) x >>= fun y =>
        .ok ⟨(input ++ "_quant", y) :: e.values, e.leakyFormat⟩ := by
  obtain ⟨hscale, hzero⟩ := input?_quantizer input params
  have hquantize : ∀ x, J.quantize ((Quantizer.derived input params).node input) x
      = quantizeTensor ((Quantizer.derived input params).node input) params.scale
          (Reference.activationType J) (Reference.activationWidth J) x := by
    intro x
    unfold Interpreter.quantize
    rw [params_of_carriedBy hscale hzero hvalid h, quantizedType_of_carriedBy hzero h]
    rfl
  have houtput : ((Quantizer.derived input params).node input).output? = some (input ++ "_quant") :=
    rfl
  rw [advance_eq houtput]
  show ((J.value e _ 0 >>= fun x => _ <$> J.quantize _ x) >>= _) = _
  simp only [hquantize, bind_assoc, map_eq_pure_bind, pure_bind]

/-! ### The way back -/

/-- The node after a quantized convolution binds the values that its integers stand for under the
parameters of the output. -/
theorem advance_dequantizer {weightType activationType : IntType} {layer : Layer} {result : String}
    (hvalid : output.Valid)
    (h : Walk.LayerCarried weightType activationType J.graph.initializers.get? node.label layer
      output) (hy : e.values.lookup (Walk.dequantName node.label) = some y) :
    J.advance e (Walk.dequantizer node result)
      = dequantizeTensor (Walk.dequantizer node result) output.scale y >>= fun real =>
        .ok ⟨(result, real) :: e.values, e.leakyFormat⟩ := by
  obtain ⟨hdata, hscale, hzero⟩ := input?_dequantizer node result
  have hdequantize : J.dequantize (Walk.dequantizer node result) y
      = dequantizeTensor (Walk.dequantizer node result) output.scale y := by
    unfold Interpreter.dequantize
    rw [params_of_carriedBy hscale hzero hvalid h.resultParams]
    rfl
  have houtput : (Walk.dequantizer node result).output? = some result := rfl
  rw [advance_eq houtput]
  show ((J.value e _ 0 >>= fun x => _ <$> J.dequantize _ x) >>= _) = _
  rw [value_eq_ok_iff.mpr ⟨_, hdata, by rw [hy, Option.some_or]⟩]
  show (_ <$> J.dequantize _ y >>= _) = _
  simp only [hdequantize, bind_assoc, map_eq_pure_bind, pure_bind]

/-! ### The quantized convolution -/

/-- **A quantized convolution is computed from its layer**: in a graph with the constants of the
layer, and with constants for the parameters of the data, it has the operands that the layer has
there. -/
theorem operands_convolution_iff {source : Quantizer} {layer : Layer} {weightType : IntType}
    (hconfig : J.config = I.config) (hscale : source.scale ≠ "") (hzero : source.zeroPoint ≠ "")
    (hsource : ∀ label,
      Params.ofConstants? J.graph label source.scale source.zeroPoint = .ok source.params)
    (hvalid : output.Valid)
    (hlayer : Walk.LayerCarried weightType (Reference.activationType I) J.graph.initializers.get?
      node.label layer output) {x : Tensor} {operands : Operands} :
    J.operands (Walk.convolution node source) x = .ok operands ↔
      Reference.operands I node layer ⟨x, source.params⟩ output = .ok operands := by
  obtain ⟨h₃, h₄, h₅, h₆, h₇, h₈⟩ := input?_convolution node source
  obtain ⟨-, h₁, h₂⟩ := input?_convolution_source node source
  have hdata : J.params (Walk.convolution node source) 1 2 = .ok source.params :=
    params_eq_ok_iff.mpr ⟨_, h₁ hscale, _, h₂ hzero, hsource _⟩
  have hweightParams := params_of_carriedBy h₄ h₅ layer.valid_params hlayer.weightParams
  have houtput := params_of_carriedBy h₆ h₇ hvalid hlayer.outputParams
  have htype := quantizedType_of_carriedBy h₇ hlayer.outputParams
  have hweights : J.constant (Walk.convolution node source) (node.label ++ "_quant_weights")
      = .ok layer.weights := constant_eq_ok hlayer.weights
  have hbias : ∀ channels, J.bias (Walk.convolution node source) channels
      = integers (Walk.convolution node source) layer.bias := by
    intro channels
    unfold Interpreter.bias
    rw [h₈]
    show (J.constant _ _ >>= _) = _
    rw [constant_eq_ok hlayer.bias]
    rfl
  -- the window is that of the old node, since the attributes are
  have hattributes : (Walk.convolution node source).attributes = node.attributes := rfl
  unfold Interpreter.operands Reference.operands ofGraph Reference.activationWidth
  rw [hdata, hweightParams, houtput, htype, operand_eq_ok h₃, hconfig]
  simp only [bind_eq_ok_iff, Except.ok.injEq, exists_eq_left', hweights, hbias,
    integers_eq_ok_iff, mapError_eq_ok_iff, checkShifts_eq_ok_iff, checkKernel_congr hattributes,
    Node.pads?_congr hattributes, Node.strides?_congr hattributes]

/-- A quantized convolution binds the result of its operands, and leaves behind the format that goes
with the parameters of its weights. -/
theorem advance_convolution {source : Quantizer} (hname : source.output ≠ "")
    (hx : e.values.lookup source.output = some x) :
    J.advance e (Walk.convolution node source)
      = J.operands (Walk.convolution node source) x >>= fun operands =>
        operands.result >>= fun y => J.activationFormat operands.weightParams >>= fun format =>
        .ok ⟨(Walk.dequantName node.label, y) :: e.values, some format⟩ := by
  have houtput : (Walk.convolution node source).output? = some (Walk.dequantName node.label) := rfl
  rw [advance_eq houtput]
  show ((J.value e _ 0 >>= fun x => J.convolution _ x >>= _) >>= _) = _
  rw [value_eq_ok_iff.mpr
    ⟨_, (input?_convolution_source node source).1 hname, by rw [hx, Option.some_or]⟩]
  show ((J.operands _ x >>= _) >>= _) >>= _ = _
  simp only [bind_assoc]
  rfl

end DyadicNet.Quantize
