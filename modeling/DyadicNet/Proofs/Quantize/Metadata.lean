import Mathlib
import DyadicNet.Proofs.Eval.Faults
import DyadicNet.Proofs.Quantize.Blocks

/-!
# The constants of inserted nodes

An inserted node finds its parameters by name, in one table that all layers share.  The names are
put together from the labels of convolutions and the names of tensors, so that different layers may
well come to the same name; what must not happen is that **a node finds what was meant for another
one**.  In the graph that a conversion gives, every inserted node finds its own: the weights and
the bias that its convolution was analyzed to have, and the parameters that are reported for its
layer.

The data of a convolution may have been quantized by a node that the graph had before.  Its
constants are still there, because the new graph passes its check with that node in it.

## Main Definitions

* `Conversion.Carried` — that a table has the constants of a conversion;
* `Produces` — where the quantized data of a convolution comes from;
* `Resolves` — what the inserted nodes find in the new graph.

## Main Statements

* `carried_of_step`, `carried_of_steps` — the constants of a walk;
* `produces_of_supplies` — a quantizer and its constants are in the new graph;
* `quantize_resolves` — the constants of a conversion.
-/

namespace DyadicNet.Quantize

open Eval

variable {graph target : Graph} {config settings : Config} {report : Report}
  {start walk walk' last : Walk} {block : Block} {done blocks front back : List Block}
  {conversion : Conversion} {source : Quantizer} {input : String}

/-! ### The constants of a walk -/

/-- The constants of a conversion stand under their names: those of its layer, which was analyzed
from the convolution's own weights and bias, and those of the quantizer, if one was put in. -/
structure Conversion.Carried (graph : Graph) (config : Config) (lookup : String → Option Tensor)
    (conversion : Conversion) : Prop where
  layer : ∃ analyzed : Analyzed,
    analyzeConv graph config.weightBits conversion.node = .ok analyzed ∧
    conversion.report.format = analyzed.layer.format ∧
    conversion.dequantizer = Walk.dequantizer conversion.node analyzed.output ∧
    Walk.LayerCarried (.forBits config.weightBits) (.forBits config.activationBits) lookup
      conversion.node.label analyzed.layer conversion.report.output
  output_valid : conversion.report.output.Valid
  quantizer : conversion.quantizer.isSome = true → ∃ input, conversion.node.input? 0 = some input ∧
    conversion.quantizer = some ((Quantizer.derived input conversion.report.input).node input) ∧
    conversion.report.input.Valid ∧
    conversion.report.input.CarriedBy (.forBits config.activationBits) lookup
      (Derived.scaleName (input ++ "_quant")) (Derived.zeroPointName (input ++ "_quant"))

theorem Conversion.Carried.mono {lookup lookup' : String → Option Tensor}
    (h : conversion.Carried graph config lookup)
    (hmore : ∀ name tensor, lookup name = some tensor → lookup' name = some tensor) :
    conversion.Carried graph config lookup' := by
  obtain ⟨analyzed, hanalyzed, hformat, hdequantizer, hlayer⟩ := h.layer
  refine ⟨⟨analyzed, hanalyzed, hformat, hdequantizer, hlayer.mono hmore⟩, h.output_valid, ?_⟩
  intro hsome
  obtain ⟨input, hinput, hquantizer, hvalid, hcarried⟩ := h.quantizer hsome
  exact ⟨input, hinput, hquantizer, hvalid, hcarried.mono hmore⟩

/-- **A step adds the constants of its conversion.** -/
theorem carried_of_step (hdyadic : walk.Dyadic)
    (hstep : Step graph (.ofConfig config) config.weightBits walk (.converted conversion) walk') :
    conversion.Carried graph config walk'.derived.get? := by
  cases hstep with
  | @convert middle node analyzed source quantize output _ _ _ hanalyzed hsource houtput hderived
      hreport =>
    subst hreport
    have hspec := spec_of_analyzeConv hanalyzed
    have hvalid := valid_of_propagateScale? houtput
    obtain ⟨hadds, hlayer⟩ :=
      Walk.layer_of_addLayer hspec.weights_ints hspec.bias_ints hvalid hderived
    refine ⟨⟨analyzed, hanalyzed, rfl, rfl, hlayer⟩, hvalid, ?_⟩
    intro hsome
    rcases Walk.source_eq_ok hsource with ⟨-, -, rfl⟩ | ⟨_, -, rfl, hparams, rfl, rfl⟩
    · cases hsome
    · obtain ⟨-, hcarried⟩ := Derived.adds_of_addParams? hdyadic.propagated hparams
      exact ⟨analyzed.input, hspec.input_eq, rfl, hdyadic.propagated, hcarried.mono hadds.get?_eq⟩

/-- **A walk has the constants of all its conversions.** -/
theorem carried_of_steps (hstart : start.Dyadic)
    (h : Steps graph (.ofConfig config) config.weightBits start blocks walk) :
    ∀ conversion ∈ conversions blocks, conversion.Carried graph config walk.derived.get? := by
  induction h with
  | nil =>
    intro conversion hconversion
    cases hconversion
  | @snoc done walk walk' block hsteps hstep ih =>
    have hmore := (extendsBy_of_step hstep).get?_eq
    intro conversion hconversion
    rw [conversions_append, List.mem_append] at hconversion
    rcases hconversion with hold | hnew
    · exact (ih conversion hold).mono hmore
    · obtain rfl := List.mem_singleton.mp (mem_conversions.mp hnew)
      exact carried_of_step (dyadic_of_steps hstart hsteps) hstep

/-! ### Where quantized data comes from -/

/-- A node of a graph gives what a quantizer is named for, and its constants carry the quantizer's
parameters. -/
structure Produces (target : Graph) (source : Quantizer) (node : Node) : Prop where
  mem_nodes : node ∈ target.nodes
  operator_eq : node.operator = .quantizeLinear
  output_eq : node.output? = some source.output
  scale_eq : node.input? 1 = some source.scale
  zeroPoint_eq : node.input? 2 = some source.zeroPoint
  params_eq : ∀ label, Params.ofConstants? target label source.scale source.zeroPoint
    = .ok source.params

/-- The quantizer of the data of a convolution is supplied by a block, before the convolution or in
its place. -/
theorem exists_supplier {types : Types} {totalBits : ℕ} (hstart : start.quantizers = [])
    (h : Steps graph types totalBits start blocks last)
    (hconversion : conversion ∈ conversions blocks) :
    ∃ source input, conversion.convolution = Walk.convolution conversion.node source ∧
      conversion.report.input = source.params ∧
      ∃ block ∈ blocks, Supplies graph input source block := by
  obtain ⟨front, back, hsplit⟩ := List.append_of_mem (mem_conversions.mp hconversion)
  obtain ⟨walk, walk', hbefore, hstep⟩ := h.at hsplit
  have hknown := Walk.known_of_step (known_of_steps hstart hbefore) hstep
  cases hstep with
  | @convert middle _ analyzed source _ _ _ _ _ _ hsource _ _ hreport =>
    have hlookup := Walk.lookup_of_source hsource
    obtain ⟨earlier, block, later, hdone, -, hsupplies⟩ := hknown.supplied _ source hlookup
    refine ⟨source, analyzed.input, rfl, by rw [hreport], block, ?_, hsupplies⟩
    rw [hsplit, List.append_cons, hdone]
    exact List.mem_append_left _ (List.mem_append_right _ List.mem_cons_self)

/-- A quantizer that was put in is in the new graph, and so are its constants. -/
theorem produces_of_inserted (hnodes : target.nodes = blocks.flatMap Block.nodes)
    (hmem : conversion ∈ conversions blocks)
    (hcarried : conversion.Carried graph config target.initializers.get?)
    (hinput : conversion.node.input? 0 = some input)
    (hquantizer : conversion.quantizer = some (source.node input))
    (hderived : source = .derived input conversion.report.input) :
    Produces target source (source.node input) := by
  obtain ⟨input', hinput', -, hvalid, hconstants⟩ :=
    hcarried.quantizer (by rw [hquantizer]; rfl)
  obtain rfl := Option.some_inj.mp (hinput.symm.trans hinput')
  have hnode : source.node input ∈ target.nodes := by
    rw [hnodes]
    refine List.mem_flatMap.mpr ⟨_, mem_conversions.mp hmem, List.mem_append_left _ ?_⟩
    rw [hquantizer]
    exact List.mem_cons_self
  refine ⟨hnode, rfl, rfl, ?_, ?_, ?_⟩
  · rw [hderived]
    exact (input?_quantizer _ _).1
  · rw [hderived]
    exact (input?_quantizer _ _).2
  · rw [hderived]
    exact fun label => Params.ofConstants?_of_carriedBy hvalid hconstants label

/-- **A quantizer and its constants are in the new graph**, whether the graph had it or it was put
in. -/
theorem produces_of_supplies (hconverted : Converted graph target last)
    (hsources : blocks.map Block.source = graph.nodes)
    (hnodes : target.nodes = blocks.flatMap Block.nodes)
    (hcarried : ∀ conversion ∈ conversions blocks,
      conversion.Carried graph config target.initializers.get?)
    (hblock : block ∈ blocks) (hsupplies : Supplies graph input source block) :
    ∃ node, Produces target source node := by
  have htarget : ∀ node ∈ block.nodes, node ∈ target.nodes := by
    intro node hnode
    rw [hnodes]
    exact List.mem_flatMap.mpr ⟨block, hblock, hnode⟩
  cases hsupplies with
  | @existing node hcomplete houtput hscale hzero hparams =>
    have hnode : node ∈ target.nodes := htarget node List.mem_cons_self
    have hold : node ∈ graph.nodes := hsources ▸ List.mem_map_of_mem hblock
    -- the node reads the constants in both graphs, so they are still there
    have hsame : ∀ index name, node.input? index = some name →
        target.initializers.get? name = graph.initializers.get? name := fun index name hname =>
      hconverted.get?_eq hnode hname
        (mem_occurringNames_of_input? hconverted.source_checked hold hname)
    have hparams : Params.ofConstants? target node.label source.scale source.zeroPoint
        = .ok source.params := by
      rw [← hparams]
      exact Params.ofConstants?_congr (hsame 1 _ hscale) (hsame 2 _ hzero) node.label
    exact ⟨node, hnode, hcomplete.operator_eq, houtput, hscale, hzero,
      Params.ofConstants?_label hparams⟩
  | @inserted conversion hnode hinput hquantizer hderived =>
    have hmem := mem_conversions.mpr hblock
    exact ⟨_, produces_of_inserted hnodes hmem (hcarried conversion hmem) hinput hquantizer hderived⟩

/-! ### What inserted nodes find -/

/-- **What the inserted nodes find in a graph**, by the names of their operands and with nothing but
the constants of the graph. -/
structure Resolves (graph target : Graph) (config : Config) (conversion : Conversion) : Prop where
  /-- Weights and bias are those of the layer that the convolution's own constants give. -/
  layer : ∃ weightName biasName weights bias layer,
    conversion.node.input? 1 = some weightName ∧ conversion.node.input? 2 = some biasName ∧
    graph.initializers.get? weightName = some weights ∧
    graph.initializers.get? biasName = some bias ∧
    analyze conversion.node.label weights bias config.weightBits = .ok layer ∧
    conversion.report.format = layer.format ∧
    (∃ name, conversion.convolution.input? 3 = some name ∧
      target.initializers.get? name = some layer.weights) ∧
    ∃ name, conversion.convolution.input? 8 = some name ∧
      target.initializers.get? name = some layer.bias
  /-- The scale of the weights is that of the layer's format. -/
  weightParams : ∃ params : Params,
    (∀ settings, Interpreter.params ⟨target, settings⟩ conversion.convolution 4 5 = .ok params) ∧
    params.scale.Denotes false (2 ^ (-(conversion.report.format.fracBits : ℤ))) ∧
    params.zeroPoint = 0
  dataParams : ∀ settings, Interpreter.params ⟨target, settings⟩ conversion.convolution 1 2
    = .ok conversion.report.input
  outputParams : ∀ settings, Interpreter.params ⟨target, settings⟩ conversion.convolution 6 7
    = .ok conversion.report.output
  resultParams : ∀ settings, Interpreter.params ⟨target, settings⟩ conversion.dequantizer 1 2
    = .ok conversion.report.output
  quantizerParams : ∀ quantizer ∈ conversion.quantizer, ∀ settings,
    Interpreter.params ⟨target, settings⟩ quantizer 1 2 = .ok conversion.report.input
  /-- The data comes from one node, a quantizer that reads the same scale and zero point. -/
  producer : ∃ name node, conversion.convolution.inputs.head? = some name ∧
    (∀ other ∈ target.nodes, name ∈ other.outputs ↔ other = node) ∧
    node ∈ target.nodes ∧ node.operator = .quantizeLinear ∧
    node.input? 1 = conversion.convolution.input? 1 ∧
    node.input? 2 = conversion.convolution.input? 2

/-- The operands of a quantized convolution whose constants are carried. -/
structure Conversion.Found (target : Graph) (config settings : Config) (conversion : Conversion)
    (layer : Layer) : Prop where
  dataParams : Interpreter.params ⟨target, settings⟩ conversion.convolution 1 2
    = .ok conversion.report.input
  weightParams : Interpreter.params ⟨target, settings⟩ conversion.convolution 4 5 = .ok layer.params
  outputParams : Interpreter.params ⟨target, settings⟩ conversion.convolution 6 7
    = .ok conversion.report.output
  type : ∃ type, Interpreter.quantizedType ⟨target, settings⟩ conversion.convolution 7 = .ok type
  weights : ∃ name, conversion.convolution.input? 3 = some name ∧
    target.initializers.get? name = some layer.weights
  bias : ∃ name, conversion.convolution.input? 8 = some name ∧
    target.initializers.get? name = some layer.bias
  resultParams : Interpreter.params ⟨target, settings⟩ conversion.dequantizer 1 2
    = .ok conversion.report.output
  quantizer : ∀ quantizer ∈ conversion.quantizer,
    Interpreter.params ⟨target, settings⟩ quantizer 1 2 = .ok conversion.report.input ∧
    ∃ type, Interpreter.quantizedType ⟨target, settings⟩ quantizer 2 = .ok type

/-- A quantized convolution that finds its operands has its constants. -/
theorem Conversion.Found.hasConstants {layer : Layer}
    (h : conversion.Found target config settings layer) :
    Interpreter.HasConstants ⟨target, settings⟩ conversion.convolution := by
  obtain ⟨weightName, hweightName, hweights⟩ := h.weights
  obtain ⟨biasName, hbiasName, hbias⟩ := h.bias
  exact
    { dataParams := ⟨_, h.dataParams⟩
      weightParams := ⟨_, h.weightParams⟩
      outputParams := ⟨_, h.outputParams⟩
      type := h.type
      weights := ⟨weightName, _, hweightName, hweights⟩
      bias := ⟨biasName, _, hbiasName, hbias⟩ }

namespace Conversion.Carried

variable (h : conversion.Carried graph config target.initializers.get?)
include h

/-- The width to which activations are clamped. -/
theorem quantizedType_convolution
    (hconvolution : conversion.convolution = Walk.convolution conversion.node source)
    (settings : Config) :
    Interpreter.quantizedType ⟨target, settings⟩ conversion.convolution 7
      = .ok (.forBits config.activationBits,
        min settings.activationBits (IntType.forBits config.activationBits).bits) := by
  obtain ⟨_, -, -, -, hlayer⟩ := h.layer
  obtain ⟨-, -, -, -, hzero, -⟩ := input?_convolution conversion.node source
  rw [hconvolution]
  exact quantizedType_of_carriedBy hzero hlayer.outputParams

/-- The node after a convolution finds the parameters of the output. -/
theorem params_dequantizer (settings : Config) :
    Interpreter.params ⟨target, settings⟩ conversion.dequantizer 1 2
      = .ok conversion.report.output := by
  obtain ⟨analyzed, -, -, hdequantizer, hlayer⟩ := h.layer
  obtain ⟨-, hscale, hzero⟩ := input?_dequantizer conversion.node analyzed.output
  rw [hdequantizer]
  exact params_of_carriedBy hscale hzero h.output_valid hlayer.resultParams

/-- A quantizer that was put in finds the parameters of the data, and the width of activations. -/
theorem params_quantizer {quantizer : Node} (hquantizer : quantizer ∈ conversion.quantizer)
    (settings : Config) :
    Interpreter.params ⟨target, settings⟩ quantizer 1 2 = .ok conversion.report.input ∧
      Interpreter.quantizedType ⟨target, settings⟩ quantizer 2
        = .ok (.forBits config.activationBits,
          min settings.activationBits (IntType.forBits config.activationBits).bits) := by
  obtain ⟨input, -, hderived, hvalid, hconstants⟩ := h.quantizer (by rw [hquantizer]; rfl)
  obtain rfl := Option.some_inj.mp (hderived.symm.trans hquantizer)
  obtain ⟨hscale, hzero⟩ := input?_quantizer input conversion.report.input
  exact ⟨params_of_carriedBy hscale hzero hvalid hconstants,
    quantizedType_of_carriedBy hzero hconstants⟩

end Conversion.Carried

/-- **A node finds the constants that are carried for it.** -/
theorem found_of_carried (hcarried : conversion.Carried graph config target.initializers.get?)
    {node : Node} (hproduces : Produces target source node)
    (hconvolution : conversion.convolution = Walk.convolution conversion.node source)
    (hparams : conversion.report.input = source.params) (settings : Config) :
    ∃ analyzed : Analyzed, analyzeConv graph config.weightBits conversion.node = .ok analyzed ∧
      conversion.report.format = analyzed.layer.format ∧
      conversion.Found target config settings analyzed.layer := by
  obtain ⟨analyzed, hanalyzed, hformat, -, hlayer⟩ := hcarried.layer
  obtain ⟨h₃, h₄, h₅, h₆, h₇, h₈⟩ := input?_convolution conversion.node source
  obtain ⟨-, h₁, h₂⟩ := input?_convolution_source conversion.node source
  have hscale := (Graph.mem_inputs_of_input? hproduces.scale_eq).2
  have hzero := (Graph.mem_inputs_of_input? hproduces.zeroPoint_eq).2
  refine ⟨analyzed, hanalyzed, hformat, ?_⟩
  exact
    { dataParams := by
        rw [hconvolution, hparams]
        exact Interpreter.params_eq_ok_iff.mpr
          ⟨_, h₁ hscale, _, h₂ hzero, hproduces.params_eq _⟩
      weightParams := by
        rw [hconvolution]
        exact params_of_carriedBy h₄ h₅ analyzed.layer.valid_params hlayer.weightParams
      outputParams := by
        rw [hconvolution]
        exact params_of_carriedBy h₆ h₇ hcarried.output_valid hlayer.outputParams
      type := ⟨_, hcarried.quantizedType_convolution hconvolution settings⟩
      weights := by
        rw [hconvolution]
        exact ⟨_, h₃, hlayer.weights⟩
      bias := by
        rw [hconvolution]
        exact ⟨_, h₈, hlayer.bias⟩
      resultParams := hcarried.params_dequantizer settings
      quantizer := fun _ hquantizer =>
        let ⟨hparams, htype⟩ := hcarried.params_quantizer hquantizer settings
        ⟨hparams, _, htype⟩ }

/-- What a quantized convolution reads comes from one node. -/
theorem producer_of_produces (htarget : target.validate = .ok ()) {node : Node}
    (hproduces : Produces target source node)
    (hconvolution : conversion.convolution = Walk.convolution conversion.node source) :
    ∃ name node, conversion.convolution.inputs.head? = some name ∧
      (∀ other ∈ target.nodes, name ∈ other.outputs ↔ other = node) ∧
      node ∈ target.nodes ∧ node.operator = .quantizeLinear ∧
      node.input? 1 = conversion.convolution.input? 1 ∧
      node.input? 2 = conversion.convolution.input? 2 := by
  obtain ⟨final, hchecked, -⟩ := Graph.nodes_of_validate htarget
  obtain ⟨-, h₁, h₂⟩ := input?_convolution_source conversion.node source
  have hwritten := List.mem_of_mem_head? hproduces.output_eq
  rw [hconvolution]
  refine ⟨source.output, node, rfl, ?_, hproduces.mem_nodes, hproduces.operator_eq, ?_, ?_⟩
  · intro other hother
    constructor
    · intro hname
      exact Graph.eq_of_mem_outputs hchecked hother hproduces.mem_nodes hname hwritten
    · rintro rfl
      exact hwritten
  · rw [hproduces.scale_eq, h₁ (Graph.mem_inputs_of_input? hproduces.scale_eq).2]
  · rw [hproduces.zeroPoint_eq, h₂ (Graph.mem_inputs_of_input? hproduces.zeroPoint_eq).2]

theorem resolves_of_carried (htarget : target.validate = .ok ())
    (hcarried : conversion.Carried graph config target.initializers.get?) {node : Node}
    (hproduces : Produces target source node)
    (hconvolution : conversion.convolution = Walk.convolution conversion.node source)
    (hparams : conversion.report.input = source.params) :
    Resolves graph target config conversion := by
  have hfound := found_of_carried hcarried hproduces hconvolution hparams
  -- whoever asks, it is the same layer
  obtain ⟨analyzed, hanalyzed, hformat, -⟩ := hfound config
  have hfound : ∀ settings, conversion.Found target config settings analyzed.layer := by
    intro settings
    obtain ⟨other, hother, -, hfound⟩ := hfound settings
    obtain rfl := Except.ok.inj (hanalyzed.symm.trans hother)
    exact hfound
  obtain ⟨weights, bias, hweightName, hbiasName, hweights, hbias, hlayer⟩ :=
    constants_of_analyzeConv hanalyzed
  exact
    { layer := ⟨analyzed.weights, analyzed.bias, weights, bias, analyzed.layer, hweightName,
        hbiasName, hweights, hbias, hlayer, hformat, (hfound config).weights, (hfound config).bias⟩
      weightParams := ⟨analyzed.layer.params, fun settings => (hfound settings).weightParams,
        hformat ▸ analyzed.layer.valid_params.scale, rfl⟩
      dataParams := fun settings => (hfound settings).dataParams
      outputParams := fun settings => (hfound settings).outputParams
      resultParams := fun settings => (hfound settings).resultParams
      quantizerParams := fun quantizer hquantizer settings =>
        ((hfound settings).quantizer quantizer hquantizer).1
      producer := producer_of_produces htarget hproduces hconvolution }

/-! ### No inserted node misses a constant -/

/-- **No inserted node fails for a constant** that is missing or is no parameter, in whatever
environment it is evaluated. -/
theorem avoids_of_carried (hwell : conversion.WellFormed)
    (hcarried : conversion.Carried graph config target.initializers.get?) {producer : Node}
    (hproduces : Produces target source producer)
    (hconvolution : conversion.convolution = Walk.convolution conversion.node source)
    (hparams : conversion.report.input = source.params) {node : Node}
    (hnode : node ∈ conversion.nodes) (settings : Config) (environment : Environment) :
    Avoids Error.OfConstants (Interpreter.evalNode ⟨target, settings⟩ environment node) := by
  obtain ⟨analyzed, -, -, hfound⟩ :=
    found_of_carried hcarried hproduces hconvolution hparams settings
  simp only [Conversion.nodes, List.mem_append, Option.mem_toList, List.mem_cons,
    List.not_mem_nil, or_false] at hnode
  have hconstants : ∀ e, Error.OfConstants e → Error.OfMetadata e :=
    fun _ => Error.OfConstants.ofMetadata
  rcases hnode with hquantizer | rfl | rfl
  · obtain ⟨hparams, ⟨type, bits⟩, htype⟩ := hfound.quantizer node hquantizer
    exact (Interpreter.avoids_quantizeLinear (hwell.quantizer node hquantizer).1 hparams
      htype).mono hconstants
  · exact Interpreter.avoids_qlinearConv hwell.convolution_operator hfound.hasConstants
  · exact (Interpreter.avoids_dequantizeLinear hwell.dequantizer_operator
      hfound.resultParams).mono hconstants

/-! ### Labels -/

/-- The quantized convolutions have distinct results, so their convolutions have distinct labels. -/
theorem nodup_labels {defined final : List String}
    (hchecked : (blocks.flatMap Block.nodes).foldlM Graph.checkNode defined = .ok final)
    (hresult : ∀ conversion ∈ conversions blocks,
      conversion.convolution.output? = some (Walk.dequantName conversion.node.label)) :
    ((conversions blocks).map fun conversion => conversion.node.label).Nodup := by
  have hsublist : ((conversions blocks).map fun conversion =>
      Walk.dequantName conversion.node.label).Sublist
        ((blocks.flatMap Block.nodes).filterMap Node.output?) := by
    clear hchecked
    induction blocks with
    | nil => exact List.Sublist.refl _
    | cons block rest ih =>
      rw [List.flatMap_cons, List.filterMap_append]
      cases block with
      | kept node => exact (ih hresult).trans (List.sublist_append_right _ _)
      | converted conversion =>
        have hfirst := hresult conversion List.mem_cons_self
        have hrest := ih fun other hother => hresult other (List.mem_cons_of_mem _ hother)
        have hhere : [Walk.dequantName conversion.node.label].Sublist
            (conversion.nodes.filterMap Node.output?) := by
          rw [List.singleton_sublist, List.mem_filterMap]
          exact ⟨conversion.convolution, List.mem_append_right _ List.mem_cons_self, hfirst⟩
        exact hhere.append hrest
  have hnodup := (Graph.nodup_output?_of_checkNodes hchecked).sublist hsublist
  refine List.Nodup.of_map Walk.dequantName ?_
  rwa [List.map_map]

/-- **The inserted nodes find their own constants.**  In the graph that a conversion gives, under
names that do not occur in the old graph, each quantized convolution finds the weights and the bias
of its layer, the scale of the layer's format, and the parameters that the report has for its data
and its output; its data comes from a quantizer with the same constants.  So no inserted node fails
because of its constants.  No two convolutions of the graph have the same label. -/
theorem quantize_resolves (hgraph : graph.validate = .ok ()) (hfresh : Fresh graph)
    (h : quantize config graph = .ok report) :
    ∃ blocks, Spliced graph report blocks ∧
      (conversions blocks).map Conversion.node
        = graph.nodes.filter (fun node => node.operator == .conv) ∧
      (∀ conversion ∈ conversions blocks, Resolves graph report.graph config conversion) ∧
      (∀ conversion ∈ conversions blocks, ∀ node ∈ conversion.nodes, ∀ settings environment,
        Avoids Error.OfConstants
          (Interpreter.evalNode ⟨report.graph, settings⟩ environment node)) ∧
      ((graph.nodes.filter fun node => node.operator == .conv).map Node.label).Nodup := by
  obtain ⟨input, last, nodes, blocks, hinput, hsteps, -, htarget, hspliced, hconverted⟩ :=
    exists_steps h
  have hconverted := hconverted hgraph hfresh
  have hvalid := (Params.make?_eq_ok_iff.mp hinput).1
  have hcarried : ∀ conversion ∈ conversions blocks,
      conversion.Carried graph config report.graph.initializers.get? := fun conversion hmem =>
    (carried_of_steps ⟨hvalid, fun _ _ hlookup => by cases hlookup⟩ hsteps conversion hmem).mono
      hconverted.derived_eq
  have hsource : ∀ conversion ∈ conversions blocks, ∃ source node,
      conversion.convolution = Walk.convolution conversion.node source ∧
        conversion.report.input = source.params ∧ Produces report.graph source node := by
    intro conversion hmem
    obtain ⟨source, name, hconvolution, hparams, block, hblock, hsupplies⟩ :=
      exists_supplier rfl hsteps hmem
    obtain ⟨node, hproduces⟩ := produces_of_supplies hconverted hspliced.sources_eq
      hspliced.nodes_eq hcarried hblock hsupplies
    exact ⟨source, node, hconvolution, hparams, hproduces⟩
  have hconvolutions := map_node_conversions hspliced.wellFormed
  rw [hspliced.sources_eq] at hconvolutions
  refine ⟨blocks, hspliced, hconvolutions, ?_, ?_, ?_⟩
  · intro conversion hmem
    obtain ⟨source, node, hconvolution, hparams, hproduces⟩ := hsource conversion hmem
    exact resolves_of_carried htarget (hcarried conversion hmem) hproduces hconvolution hparams
  · intro conversion hmem node hnode settings environment
    obtain ⟨source, producer, hconvolution, hparams, hproduces⟩ := hsource conversion hmem
    exact avoids_of_carried (hspliced.wellFormed _ (mem_conversions.mp hmem))
      (hcarried conversion hmem) hproduces hconvolution hparams hnode settings environment
  · obtain ⟨final, hchecked, -⟩ := Graph.nodes_of_validate htarget
    rw [hspliced.nodes_eq] at hchecked
    rw [← hconvolutions, List.map_map]
    refine nodup_labels hchecked ?_
    intro conversion hmem
    obtain ⟨source, -, hconvolution, -⟩ := hsource conversion hmem
    rw [hconvolution]
    rfl

/-! ### Layers that share a name -/

/-- Two convolutions without names, one after the other.  Each is called like its result, so the
scale of the first one's output has the name of the scale of the second one's data. -/
def unnamed : Graph :=
  { name := "unnamed"
    opset := 9
    inputs := [.ofName "x"]
    outputs := [.ofName "v"]
    nodes := [.make .conv "" ["x", "w", "b"] ["y"], .make .conv "" ["y", "w", "b"] ["v"]]
    initializers :=
      .ofList [("w", .oneReal 4 (.powerOfTwo (-1))), ("b", .oneReal 1 (.zero false))] }

/-- Both layers find their own constants all the same. -/
theorem quantize_resolves_unnamed :
    unnamed.validate = .ok () ∧ Fresh unnamed ∧ ∃ report, quantize {} unnamed = .ok report ∧
      ∃ blocks, Spliced unnamed report blocks ∧ (conversions blocks).length = 2 ∧
        (∀ conversion ∈ conversions blocks, Resolves unnamed report.graph {} conversion) := by
  have hvalidate : unnamed.validate = .ok () := by decide +kernel
  have hfresh : Fresh unnamed := by decide +kernel
  have hquantize : (quantize {} unnamed).isOk = true := by decide +kernel
  cases hreport : quantize {} unnamed with
  | error fault =>
    rw [hreport] at hquantize
    cases hquantize
  | ok report =>
    obtain ⟨blocks, hspliced, hnodes, hresolves, -, -⟩ := quantize_resolves hvalidate hfresh hreport
    have hlength := congrArg List.length hnodes
    rw [List.length_map] at hlength
    exact ⟨hvalidate, hfresh, report, rfl, blocks, hspliced, hlength, hresolves⟩

end DyadicNet.Quantize
