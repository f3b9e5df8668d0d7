import Mathlib
import DyadicNet.Proofs.Config
import DyadicNet.Proofs.Quantize.Preservation

/-!
# The blocks of a converted graph

A conversion goes over the nodes once.  Each node of the old graph becomes a **block** of the new
one: a node that stays is its own block, and a convolution is replaced by up to three nodes.  A run
of the walk is a sequence of steps, one for each block, and whatever holds between two blocks
follows from what one step does.

The one thing that ties a block to the blocks before it is where its data is quantized.  A tensor
is quantized by **the first node that quantizes it**, be it a quantizer of the graph or a
convolution for which one is put in, and the walk always knows which one this was.

## Main Definitions

* `Conversion`, `Block` — what stands for a node;
* `Conversion.WellFormed` — the shape of the nodes that stand for a convolution;
* `Step`, `Steps` — one step of the walk, and a walk up to some block;
* `Quantizes` — that a node has a tensor quantized;
* `Walk.All` — a property of the parameters of a walk;
* `Walk.Known` — that the walk knows the first such node;
* `Spliced` — a graph that consists of blocks.

## Main Statements

* `steps_of_nodes`, `Steps.at` — a walk is a sequence of steps, and each block has its own;
* `wellFormed_of_step`, `extendsBy_of_step`, `all_of_step` — what one step does;
* `known_of_steps` — the quantizers of a walk;
* `exists_steps` — a conversion that succeeds is a walk.
-/

namespace DyadicNet.Quantize

/-! ### Blocks -/

/-- A convolution, the nodes that it is replaced by, and what is reported for it. -/
structure Conversion where
  /-- The convolution. -/
  node : Node
  /-- The node that is put in for its data, unless the data has a quantizer already. -/
  quantizer : Option Node
  /-- The quantized convolution. -/
  convolution : Node
  /-- The node that turns the result back into real numbers. -/
  dequantizer : Node
  report : LayerReport

namespace Conversion

/-- The nodes that a convolution is replaced by, in their order. -/
def nodes (conversion : Conversion) : List Node :=
  conversion.quantizer.toList ++ [conversion.convolution, conversion.dequantizer]

/-- The constants that were put in: what the inserted nodes read besides their data. -/
def constants (conversion : Conversion) : List String :=
  conversion.quantizer.toList.flatMap (·.inputs.drop 1) ++ conversion.convolution.inputs.drop 3
    ++ conversion.dequantizer.inputs.drop 1

/-- The shape of the nodes that stand for a convolution.  Each reads what the one before it gives;
the data of the convolution goes in, and its result comes out. -/
structure WellFormed (conversion : Conversion) : Prop where
  operator_eq : conversion.node.operator = .conv
  quantizer : ∀ quantizer ∈ conversion.quantizer, quantizer.operator = .quantizeLinear ∧
    quantizer.input? 0 = conversion.node.input? 0 ∧
    ∃ name, quantizer.outputs = [name] ∧ conversion.convolution.inputs.head? = some name
  convolution_operator : conversion.convolution.operator = .qlinearConv
  attributes_eq : conversion.convolution.attributes = conversion.node.attributes
  dequantizer_operator : conversion.dequantizer.operator = .dequantizeLinear
  result_eq : ∃ name, conversion.convolution.outputs = [name] ∧
    conversion.dequantizer.inputs.head? = some name
  output_eq : ∃ output, conversion.node.output? = some output ∧
    conversion.dequantizer.outputs = [output]
  label_eq : conversion.report.node = conversion.node.label

end Conversion

/-- What stands for a node of the old graph. -/
inductive Block where
  /-- The node itself. -/
  | kept (node : Node)
  /-- The node is a convolution, which is replaced. -/
  | converted (conversion : Conversion)

namespace Block

/-- The node of the old graph. -/
def source : Block → Node
  | kept node => node
  | converted conversion => conversion.node

/-- The nodes of the new graph. -/
def nodes : Block → List Node
  | kept node => [node]
  | converted conversion => conversion.nodes

/-- The conversion that a block is. -/
def conversion? : Block → Option Conversion
  | kept _ => none
  | converted conversion => some conversion

/-- The constants that were put in. -/
def constants : Block → List String
  | kept _ => []
  | converted conversion => conversion.constants

/-- A node stays unless it is a convolution. -/
def WellFormed : Block → Prop
  | kept node => node.operator ≠ .conv
  | converted conversion => conversion.WellFormed

end Block

/-- The converted convolutions in their order. -/
def conversions (blocks : List Block) : List Conversion :=
  blocks.filterMap Block.conversion?

/-- The number of convolutions in a list of nodes. -/
def convCount (nodes : List Node) : ℕ :=
  nodes.countP fun node => node.operator == .conv

variable {graph : Graph} {config : Config} {types : Types} {totalBits : ℕ} {report : Report}
  {start walk walk' last : Walk} {block : Block} {blocks front : List Block}
  {conversion : Conversion}

theorem mem_conversions : conversion ∈ conversions blocks ↔ .converted conversion ∈ blocks := by
  unfold conversions
  rw [List.mem_filterMap]
  constructor
  · rintro ⟨block, hblock, hconversion⟩
    cases block with
    | kept node => cases hconversion
    | converted other =>
      obtain rfl := Option.some_inj.mp hconversion
      exact hblock
  · exact fun h => ⟨_, h, rfl⟩

theorem conversions_append :
    conversions (blocks ++ front) = conversions blocks ++ conversions front :=
  List.filterMap_append

theorem conversions_concat_kept {node : Node} :
    conversions (blocks ++ [.kept node]) = conversions blocks := by
  rw [conversions_append]
  exact List.append_nil _

theorem conversions_concat_converted :
    conversions (blocks ++ [.converted conversion]) = conversions blocks ++ [conversion] :=
  conversions_append

/-- The converted convolutions are the convolutions of the old graph. -/
theorem map_node_conversions (h : ∀ block ∈ blocks, block.WellFormed) :
    (conversions blocks).map Conversion.node
      = (blocks.map Block.source).filter fun node => node.operator == .conv := by
  induction blocks with
  | nil => rfl
  | cons block rest ih =>
    have hblock := h block List.mem_cons_self
    have hrest := ih fun other hother => h other (List.mem_cons_of_mem _ hother)
    rw [List.map_cons, List.filter_cons]
    cases block with
    | kept node =>
      rw [if_neg (by simpa [Block.source, Block.WellFormed] using hblock)]
      exact hrest
    | converted conversion =>
      rw [if_pos (by simpa [Block.source] using hblock.operator_eq), ← hrest]
      rfl

theorem length_conversions (h : ∀ block ∈ blocks, block.WellFormed) :
    (conversions blocks).length = convCount (blocks.map Block.source) := by
  rw [← List.length_map Conversion.node, map_node_conversions h, convCount,
    List.countP_eq_length_filter]

/-! ### Steps -/

/-- The layer of an analyzed convolution comes from the constants that the convolution names. -/
theorem constants_of_analyzeConv {node : Node} {analyzed : Analyzed} {totalBits : ℕ}
    (h : analyzeConv graph totalBits node = .ok analyzed) :
    ∃ weights bias, node.input? 1 = some analyzed.weights ∧ node.input? 2 = some analyzed.bias ∧
      graph.initializers.get? analyzed.weights = some weights ∧
      graph.initializers.get? analyzed.bias = some bias ∧
      analyze node.label weights bias totalBits = .ok analyzed.layer := by
  have hconstant : ∀ name tensor, constant? graph node name = .ok tensor →
      graph.initializers.get? name = some tensor := by
    intro name tensor hname
    unfold constant? at hname
    split at hname
    · next found hget => exact hget.trans (congrArg some (Except.ok.inj hname))
    · cases hname
  unfold analyzeConv at h
  simp only [bind_eq_ok_iff, orFault_eq_ok_iff, Except.ok.injEq] at h
  obtain ⟨_, -, _, hweightName, _, hbiasName, _, -, weights, hweights, bias, hbias, layer, hlayer,
    rfl⟩ := h
  exact ⟨weights, bias, hweightName, hbiasName, hconstant _ _ hweights, hconstant _ _ hbias, hlayer⟩

/-- One step of the walk, over the node of a block. -/
inductive Step (graph : Graph) (types : Types) (totalBits : ℕ) : Walk → Block → Walk → Prop
  | keep {walk walk' : Walk} {node : Node} (hnode : node.operator ≠ .conv)
      (hkeep : walk.keep graph node = .ok walk') :
      Step graph types totalBits walk (.kept node) walk'
  | convert {walk middle : Walk} {node : Node} {analyzed : Analyzed} {source : Quantizer}
      {quantize : List Node} {output : Params} {derived : Derived} {report : LayerReport}
      (hnode : node.operator = .conv) (hanalyzed : analyzeConv graph totalBits node = .ok analyzed)
      (hsource : walk.source types node.label analyzed.input = .ok (middle, source, quantize))
      (houtput : propagateScale? node.label source.params analyzed.layer.stats.meanAbsValue
        totalBits = .ok output)
      (hderived : Walk.addLayer types middle.derived node.label analyzed.layer output = .ok derived)
      (hreport : report = ⟨node.label, analyzed.layer.format, source.params, output,
        analyzed.layer.stats⟩) :
      Step graph types totalBits walk
        (.converted ⟨node, quantize.head?, Walk.convolution node source,
          Walk.dequantizer node analyzed.output, report⟩)
        { middle with
          derived
          propagated := output
          superseded := analyzed.weights :: analyzed.bias :: middle.superseded
          layers := middle.layers ++ [report] }

/-- A walk over the nodes of some blocks. -/
inductive Steps (graph : Graph) (types : Types) (totalBits : ℕ) (start : Walk) :
    List Block → Walk → Prop
  | nil : Steps graph types totalBits start [] start
  | snoc {blocks : List Block} {walk walk' : Walk} {block : Block}
      (hsteps : Steps graph types totalBits start blocks walk)
      (hstep : Step graph types totalBits walk block walk') :
      Steps graph types totalBits start (blocks ++ [block]) walk'

/-- The nodes that are put in for the data of a convolution are at most one. -/
theorem toList_head?_of_source {label input : String} {source : Quantizer} {quantize : List Node}
    (h : walk.source types label input = .ok (walk', source, quantize)) :
    quantize.head?.toList = quantize := by
  rcases Walk.source_eq_ok h with ⟨-, -, rfl⟩ | ⟨_, -, -, -, -, rfl⟩
  · rfl
  · rfl

/-- What the walk does with a node is a step. -/
theorem step_of_node {entry : Node × Option Analyzed} {nodes : List Node}
    (htagged : Tagged graph totalBits entry)
    (h : walk.node graph types totalBits entry = .ok (walk', nodes)) :
    ∃ block, Step graph types totalBits walk block walk' ∧ block.source = entry.1 ∧
      block.nodes = nodes := by
  obtain ⟨node, tag⟩ := entry
  cases tag with
  | none =>
    obtain ⟨kept, hkeep, heq⟩ := map_eq_ok_iff.mp h
    obtain ⟨rfl, rfl⟩ := Prod.mk.inj heq
    exact ⟨.kept node, .keep htagged hkeep, rfl, rfl⟩
  | some analyzed =>
    obtain ⟨middle, source, quantize, output, derived, hsource, houtput, hderived, rfl, rfl⟩ :=
      Walk.conv_eq_ok h
    refine ⟨_, .convert htagged.1 htagged.2 hsource houtput hderived rfl, rfl, ?_⟩
    show quantize.head?.toList ++ _ = _
    rw [toList_head?_of_source hsource]

/-- **A walk is a sequence of steps**, and its nodes are those of the blocks. -/
theorem steps_of_nodes {tagged : List (Node × Option Analyzed)} {nodes : List Node}
    (hdone : Steps graph types totalBits start front walk)
    (htagged : ∀ entry ∈ tagged, Tagged graph totalBits entry)
    (h : walk.nodes graph types totalBits tagged = .ok (last, nodes)) :
    ∃ blocks, Steps graph types totalBits start (front ++ blocks) last ∧
      blocks.map Block.source = tagged.map (·.1) ∧ blocks.flatMap Block.nodes = nodes := by
  induction tagged generalizing walk front nodes with
  | nil =>
    cases h
    exact ⟨[], by rwa [List.append_nil], rfl, rfl⟩
  | cons entry rest ih =>
    obtain ⟨middle, here, after, hnode, hrest, rfl⟩ := Walk.nodes_cons h
    obtain ⟨block, hstep, hsource, hhere⟩ := step_of_node (htagged entry List.mem_cons_self) hnode
    obtain ⟨blocks, hsteps, hsources, hafter⟩ := ih (hdone.snoc hstep)
      (fun other hother => htagged other (List.mem_cons_of_mem _ hother)) hrest
    refine ⟨block :: blocks, ?_, ?_, ?_⟩
    · rwa [List.append_cons]
    · rw [List.map_cons, List.map_cons, hsource, hsources]
    · rw [List.flatMap_cons, hhere, hafter]

/-- **Each block has its step**, from where the walk was after the blocks before it. -/
theorem Steps.at (h : Steps graph types totalBits start blocks last) {back : List Block}
    (hblocks : blocks = front ++ block :: back) :
    ∃ walk walk', Steps graph types totalBits start front walk ∧
      Step graph types totalBits walk block walk' := by
  induction h generalizing back with
  | nil => simp at hblocks
  | @snoc done walk walk' new hsteps hstep ih =>
    rcases List.eq_nil_or_concat' back with rfl | ⟨before, final, rfl⟩
    · obtain ⟨rfl, hnew⟩ := List.append_inj' hblocks rfl
      obtain rfl := List.singleton_inj.mp hnew
      exact ⟨walk, walk', hsteps, hstep⟩
    · rw [← List.cons_append, ← List.append_assoc] at hblocks
      obtain ⟨hdone, -⟩ := List.append_inj' hblocks rfl
      exact ih hdone

/-- What holds of every block that a step gives holds of the blocks of a walk. -/
theorem Steps.forall_block {P : Block → Prop}
    (hP : ∀ walk block walk', Step graph types totalBits walk block walk' → P block)
    (h : Steps graph types totalBits start blocks last) : ∀ block ∈ blocks, P block := by
  intro block hblock
  obtain ⟨front, back, hsplit⟩ := List.append_of_mem hblock
  obtain ⟨walk, walk', -, hstep⟩ := h.at hsplit
  exact hP walk block walk' hstep

/-! ### The shape of a block -/

/-- A quantizer that is put in quantizes the data of its convolution. -/
theorem node_derived {input : String} {params : Params} (hinput : input ≠ "") :
    ((Quantizer.derived input params).node input).input? 0 = some input := by
  simp [Quantizer.node, Node.make, Node.input?, hinput]

/-- **A step gives a block of the right shape.** -/
theorem wellFormed_of_step (h : Step graph types totalBits walk block walk') :
    block.WellFormed := by
  cases h with
  | keep hnode _ => exact hnode
  | @convert middle node analyzed source quantize _ _ _ hnode hanalyzed hsource _ _ hreport =>
    have hspec := spec_of_analyzeConv hanalyzed
    refine ⟨hnode, ?_, rfl, rfl, rfl, ⟨_, rfl, rfl⟩, ⟨_, hspec.output_eq, rfl⟩, by rw [hreport]⟩
    intro quantizer hquantizer
    rcases Walk.source_eq_ok hsource with ⟨-, -, rfl⟩ | ⟨_, -, rfl, -, -, rfl⟩
    · cases hquantizer
    · obtain rfl := Option.some_inj.mp hquantizer
      refine ⟨rfl, ?_, _, rfl, rfl⟩
      rw [node_derived (Graph.mem_inputs_of_input? hspec.input_eq).2]
      exact hspec.input_eq.symm

/-- There is no convolution among the nodes of a block. -/
theorem Block.operator_ne_conv (h : block.WellFormed) {node : Node} (hnode : node ∈ block.nodes) :
    node.operator ≠ .conv := by
  cases block with
  | kept other =>
    obtain rfl := List.mem_singleton.mp hnode
    exact h
  | converted conversion =>
    have hwell : conversion.WellFormed := h
    simp only [Block.nodes, Conversion.nodes, List.mem_append, Option.mem_toList, List.mem_cons,
      List.not_mem_nil, or_false] at hnode
    rcases hnode with hquantizer | rfl | rfl
    · rw [(hwell.quantizer node hquantizer).1]
      exact nofun
    · rw [hwell.convolution_operator]
      exact nofun
    · rw [hwell.dequantizer_operator]
      exact nofun

theorem wellFormed_of_steps (h : Steps graph types totalBits start blocks last) :
    ∀ block ∈ blocks, block.WellFormed :=
  h.forall_block fun _ _ _ => wellFormed_of_step

/-- The layers of a walk are what its blocks report. -/
theorem layers_of_steps (h : Steps graph types totalBits start blocks walk) :
    walk.layers = start.layers ++ (conversions blocks).map Conversion.report := by
  induction h with
  | nil => exact (List.append_nil _).symm
  | snoc hsteps hstep ih =>
    cases hstep with
    | keep _ hkeep => rw [Walk.keep_layers hkeep, ih, conversions_concat_kept]
    | convert _ _ hsource _ _ _ =>
      rw [conversions_concat_converted, List.map_append, ← List.append_assoc, ← ih,
        ← Walk.source_layers hsource]
      rfl

/-! ### What a step adds -/

/-- The constants of a layer are added under the names that a convolution introduces for them. -/
theorem extendsBy_of_addLayer {derived derived' : Derived} {label : String} {layer : Layer}
    {output : Params} (h : Walk.addLayer types derived label layer output = .ok derived') :
    Derived.ExtendsBy (layerNames label) derived derived' := by
  unfold Walk.addLayer at h
  simp only [bind_eq_ok_iff] at h
  obtain ⟨_, hweights, _, hweightParams, _, houtputParams, _, hbias, hresultParams⟩ := h
  exact ((((Derived.extendsBy_of_add? hweights).trans
    (Derived.extendsBy_of_addParams? hweightParams)).trans
    (Derived.extendsBy_of_addParams? houtputParams)).trans (Derived.extendsBy_of_add? hbias)).trans
    (Derived.extendsBy_of_addParams? hresultParams)

/-- The constants that a convolution gets for its data are those that its quantizer reads. -/
theorem extendsBy_of_source {middle : Walk} {label input : String} {source : Quantizer}
    {quantize : List Node}
    (h : walk.source types label input = .ok (middle, source, quantize)) :
    Derived.ExtendsBy (quantize.head?.toList.flatMap (·.inputs.drop 1)) walk.derived
      middle.derived := by
  rcases Walk.source_eq_ok h with ⟨-, rfl, rfl⟩ | ⟨_, -, rfl, hderived, rfl, rfl⟩
  · exact Derived.ExtendsBy.refl _
  · exact Derived.extendsBy_of_addParams? hderived

/-- A node that stays changes nothing but the record of quantizers. -/
theorem eq_with_of_keep {node : Node} (h : walk.keep graph node = .ok walk') :
    ∃ quantizers, walk' = { walk with quantizers } := by
  rcases Walk.keep_eq_ok h with ⟨rfl, -⟩ | ⟨_, _, _, _, _, -, -, -, -, -, -, -, rfl⟩
  · exact ⟨_, rfl⟩
  · exact ⟨_, rfl⟩

/-- **A step adds the constants of its block.** -/
theorem extendsBy_of_step (h : Step graph types totalBits walk block walk') :
    Derived.ExtendsBy block.constants walk.derived walk'.derived := by
  cases h with
  | keep _ hkeep =>
    obtain ⟨quantizers, rfl⟩ := eq_with_of_keep hkeep
    exact Derived.ExtendsBy.refl _
  | @convert _ node analyzed source quantize _ _ report _ _ hsource _ hderived _ =>
    -- the layer's constants are read by the quantized convolution and by the node after it
    have hconstants : Conversion.constants ⟨node, quantize.head?, Walk.convolution node source,
        Walk.dequantizer node analyzed.output, report⟩
          = quantize.head?.toList.flatMap (·.inputs.drop 1) ++ layerNames node.label :=
      List.append_assoc _ _ _
    rw [Block.constants, hconstants]
    exact (extendsBy_of_source hsource).trans (extendsBy_of_addLayer hderived)

/-! ### Scales -/

/-- Whatever parameters a walk propagates or notes have a property. -/
structure Walk.All (P : Params → Prop) (walk : Walk) : Prop where
  propagated : P walk.propagated
  quantizers : ∀ input quantizer, walk.quantizers.lookup input = some quantizer →
    P quantizer.params

section All

variable {P : Params → Prop}

/-- The quantizer of a tensor has parameters that were noted or are propagated. -/
theorem all_of_source {middle : Walk} {label input : String} {source : Quantizer}
    {quantize : List Node} (h : walk.All P)
    (hsource : walk.source types label input = .ok (middle, source, quantize)) :
    middle.All P ∧ P source.params := by
  rcases Walk.source_eq_ok hsource with ⟨hknown, rfl, -⟩ | ⟨_, -, rfl, -, rfl, -⟩
  · exact ⟨h, h.quantizers input source hknown⟩
  · exact ⟨⟨h.propagated, forall_lookup_concat h.quantizers h.propagated⟩, h.propagated⟩

/-- **A step keeps a property** that the quantizers of the graph have and all outputs get. -/
theorem all_of_step
    (hquantizer : block.source.operator = .quantizeLinear → ∀ label scale zeroPoint params,
      Params.ofConstants? graph label scale zeroPoint = .ok params → P params)
    (houtput : ∀ node input mean output,
      propagateScale? node input mean totalBits = .ok output → P output)
    (h : walk.All P) (hstep : Step graph types totalBits walk block walk') : walk'.All P := by
  cases hstep with
  | keep _ hkeep =>
    rcases Walk.keep_eq_ok hkeep with ⟨rfl, -⟩ | ⟨_, _, _, _, _, hquantize, -, -, -, -, -, hparams,
      rfl⟩
    · exact h
    · exact ⟨h.propagated,
        forall_lookup_concat h.quantizers (hquantizer hquantize _ _ _ _ hparams)⟩
  | convert _ _ hsource hpropagate _ _ =>
    exact ⟨houtput _ _ _ _ hpropagate, (all_of_source h hsource).1.quantizers⟩

theorem all_of_steps
    (hquantizers : ∀ block ∈ blocks, block.source.operator = .quantizeLinear →
      ∀ label scale zeroPoint params,
        Params.ofConstants? graph label scale zeroPoint = .ok params → P params)
    (houtput : ∀ node input mean output,
      propagateScale? node input mean totalBits = .ok output → P output)
    (hstart : start.All P) (h : Steps graph types totalBits start blocks walk) : walk.All P := by
  induction h with
  | nil => exact hstart
  | snoc _ hstep ih =>
    exact all_of_step (hquantizers _ (List.mem_append_right _ List.mem_cons_self)) houtput
      (ih fun block hblock => hquantizers block (List.mem_append_left _ hblock)) hstep

/-- The data of a converted convolution has the property too. -/
theorem all_of_conversion
    (hquantizers : ∀ block ∈ blocks, block.source.operator = .quantizeLinear →
      ∀ label scale zeroPoint params,
        Params.ofConstants? graph label scale zeroPoint = .ok params → P params)
    (houtput : ∀ node input mean output,
      propagateScale? node input mean totalBits = .ok output → P output)
    (hstart : start.All P) (h : Steps graph types totalBits start blocks last)
    (hmem : conversion ∈ conversions blocks) :
    P conversion.report.input ∧ P conversion.report.output := by
  obtain ⟨front, back, hsplit⟩ := List.append_of_mem (mem_conversions.mp hmem)
  obtain ⟨walk, walk', hbefore, hstep⟩ := h.at hsplit
  have hall := all_of_steps (fun block hblock =>
    hquantizers block (hsplit ▸ List.mem_append_left _ hblock)) houtput hstart hbefore
  cases hstep with
  | convert _ _ hsource hpropagate _ hreport =>
    subst hreport
    exact ⟨(all_of_source hall hsource).2, houtput _ _ _ _ hpropagate⟩

end All

/-- Whatever a walk propagates or notes has a power of two as its scale. -/
structure Walk.Dyadic (walk : Walk) : Prop where
  propagated : walk.propagated.Valid
  quantizers : ∀ input quantizer, walk.quantizers.lookup input = some quantizer →
    quantizer.params.Valid

theorem Walk.dyadic_iff : walk.Dyadic ↔ walk.All Params.Valid :=
  ⟨fun h => ⟨h.propagated, h.quantizers⟩, fun h => ⟨h.propagated, h.quantizers⟩⟩

/-- The quantizer of a tensor has a power of two as its scale, be it a new one or not. -/
theorem dyadic_of_source {middle : Walk} {label : String} {source : Quantizer}
    {quantize : List Node} (h : walk.Dyadic)
    (hsource : walk.source types label input = .ok (middle, source, quantize)) :
    middle.Dyadic ∧ source.params.Valid :=
  let ⟨hmiddle, hvalid⟩ := all_of_source (Walk.dyadic_iff.mp h) hsource
  ⟨Walk.dyadic_iff.mpr hmiddle, hvalid⟩

theorem dyadic_of_steps (hstart : start.Dyadic)
    (h : Steps graph types totalBits start blocks walk) : walk.Dyadic :=
  Walk.dyadic_iff.mpr <| all_of_steps
    (fun _ _ _ _ _ _ _ hparams => Params.valid_of_ofConstants? hparams)
    (fun _ _ _ _ houtput => valid_of_propagateScale? houtput) (Walk.dyadic_iff.mp hstart) h

/-! ### Who quantizes a tensor -/

/-- A node is a quantizer of a tensor and has everything that one needs. -/
structure CompleteQuantizer (input : String) (node : Node) : Prop where
  operator_eq : node.operator = .quantizeLinear
  input_eq : node.input? 0 = some input
  scale : (node.input? 1).isSome = true
  zeroPoint : (node.input? 2).isSome = true
  output : node.output?.isSome = true

/-- A node has a tensor quantized: it is a convolution of the tensor, or a complete quantizer. -/
def Quantizes (input : String) (node : Node) : Prop :=
  (node.operator = .conv ∧ node.input? 0 = some input) ∨ CompleteQuantizer input node

/-- The tensor that a node has quantized is its first operand. -/
theorem Quantizes.input_eq {input : String} {node : Node} (h : Quantizes input node) :
    node.input? 0 = some input := by
  rcases h with ⟨-, hinput⟩ | hcomplete
  · exact hinput
  · exact hcomplete.input_eq

/-- A block is where a quantizer of a tensor comes from. -/
inductive Supplies (graph : Graph) (input : String) (quantizer : Quantizer) : Block → Prop
  /-- The graph has it. -/
  | existing {node : Node} (hcomplete : CompleteQuantizer input node)
      (houtput : node.output? = some quantizer.output)
      (hscale : node.input? 1 = some quantizer.scale)
      (hzero : node.input? 2 = some quantizer.zeroPoint)
      (hparams : Params.ofConstants? graph node.label quantizer.scale quantizer.zeroPoint
        = .ok quantizer.params) :
      Supplies graph input quantizer (.kept node)
  /-- It was put in for a convolution. -/
  | inserted {conversion : Conversion} (hnode : conversion.node.operator = .conv)
      (hinput : conversion.node.input? 0 = some input)
      (hquantizer : conversion.quantizer = some (quantizer.node input))
      (hderived : quantizer = .derived input conversion.report.input) :
      Supplies graph input quantizer (.converted conversion)

theorem Supplies.quantizes {input : String} {quantizer : Quantizer}
    (h : Supplies graph input quantizer block) : Quantizes input block.source := by
  cases h with
  | existing hcomplete => exact .inr hcomplete
  | inserted hnode hinput => exact .inl ⟨hnode, hinput⟩

namespace Walk

/-- The quantizer of the data of a convolution is noted. -/
theorem lookup_of_source {middle : Walk} {label input : String} {source : Quantizer}
    {quantize : List Node}
    (h : walk.source types label input = .ok (middle, source, quantize)) :
    middle.quantizers.lookup input = some source := by
  rcases source_eq_ok h with ⟨hknown, rfl, -⟩ | ⟨_, hnew, -, -, rfl, -⟩
  · exact hknown
  · rw [lookup_concat, hnew, if_pos rfl]
    rfl

/-- The walk has a quantizer for exactly those tensors that the nodes so far quantize, and it comes
from **the first of them**. -/
structure Known (graph : Graph) (done : List Block) (walk : Walk) : Prop where
  unquantized : ∀ input, walk.quantizers.lookup input = none →
    ∀ block ∈ done, ¬Quantizes input block.source
  supplied : ∀ input quantizer, walk.quantizers.lookup input = some quantizer →
    ∃ front block back, done = front ++ block :: back ∧
      (∀ other ∈ front, ¬Quantizes input other.source) ∧ Supplies graph input quantizer block

variable {done : List Block}

/-- A block whose data has a quantizer changes nothing. -/
theorem Known.of_same (h : Known graph done walk) (hsame : walk'.quantizers = walk.quantizers)
    (hblock : ∀ input, Quantizes input block.source →
      (walk.quantizers.lookup input).isSome = true) : Known graph (done ++ [block]) walk' := by
  refine ⟨?_, ?_⟩
  · intro input hnone other hother hquantizes
    rw [hsame] at hnone
    rcases List.mem_append.mp hother with hold | hnew
    · exact h.unquantized input hnone other hold hquantizes
    · obtain rfl := List.mem_singleton.mp hnew
      have hknown := hblock input hquantizes
      rw [hnone] at hknown
      cases hknown
  · intro input quantizer hlookup
    rw [hsame] at hlookup
    obtain ⟨front, first, back, rfl, hfront, hsupplies⟩ := h.supplied input quantizer hlookup
    exact ⟨front, first, back ++ [block], by simp, hfront, hsupplies⟩

/-- A block that supplies a quantizer for new data is the first one to do so. -/
theorem Known.of_noted (h : Known graph done walk) {input : String} {quantizer : Quantizer}
    (hnew : walk.quantizers.lookup input = none)
    (hnoted : walk'.quantizers = walk.quantizers ++ [(input, quantizer)])
    (hsupplies : Supplies graph input quantizer block) : Known graph (done ++ [block]) walk' := by
  refine ⟨?_, ?_⟩
  · intro other hnone node hnode hquantizes
    rw [hnoted, lookup_concat, Option.or_eq_none_iff] at hnone
    rcases List.mem_append.mp hnode with hold | hlast
    · exact h.unquantized other hnone.1 node hold hquantizes
    · obtain rfl := List.mem_singleton.mp hlast
      obtain rfl : other = input :=
        Option.some_inj.mp (hquantizes.input_eq.symm.trans hsupplies.quantizes.input_eq)
      simp at hnone
  · intro other found hfound
    rw [hnoted, lookup_concat] at hfound
    cases hold : walk.quantizers.lookup other with
    | some old =>
      rw [hold] at hfound
      obtain rfl := Option.some_inj.mp hfound
      obtain ⟨front, first, back, rfl, hfront, hfirst⟩ := h.supplied other _ hold
      exact ⟨front, first, back ++ [block], by simp, hfront, hfirst⟩
    | none =>
      rw [hold] at hfound
      split_ifs at hfound with hother
      · obtain rfl := Option.some_inj.mp hfound
        subst hother
        exact ⟨done, block, [], rfl, h.unquantized other hold, hsupplies⟩
      · cases hfound

/-- **A step knows about its block.** -/
theorem known_of_step (h : Known graph done walk)
    (hstep : Step graph types totalBits walk block walk') :
    Known graph (done ++ [block]) walk' := by
  cases hstep with
  | @keep _ node hnode hkeep =>
    rcases keep_eq_ok hkeep with ⟨rfl, hcomplete⟩ | ⟨input, output, scale, zeroPoint, params,
      hoperator, hinput, houtput, hscale, hzero, hnew, hparams, rfl⟩
    · refine h.of_same rfl ?_
      rintro input (⟨hconv, -⟩ | hquantizer)
      · exact absurd hconv hnode
      · obtain ⟨output, houtput⟩ := Option.isSome_iff_exists.mp hquantizer.output
        obtain ⟨scale, hscale⟩ := Option.isSome_iff_exists.mp hquantizer.scale
        obtain ⟨zeroPoint, hzero⟩ := Option.isSome_iff_exists.mp hquantizer.zeroPoint
        exact hcomplete input output scale zeroPoint hquantizer.operator_eq hquantizer.input_eq
          houtput hscale hzero
    · have hcomplete : CompleteQuantizer input node :=
        ⟨hoperator, hinput, by rw [hscale]; rfl, by rw [hzero]; rfl, by rw [houtput]; rfl⟩
      exact h.of_noted hnew rfl (.existing hcomplete houtput hscale hzero hparams)
  | @convert middle node analyzed source quantize _ _ _ hnode hanalyzed hsource _ _ hreport =>
    have hinput := (spec_of_analyzeConv hanalyzed).input_eq
    rcases source_eq_ok hsource with ⟨hknown, rfl, rfl⟩ | ⟨_, hnew, hderived, -, rfl, rfl⟩
    · refine h.of_same rfl ?_
      intro input hquantizes
      obtain rfl := Option.some_inj.mp (hinput.symm.trans hquantizes.input_eq)
      rw [hknown]
      rfl
    · refine h.of_noted hnew rfl (.inserted hnode hinput rfl ?_)
      rw [hreport, hderived]
      rfl

end Walk

/-- **The quantizers of a walk are those of the first nodes that quantize a tensor.** -/
theorem known_of_steps (hstart : start.quantizers = [])
    (h : Steps graph types totalBits start blocks walk) : Walk.Known graph blocks walk := by
  induction h with
  | nil =>
    refine ⟨fun _ _ _ hblock => absurd hblock List.not_mem_nil, ?_⟩
    intro input quantizer hlookup
    rw [hstart] at hlookup
    cases hlookup
  | snoc hsteps hstep ih => exact Walk.known_of_step ih hstep

/-! ### Conversions -/

/-- A new graph consists of blocks that stand for the nodes of the old one, in their order, and its
layers are what the blocks report. -/
structure Spliced (graph : Graph) (report : Report) (blocks : List Block) : Prop where
  sources_eq : blocks.map Block.source = graph.nodes
  nodes_eq : report.graph.nodes = blocks.flatMap Block.nodes
  wellFormed : ∀ block ∈ blocks, block.WellFormed
  layers_eq : report.layers = (conversions blocks).map Conversion.report

/-- The nodes of a conversion are in the new graph. -/
theorem Spliced.mem_nodes (h : Spliced graph report blocks) (hmem : conversion ∈ conversions blocks)
    {node : Node} (hnode : node ∈ conversion.nodes) : node ∈ report.graph.nodes := by
  rw [h.nodes_eq]
  exact List.mem_flatMap.mpr ⟨_, mem_conversions.mp hmem, hnode⟩

/-- A conversion checks its configuration. -/
theorem validate_of_quantize (h : quantize config graph = .ok report) :
    config.validate = .ok () := by
  unfold quantize at h
  obtain ⟨⟨⟩, hvalid, -⟩ := bind_eq_ok_iff.mp h
  exact mapError_eq_ok_iff.mp hvalid

theorem valid_of_quantize (h : quantize config graph = .ok report) : config.Valid :=
  Config.valid_of_validate (validate_of_quantize h)

/-- **A conversion that succeeds is a walk**, which starts with the scale of the network's input. -/
theorem exists_steps (h : quantize config graph = .ok report) :
    ∃ input last nodes blocks, Params.make? config.inputScale 0 = .ok input ∧
      Steps graph (.ofConfig config) config.weightBits (Walk.start graph input) blocks last ∧
      report = ⟨assemble config graph last nodes, last.layers, last.quantizeNodes⟩ ∧
      report.graph.validate = .ok () ∧ Spliced graph report blocks ∧
      (graph.validate = .ok () → Fresh graph → Converted graph report.graph last) := by
  unfold quantize at h
  obtain ⟨⟨⟩, -, h⟩ := bind_eq_ok_iff.mp h
  unfold convert at h
  obtain ⟨tagged, htagged, h⟩ := bind_eq_ok_iff.mp h
  obtain ⟨input, hinput, h⟩ := bind_eq_ok_iff.mp h
  obtain ⟨⟨last, nodes⟩, hnodes, h⟩ := bind_eq_ok_iff.mp h
  obtain ⟨⟨⟩, hvalidate, h⟩ := bind_eq_ok_iff.mp h
  cases h
  have htarget := mapError_eq_ok_iff.mp hvalidate
  obtain ⟨hsplit, htags⟩ := tagged_of_analyzeAll htagged
  obtain ⟨blocks, hsteps, hsources, hblocks⟩ := steps_of_nodes .nil htags hnodes
  rw [List.nil_append] at hsteps
  have hspliced : Spliced graph ⟨assemble config graph last nodes, last.layers, last.quantizeNodes⟩
      blocks :=
    { sources_eq := hsources.trans hsplit
      nodes_eq := hblocks.symm
      wellFormed := wellFormed_of_steps hsteps
      layers_eq := layers_of_steps hsteps }
  refine ⟨input, last, nodes, blocks, hinput, hsteps, rfl, htarget, hspliced, ?_⟩
  intro hgraph hfresh
  exact converted_assemble hfresh hgraph
    (Walk.invariant_start (Params.make?_eq_ok_iff.mp hinput).1) htags hsplit hnodes htarget

end DyadicNet.Quantize
