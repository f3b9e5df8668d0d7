import Mathlib
import DyadicNet.Proofs.Quantize.Analysis
import DyadicNet.Proofs.Quantize.References

/-!
# Graphs that can be converted

A conversion has many ways to fail: a convolution without weights, weights that are no numbers, a
quantizer with constants that are no parameters, a made-up name that is taken, and in the end a new
graph that does not pass its check.  **No other way is left** once the layers of a graph can be
analyzed and names are kept apart: a graph of this kind is converted under all settings that make
sense, and what comes out is well formed.

Names are kept apart in three respects.  No made-up name occurs in the graph; no two convolutions
share a label, and no label is the name of a convolution's data; and nothing that is dropped is still
needed.  Since a made-up name tells what it was made from, the names that are introduced at one place
of the graph are then different from those at any other.

## Main Definitions

* `Layered` — that a convolution has what its layer needs;
* `Convertible` — the conditions on a graph.

## Main Statements

* `exists_analyzeAll` — the analysis succeeds;
* `not_put_in_before` — names are introduced once;
* `Walk.exists_node`, `Walk.exists_nodes` — no step of the walk gets stuck;
* `not_written_before`, `writesOnce_assemble` — the new graph writes every name once;
* `quantize_succeeds` — the conversion succeeds.
-/

namespace DyadicNet.Quantize

variable {graph : Graph} {config : Config} {types : Types} {totalBits : ℕ}
  {start walk walk' last : Walk} {block : Block} {done blocks : List Block} {node : Node}
  {after : List Node} {name input : String} {params : Params}

/-- A convolution names its data, finite weights of which there are some, and a finite bias; and it
has one result. -/
structure Layered (graph : Graph) (node : Node) : Prop where
  data : (node.input? 0).isSome = true
  weights : ∃ name ∈ node.input? 1, ∃ tensor ∈ graph.initializers.get? name,
    isFiniteReal tensor = true ∧ tensor.size ≠ 0
  bias : ∃ name ∈ node.input? 2, ∃ tensor ∈ graph.initializers.get? name,
    isFiniteReal tensor = true
  result : node.outputs.length = 1

/-- The layers of a graph can be analyzed, its quantizers have parameters, and its names are kept
apart. -/
structure Convertible (graph : Graph) : Prop where
  layers : ∀ node ∈ graph.nodes, node.operator = .conv → Layered graph node
  /-- The constants of a quantizer that has all its operands are parameters. -/
  quantizers : ∀ node ∈ graph.nodes, node.operator = .quantizeLinear →
    (node.input? 0).isSome = true → ∀ scale ∈ node.input? 1, ∀ zeroPoint ∈ node.input? 2,
      Params.Constants graph scale zeroPoint
  /-- No two convolutions share a label. -/
  labels : ((graph.nodes.filter fun node => node.operator == .conv).map Node.label).Nodup
  /-- No label of a convolution is the name of a convolution's data. -/
  apart : ∀ m ∈ graph.nodes, m.operator = .conv → ∀ n ∈ graph.nodes, n.operator = .conv →
    n.input? 0 ≠ some m.label
  selfContained : SelfContained graph
  fresh : Fresh graph

instance (graph : Graph) (node : Node) : Decidable (Layered graph node) :=
  decidable_of_iff (_ ∧ _ ∧ _ ∧ _)
    ⟨fun ⟨data, weights, bias, result⟩ => ⟨data, weights, bias, result⟩,
      fun ⟨data, weights, bias, result⟩ => ⟨data, weights, bias, result⟩⟩

instance (graph : Graph) : Decidable (Convertible graph) :=
  decidable_of_iff (_ ∧ _ ∧ _ ∧ _ ∧ _ ∧ _)
    ⟨fun ⟨layers, quantizers, labels, apart, selfContained, fresh⟩ =>
        ⟨layers, quantizers, labels, apart, selfContained, fresh⟩,
      fun ⟨layers, quantizers, labels, apart, selfContained, fresh⟩ =>
        ⟨layers, quantizers, labels, apart, selfContained, fresh⟩⟩

/-! ### The analysis -/

theorem exists_analyzeConv (hpos : 1 ≤ totalBits) (hwidth : totalBits ≤ 32)
    (h : Layered graph node) : ∃ analyzed, analyzeConv graph totalBits node = .ok analyzed := by
  obtain ⟨data, hdata⟩ := Option.isSome_iff_exists.mp h.data
  obtain ⟨weightName, hweightName, weights, hweights, hfinite, hsome⟩ := h.weights
  obtain ⟨biasName, hbiasName, bias, hbias, hbiasFinite⟩ := h.bias
  obtain ⟨output, houtput⟩ := List.length_eq_one_iff.mp h.result
  obtain ⟨layer, hlayer⟩ := exists_analyze node.label hpos hwidth hfinite hbiasFinite hsome
  have hconstant : ∀ name tensor, graph.initializers.get? name = some tensor →
      constant? graph node name = .ok tensor := by
    intro name tensor hname
    unfold constant?
    rw [hname]
  refine ⟨⟨data, weightName, biasName, output, layer⟩, ?_⟩
  unfold analyzeConv
  simp only [bind_eq_ok_iff, orFault_eq_ok_iff]
  exact ⟨_, hdata, _, hweightName, _, hbiasName, output, by unfold Node.output?; rw [houtput]; rfl,
    _, hconstant _ _ hweights, _, hconstant _ _ hbias, _, hlayer, rfl⟩

/-- **All layers can be analyzed.** -/
theorem exists_analyzeAll (hpos : 1 ≤ totalBits) (hwidth : totalBits ≤ 32)
    (h : Convertible graph) : ∃ tagged, analyzeAll graph totalBits = .ok tagged := by
  refine exists_mapM fun node hnode => ?_
  split_ifs with hconv
  · obtain ⟨analyzed, hanalyzed⟩ := exists_analyzeConv hpos hwidth (h.layers node hnode hconv)
    exact ⟨(node, some analyzed), map_eq_ok_iff.mpr ⟨analyzed, hanalyzed, rfl⟩⟩
  · exact ⟨(node, none), rfl⟩

/-! ### Names are introduced once -/

/-- A convolution has another label than those before it. -/
theorem Convertible.label_ne (h : Convertible graph) {before : List Node} {other : Node}
    (hsplit : graph.nodes = before ++ node :: after) (hother : other ∈ before)
    (hconv : other.operator = .conv) (hnode : node.operator = .conv) :
    node.label ≠ other.label := by
  have hlabels := h.labels
  rw [hsplit, List.filter_append, List.map_append, List.nodup_append] at hlabels
  refine (hlabels.2.2 other.label ?_ node.label ?_).symm
  · exact List.mem_map_of_mem (List.mem_filter.mpr ⟨hother, beq_iff_eq.mpr hconv⟩)
  · exact List.mem_map_of_mem (List.mem_filter.mpr ⟨List.mem_cons_self, beq_iff_eq.mpr hnode⟩)

/-- **What a node introduces was not put in before it.**  A name tells the label or the data that it
was made from; labels are distinct, data is quantized once, and the two are different. -/
theorem not_put_in_before (h : Convertible graph) (hstart : start.quantizers = [])
    (hsteps : Steps graph types totalBits start done walk)
    (hsplit : graph.nodes = done.map Block.source ++ node :: after)
    (hname : name ∈ introduced (recorded (done.map Block.source)) node) :
    ∀ conversion ∈ conversions done, ¬(name ∈ conversion.constants ∨ name ∈ conversion.results) := by
  intro conversion hconversion hmem
  obtain ⟨before, other, between, hdone, hother⟩ :=
    (exists_introduced_iff hstart hsteps).mpr ⟨conversion, hconversion, hmem⟩
  have hbefore : other ∈ done.map Block.source := hdone ▸ List.mem_append_right _ List.mem_cons_self
  have hotherMem : other ∈ graph.nodes := hsplit ▸ List.mem_append_left _ hbefore
  have hnodeMem : node ∈ graph.nodes := hsplit ▸ List.mem_append_right _ List.mem_cons_self
  obtain ⟨hnode, hlabel | ⟨input, hinput, hnew, hmade⟩⟩ := madeFrom_of_introduced hname
  · obtain ⟨hconv, hlabel' | ⟨input', hinput', -, hmade'⟩⟩ := madeFrom_of_introduced hother
    · exact h.label_ne hsplit hbefore hconv hnode (hlabel.unique hlabel')
    · obtain rfl := hlabel.unique hmade'
      exact h.apart node hnodeMem hnode other hotherMem hconv hinput'
  · obtain ⟨hconv, hlabel' | ⟨input', hinput', -, hmade'⟩⟩ := madeFrom_of_introduced hother
    · obtain rfl := hmade.unique hlabel'
      exact h.apart other hotherMem hconv node hnodeMem hnode hinput
    · -- data that an earlier convolution quantized would be on record
      obtain rfl := hmade.unique hmade'
      have hlookup : walk.quantizers.lookup input = none := by
        rwa [records_of_steps hstart hsteps, Option.map_eq_none_iff] at hnew
      obtain ⟨block, hblock, rfl⟩ := List.mem_map.mp hbefore
      exact (known_of_steps hstart hsteps).unquantized input hlookup block hblock
        (.inl ⟨hconv, hinput'⟩)

/-- So there is room for the constants that a node introduces. -/
theorem hasRoom_of_introduced (h : Convertible graph)
    (hsteps : Steps graph types totalBits (Walk.start graph params) done walk)
    (hsplit : graph.nodes = done.map Block.source ++ node :: after) {names : List String}
    (hnodup : names.Nodup)
    (hnames : names ⊆ introduced (recorded (done.map Block.source)) node) :
    walk.derived.HasRoom names := by
  have haccounts := accounts_of_steps hsteps
  refine ⟨hnodup, ?_, ?_⟩
  · intro name hname hmem
    obtain ⟨conversion, hconversion, hconstant⟩ := (haccounts.mem_names_iff name).mp hmem
    exact not_put_in_before h rfl hsteps hsplit (hnames hname) conversion hconversion
      (.inl hconstant)
  · intro name hname hmem
    rw [haccounts.reserved_eq] at hmem
    exact h.fresh _ _ _ hsplit name (hnames hname) (mem_occurringNames_of_constant hmem)

/-! ### No step gets stuck -/

/-- The nodes of a graph around a block, which is the last one or the next one. -/
theorem map_source_concat (done : List Block) (block : Block) (after : List Node) :
    (done ++ [block]).map Block.source ++ after
      = done.map Block.source ++ block.source :: after := by
  rw [List.map_append, List.append_assoc]
  rfl

namespace Walk

variable {weightType activationType : IntType}

/-- The constants of a layer can be added where there is room. -/
theorem exists_addLayer {derived : Derived} {label : String} (layer : Layer) {output : Params}
    (hroom : derived.HasRoom (layerNames label)) (hvalid : output.Valid) :
    ∃ derived', addLayer ⟨.int weightType, .int activationType⟩ derived label layer output
      = .ok derived' := by
  obtain ⟨d₁, h₁, hroom⟩ := hroom.add label layer.weights
  obtain ⟨d₂, h₂, hroom⟩ := hroom.addParams label layer.valid_params weightType
  obtain ⟨d₃, h₃, hroom⟩ := hroom.addParams label hvalid activationType
  obtain ⟨d₄, h₄, hroom⟩ := hroom.add label layer.bias
  obtain ⟨d₅, h₅, -⟩ := hroom.addParams label hvalid activationType
  refine ⟨d₅, ?_⟩
  unfold addLayer
  simp only [bind_eq_ok_iff]
  exact ⟨d₁, h₁, d₂, h₂, d₃, h₃, d₄, h₄, h₅⟩

/-- The data of a convolution gets a quantizer, and there is still room for the layer. -/
theorem exists_source (hnode : node.operator = .conv) (hinput : node.input? 0 = some input)
    {names : List (String × String)} (hrecords : Records names walk)
    (hpropagated : walk.propagated.Valid)
    (hroom : ∀ added : List String, added.Nodup → added ⊆ introduced names node →
      walk.derived.HasRoom added)
    (hapart : ∀ name ∈ (quantizerNames input).tail, name ∉ layerNames node.label) :
    ∃ middle source quantize, walk.source ⟨.int weightType, .int activationType⟩ node.label input
        = .ok (middle, source, quantize) ∧ middle.derived.HasRoom (layerNames node.label) := by
  have hlayer : layerNames node.label ⊆ introduced names node := fun name hname =>
    layerNames_subset_introduced hnode hinput (List.mem_cons_of_mem _ hname)
  unfold Walk.source
  cases hlookup : walk.quantizers.lookup input with
  | some quantizer =>
    exact ⟨walk, quantizer, [], rfl, hroom _ (nodup_layer node.label).of_cons hlayer⟩
  | none =>
    have hquantizer := quantizerNames_subset_introduced hnode hinput (hrecords.eq_none hlookup)
    have hall : walk.derived.HasRoom (Derived.scaleName (input ++ "_quant")
        :: Derived.zeroPointName (input ++ "_quant") :: layerNames node.label) := by
      show walk.derived.HasRoom ((quantizerNames input).tail ++ layerNames node.label)
      refine hroom _ ?_ (List.append_subset.mpr
        ⟨List.Subset.trans (List.tail_subset _) hquantizer, hlayer⟩)
      refine List.nodup_append.mpr
        ⟨(nodup_quantizerNames input).tail, (nodup_layer node.label).of_cons, ?_⟩
      intro name hname other hother heq
      exact hapart name hname (heq ▸ hother)
    obtain ⟨derived, hderived, hrest⟩ := hall.addParams node.label hpropagated activationType
    let quantizer := Quantizer.derived input walk.propagated
    refine ⟨{ walk with
        derived
        quantizers := walk.quantizers ++ [(input, quantizer)]
        quantizeNodes := walk.quantizeNodes + 1 }, quantizer, [quantizer.node input], ?_, hrest⟩
    show (walk.derived.addParams? node.label (input ++ "_quant") walk.propagated
      (.int activationType) >>= _) = _
    rw [hderived]
    rfl

/-- **A convolution that was analyzed is converted.** -/
theorem exists_conv (h : Convertible graph) (hwidth : totalBits ≤ 32) (hparams : params.Valid)
    (hsteps : Steps graph ⟨.int weightType, .int activationType⟩ totalBits
      (Walk.start graph params) done walk)
    (hsplit : graph.nodes = done.map Block.source ++ node :: after) (hnode : node.operator = .conv)
    {analyzed : Analyzed} (hanalyzed : analyzeConv graph totalBits node = .ok analyzed) :
    ∃ result, walk.conv ⟨.int weightType, .int activationType⟩ totalBits node analyzed
      = .ok result := by
  have hspec := spec_of_analyzeConv hanalyzed
  have hdyadic := dyadic_of_steps ⟨hparams, fun _ _ hlookup => by cases hlookup⟩ hsteps
  have hmem : node ∈ graph.nodes := hsplit ▸ List.mem_append_right _ List.mem_cons_self
  have hapart : ∀ name ∈ (quantizerNames analyzed.input).tail, name ∉ layerNames node.label := by
    intro name hquantizer hlayer
    have hbase := (madeFrom_of_mem_quantizerNames (List.mem_of_mem_tail hquantizer)).unique
      (madeFrom_of_mem_layer (List.mem_cons_of_mem _ hlayer))
    exact h.apart node hmem hnode node hmem hnode (hbase ▸ hspec.input_eq)
  obtain ⟨middle, source, quantize, hsource, hroom⟩ :
      ∃ middle source quantize, walk.source ⟨.int weightType, .int activationType⟩ node.label
          analyzed.input = .ok (middle, source, quantize) ∧
        middle.derived.HasRoom (layerNames node.label) :=
    exists_source hnode hspec.input_eq (records_of_steps rfl hsteps) hdyadic.propagated
      (fun _ hnodup hsub => hasRoom_of_introduced h hsteps hsplit hnodup hsub) hapart
  obtain ⟨output, houtput⟩ := exists_propagateScale? node.label source.params
    analyzed.layer.stats.meanAbsValue (by omega : totalBits ≤ 1023)
  obtain ⟨derived, hderived⟩ : ∃ derived, addLayer ⟨.int weightType, .int activationType⟩
      middle.derived node.label analyzed.layer output = .ok derived :=
    exists_addLayer analyzed.layer hroom (valid_of_propagateScale? houtput)
  unfold Walk.conv
  dsimp only
  rw [hsource, ok_bind, houtput, ok_bind, hderived]
  exact ⟨_, rfl⟩

/-- A node that is no convolution stays. -/
theorem exists_keep (h : Convertible graph) (hmem : node ∈ graph.nodes) (walk : Walk) :
    ∃ walk', walk.keep graph node = .ok walk' := by
  refine exists_keep_iff.mpr fun hoperator => ?_
  unfold Quantizer.ofNode?
  split
  · next input output scale zeroPoint hinput houtput hscale hzero =>
    have hconstants :=
      h.quantizers node hmem hoperator (by rw [hinput]; rfl) scale hscale zeroPoint hzero
    obtain ⟨params, hparams⟩ := hconstants.exists_ofConstants? node.label
    rw [hparams]
    exact ⟨_, rfl⟩
  · exact ⟨_, rfl⟩

/-- **No step gets stuck**, whichever kind of node it is for. -/
theorem exists_node (h : Convertible graph) (hwidth : totalBits ≤ 32) (hparams : params.Valid)
    (hsteps : Steps graph ⟨.int weightType, .int activationType⟩ totalBits
      (Walk.start graph params) done walk) {entry : Node × Option Analyzed}
    (hsplit : graph.nodes = done.map Block.source ++ entry.1 :: after)
    (htagged : Tagged graph totalBits entry) :
    ∃ walk' nodes, walk.node graph ⟨.int weightType, .int activationType⟩ totalBits entry
      = .ok (walk', nodes) := by
  obtain ⟨node, tag⟩ := entry
  cases tag with
  | some analyzed =>
    obtain ⟨⟨walk', nodes⟩, hconv⟩ := exists_conv h hwidth hparams hsteps hsplit htagged.1 htagged.2
    exact ⟨walk', nodes, hconv⟩
  | none =>
    have hmem : node ∈ graph.nodes := hsplit ▸ List.mem_append_right _ List.mem_cons_self
    obtain ⟨walk', hkeep⟩ := exists_keep h hmem walk
    exact ⟨walk', [node], map_eq_ok_iff.mpr ⟨walk', hkeep, rfl⟩⟩

/-- **The walk gets to its end.** -/
theorem exists_nodes (h : Convertible graph) (hwidth : totalBits ≤ 32) (hparams : params.Valid)
    (hsteps : Steps graph ⟨.int weightType, .int activationType⟩ totalBits
      (Walk.start graph params) done walk) {tagged : List (Node × Option Analyzed)}
    (hsplit : graph.nodes = done.map Block.source ++ tagged.map (·.1))
    (htagged : ∀ entry ∈ tagged, Tagged graph totalBits entry) :
    ∃ walk' nodes, walk.nodes graph ⟨.int weightType, .int activationType⟩ totalBits tagged
      = .ok (walk', nodes) := by
  induction tagged generalizing done walk with
  | nil => exact ⟨walk, [], rfl⟩
  | cons entry rest ih =>
    have hentry := htagged entry List.mem_cons_self
    obtain ⟨middle, here, hnode⟩ := exists_node h hwidth hparams hsteps hsplit hentry
    obtain ⟨block, hstep, hsource, -⟩ := step_of_node hentry hnode
    rw [List.map_cons, ← hsource, ← map_source_concat] at hsplit
    obtain ⟨last, later, hrest⟩ := ih (hsteps.snoc hstep) hsplit
      fun other hother => htagged other (List.mem_cons_of_mem _ hother)
    refine ⟨last, here ++ later, ?_⟩
    rw [Walk.nodes]
    simp only [bind_eq_ok_iff, Prod.exists]
    exact ⟨middle, here, hnode, last, later, hrest, rfl⟩

end Walk

/-! ### Every name is written once -/

/-- A block writes what its node wrote, or a result that was put in. -/
theorem mem_written_of_block (hwell : block.WellFormed)
    (hname : name ∈ block.nodes.flatMap Node.outputs) :
    name ∈ block.source.outputs ∨
      ∃ conversion, block = .converted conversion ∧ name ∈ conversion.results := by
  obtain ⟨node, hnode, hname⟩ := List.mem_flatMap.mp hname
  rcases mem_outputs_of_block hwell hnode hname with ⟨-, hold⟩ | hfirst | hnew
  · exact .inl hold
  · exact .inl (List.mem_of_mem_head? hfirst)
  · exact .inr hnew

theorem mem_written_of_blocks (hwell : ∀ block ∈ blocks, block.WellFormed)
    (hname : name ∈ (blocks.flatMap Block.nodes).flatMap Node.outputs) :
    name ∈ (blocks.map Block.source).flatMap Node.outputs ∨
      ∃ conversion ∈ conversions blocks, name ∈ conversion.results := by
  rw [List.flatMap_assoc] at hname
  obtain ⟨block, hblock, hname⟩ := List.mem_flatMap.mp hname
  rcases mem_written_of_block (hwell block hblock) hname with hold | ⟨conversion, rfl, hresult⟩
  · exact .inl (List.mem_flatMap.mpr ⟨_, List.mem_map_of_mem hblock, hold⟩)
  · exact .inr ⟨conversion, mem_conversions.mpr hblock, hresult⟩

/-- A step writes every name once, unless it makes up what its node writes. -/
theorem nodup_written_of_step (hstep : Step graph types totalBits walk block walk')
    (hold : block.source.outputs.Nodup)
    (hnew : ∀ conversion, block = .converted conversion →
      ∀ name ∈ conversion.results, name ∉ block.source.outputs) :
    (block.nodes.flatMap Node.outputs).Nodup := by
  cases block with
  | kept node => simpa [Block.nodes, Block.source] using hold
  | converted conversion =>
    have hwell : conversion.WellFormed := wellFormed_of_step hstep
    obtain ⟨output, houtput, hwritten⟩ := hwell.output_eq
    have hblock : (Block.converted conversion).nodes.flatMap Node.outputs
        = conversion.results ++ [output] := by
      simp [Block.nodes, Conversion.nodes, Conversion.results, hwritten]
    rw [hblock, List.nodup_append]
    refine ⟨nodup_results hstep, List.nodup_singleton _, ?_⟩
    intro name hname other hother heq
    obtain rfl := List.mem_singleton.mp hother
    exact hnew conversion rfl name hname (heq ▸ List.mem_of_mem_head? houtput)

/-- No node of a fresh graph writes a result that is put in. -/
theorem not_written_of_result (hfresh : Fresh graph) (hstart : start.quantizers = [])
    (hsteps : Steps graph types totalBits start blocks walk)
    (hsplit : graph.nodes = blocks.map Block.source ++ after) {conversion : Conversion}
    (hconversion : conversion ∈ conversions blocks) (hname : name ∈ conversion.results) :
    name ∉ graph.nodes.flatMap Node.outputs := by
  intro hwritten
  obtain ⟨node, hnode, houtput⟩ := List.mem_flatMap.mp hwritten
  exact not_mem_occurringNames_of_put_in hfresh hstart hsteps hsplit hconversion (.inr hname)
    (mem_occurringNames_of_output hnode houtput)

/-- **A step writes nothing that was written before it**: what was in the graph was written once, what
is put in was not in the graph, and names are introduced once. -/
theorem not_written_before (hwrites : graph.WritesOnce) (h : Convertible graph)
    (hstart : start.quantizers = []) (hdone : Steps graph types totalBits start done walk)
    (hstep : Step graph types totalBits walk block walk')
    (hsplit : graph.nodes = done.map Block.source ++ block.source :: after)
    (hbefore : name ∈ (done.flatMap Block.nodes).flatMap Node.outputs) :
    name ∉ block.nodes.flatMap Node.outputs := by
  have hwell : block.WellFormed := wellFormed_of_step hstep
  have hall := hsplit.trans (map_source_concat done block after).symm
  have hnew : ∀ conversion ∈ conversions (done ++ [block]), name ∈ conversion.results →
      name ∉ graph.nodes.flatMap Node.outputs := fun _ hconversion hresult =>
    not_written_of_result h.fresh hstart (hdone.snoc hstep) hall hconversion hresult
  have hnodup := hwrites.nodup
  rw [hsplit, List.flatMap_append, List.flatMap_cons] at hnew hnodup
  intro hhere
  rcases mem_written_of_blocks (wellFormed_of_steps hdone) hbefore with
    hold | ⟨conversion, hconversion, hresult⟩
  · rcases mem_written_of_block hwell hhere with hold' | ⟨conversion, rfl, hresult⟩
    · exact (List.nodup_append.mp hnodup).2.2 name hold name (List.mem_append_left _ hold') rfl
    · exact hnew conversion (mem_conversions.mpr (List.mem_append_right _ List.mem_cons_self))
        hresult (List.mem_append_left _ hold)
  · rcases mem_written_of_block hwell hhere with hold | ⟨conversion', rfl, hresult'⟩
    · exact hnew conversion
        (mem_conversions.mpr (List.mem_append_left _ (mem_conversions.mp hconversion))) hresult
        (List.mem_append_right _ (List.mem_append_left _ hold))
    · have hintroduced := (mem_introduced_iff (records_of_steps hstart hdone) hstep).mpr
        (.inr hresult')
      exact not_put_in_before h hstart hdone hsplit hintroduced conversion hconversion (.inr hresult)

/-- **No two blocks of a walk write the same name.** -/
theorem nodup_written_of_steps (hwrites : graph.WritesOnce) (h : Convertible graph)
    (hstart : start.quantizers = []) (hsteps : Steps graph types totalBits start blocks walk)
    (hsplit : graph.nodes = blocks.map Block.source ++ after) :
    ((blocks.flatMap Block.nodes).flatMap Node.outputs).Nodup := by
  induction hsteps generalizing after with
  | nil => exact List.nodup_nil
  | @snoc done walk walk' block hdone hstep ih =>
    have hsplit' := hsplit.trans (map_source_concat done block after)
    have hmem : block.source ∈ graph.nodes := hsplit' ▸ List.mem_append_right _ List.mem_cons_self
    rw [List.flatMap_append, List.flatMap_append, List.flatMap_singleton, List.nodup_append]
    refine ⟨ih hsplit', nodup_written_of_step hstep (hwrites.nodup_outputs hmem) ?_, ?_⟩
    · rintro conversion rfl name hname hold
      exact not_written_of_result h.fresh hstart (hdone.snoc hstep) hsplit
        (mem_conversions.mpr (List.mem_append_right _ List.mem_cons_self)) hname
        (List.mem_flatMap.mpr ⟨_, hmem, hold⟩)
    · rintro name hbefore _ hhere rfl
      exact not_written_before hwrites h hstart hdone hstep hsplit' hbefore hhere

/-- **The new graph writes every name once**, and none that it declares or has as a constant. -/
theorem writesOnce_assemble (hwrites : graph.WritesOnce) (h : Convertible graph)
    (hsteps : Steps graph types totalBits (Walk.start graph params) blocks last)
    (hsources : blocks.map Block.source = graph.nodes) :
    (assemble config graph last (blocks.flatMap Block.nodes)).WritesOnce := by
  have haccounts := accounts_of_steps hsteps
  have hsplit : graph.nodes = blocks.map Block.source ++ [] := by rw [List.append_nil, hsources]
  refine ⟨?_, nodup_written_of_steps hwrites h rfl hsteps hsplit⟩
  intro name hname hexternal
  have hwritten := mem_written_of_blocks (wellFormed_of_steps hsteps) hname
  rw [hsources] at hwritten
  rcases (mem_externalNames_assemble haccounts.nodup).mp hexternal with ⟨hgiven, -⟩ | hderived
  · rcases hwritten with hold | ⟨conversion, hconversion, hresult⟩
    · exact hwrites.new name hold hgiven
    · exact not_mem_occurringNames_of_put_in h.fresh rfl hsteps hsplit hconversion (.inr hresult)
        (mem_occurringNames_of_external hgiven)
  · obtain ⟨conversion, hconversion, hconstant⟩ := (haccounts.mem_names_iff name).mp hderived
    rcases hwritten with hold | ⟨conversion', hconversion', hresult⟩
    · exact not_mem_occurringNames_of_put_in h.fresh rfl hsteps hsplit hconversion
        (.inl hconstant) (List.mem_append_right _ hold)
    · exact not_constant_of_result hsteps hconversion hconversion' hresult hconstant

/-! ### Success -/

/-- **A graph whose layers can be analyzed and whose names are kept apart is converted**, under all
settings that make sense, and the new graph is well formed. -/
theorem quantize_succeeds (hconfig : config.validate = .ok ()) (hgraph : graph.validate = .ok ())
    (h : Convertible graph) :
    ∃ report, quantize config graph = .ok report ∧ report.graph.validate = .ok () := by
  have hwidths := Config.valid_of_validate hconfig
  obtain ⟨hresolved, hwrites⟩ := Graph.validate_eq_ok_iff.mp hgraph
  obtain ⟨tagged, htagged⟩ := exists_analyzeAll hwidths.weightBits_pos hwidths.weightBits_le h
  obtain ⟨params, hparams⟩ := exists_make?_of_validate hconfig
  obtain ⟨hsources, htags⟩ := tagged_of_analyzeAll htagged
  obtain ⟨last, nodes, hnodes⟩ : ∃ last nodes, (Walk.start graph params).nodes graph
      (Types.ofConfig config) config.weightBits tagged = .ok (last, nodes) :=
    Walk.exists_nodes h hwidths.weightBits_le (Params.make?_eq_ok_iff.mp hparams).1 .nil
      hsources.symm htags
  obtain ⟨blocks, hsteps, hblocks, rfl⟩ := steps_of_nodes .nil htags hnodes
  have hall : blocks.map Block.source = graph.nodes := hblocks.trans hsources
  have htarget : (assemble config graph last (blocks.flatMap Block.nodes)).validate = .ok () :=
    Graph.validate_eq_ok_iff.mpr ⟨resolved_assemble hgraph h.selfContained hsteps hall,
      writesOnce_assemble hwrites h hsteps hall⟩
  refine ⟨⟨assemble config graph last (blocks.flatMap Block.nodes), last.layers,
    last.quantizeNodes⟩, ?_, htarget⟩
  unfold quantize convert
  simp only [bind_eq_ok_iff, mapError_eq_ok_iff]
  exact ⟨(), hconfig, tagged, htagged, params, hparams, (last, blocks.flatMap Block.nodes), hnodes,
    (), htarget, rfl⟩

/-- Three convolutions with common weights and a quantizer of their own are converted. -/
theorem quantize_succeeds_branches :
    ({} : Config).validate = .ok () ∧ branches.validate = .ok () ∧ Convertible branches ∧
      ∃ report, quantize {} branches = .ok report ∧ report.graph.validate = .ok () := by
  have hconfig : ({} : Config).validate = .ok () := by decide +kernel
  have hgraph : branches.validate = .ok () := by decide +kernel
  have hconvertible : Convertible branches := by decide +kernel
  exact ⟨hconfig, hgraph, hconvertible, quantize_succeeds hconfig hgraph hconvertible⟩

end DyadicNet.Quantize
