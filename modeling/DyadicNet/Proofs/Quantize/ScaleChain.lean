import Mathlib
import DyadicNet.Proofs.Quantize.Blocks

/-!
# The chain of scales

Along a network **the output scale of a layer is the input scale of the next one**, and the first
layer starts with the scale of the network's input.  The chain is broken where a tensor has been
quantized before: then its data keeps the parameters that it was quantized under, by a quantizer of
the graph or for an earlier layer, whichever came first.

All scales in the chain are powers of two.  Those of outputs lie between `1` and `2 ^ weightBits`,
whatever mean magnitude the weights have.

## Main Definitions

* `FirstParams` — the parameters under which a tensor was quantized first;
* `InputParams` — the parameters of the data of a convolution;
* `ScaleChained` — the scales of a layer in terms of those before it.

## Main Statements

* `propagated_of_steps` — what a walk propagates;
* `getElem?_layers_of_at` — the layer of a convolution;
* `quantize_scaleChain` — the layers of a conversion.
-/

namespace DyadicNet.Quantize

variable {graph : Graph} {config : Config} {types : Types} {totalBits : ℕ} {report : Report}
  {start walk walk' last : Walk} {block : Block} {done blocks front back : List Block}
  {conversion : Conversion} {input : String}

/-! ### The parameters of data -/

/-- The parameters under which a tensor was quantized first, by one of the given nodes. -/
inductive FirstParams (graph : Graph) (layers : List LayerReport) (input : String) :
    List Node → Params → Prop
  /-- By a complete quantizer of the graph, under the parameters that its constants carry. -/
  | existing {earlier later : List Node} {node : Node} {scale zeroPoint : String} {params : Params}
      (hearlier : ∀ other ∈ earlier, ¬Quantizes input other) (hnode : CompleteQuantizer input node)
      (hscale : node.input? 1 = some scale) (hzero : node.input? 2 = some zeroPoint)
      (hparams : Params.ofConstants? graph node.label scale zeroPoint = .ok params) :
      FirstParams graph layers input (earlier ++ node :: later) params
  /-- For a convolution, under the parameters of its layer's data. -/
  | inserted {earlier later : List Node} {node : Node} {layer : LayerReport}
      (hearlier : ∀ other ∈ earlier, ¬Quantizes input other) (hnode : node.operator = .conv)
      (hinput : node.input? 0 = some input) (hlayer : layers[convCount earlier]? = some layer) :
      FirstParams graph layers input (earlier ++ node :: later) layer.input

/-- The parameters of the data of a convolution that comes after the given nodes. -/
inductive InputParams (graph : Graph) (config : Config) (layers : List LayerReport)
    (before : List Node) (input : String) : Params → Prop
  /-- The data has been quantized before. -/
  | recorded {params : Params} (hparams : FirstParams graph layers input before params) :
      InputParams graph config layers before input params
  /-- The first convolution starts with the scale of the network's input. -/
  | network {params : Params} (hnew : ∀ node ∈ before, ¬Quantizes input node)
      (hfirst : convCount before = 0) (hparams : Params.make? config.inputScale 0 = .ok params) :
      InputParams graph config layers before input params
  /-- Any other one continues with the output scale of the layer before. -/
  | propagated {k : ℕ} {layer : LayerReport} (hnew : ∀ node ∈ before, ¬Quantizes input node)
      (hcount : convCount before = k + 1) (hlayer : layers[k]? = some layer) :
      InputParams graph config layers before input layer.output

/-- The scales of the layer of a convolution that comes after the given nodes. -/
structure ScaleChained (graph : Graph) (config : Config) (layers : List LayerReport)
    (before : List Node) (node : Node) (layer : LayerReport) : Prop where
  label_eq : layer.node = node.label
  input_eq : ∃ input, node.input? 0 = some input ∧
    InputParams graph config layers before input layer.input
  output_eq : propagateScale? node.label layer.input layer.stats.meanAbsValue config.weightBits
    = .ok layer.output
  input_scale : ∃ e : ℤ, layer.input.scale.Denotes false (2 ^ e)
  input_zeroPoint : layer.input.zeroPoint = 0
  output_scale : ∃ e : ℕ, e ≤ config.weightBits ∧ layer.output.scale.Denotes false (2 ^ e)
  output_zeroPoint : layer.output.zeroPoint = 0

/-! ### What a walk propagates -/

/-- **A walk propagates the output of its last layer**, and before the first layer the parameters
with which it started. -/
theorem propagated_of_steps (h : Steps graph types totalBits start blocks walk) :
    walk.propagated
      = ((conversions blocks).getLast?.map (·.report.output)).getD start.propagated := by
  induction h with
  | nil => rfl
  | @snoc done walk walk' block hsteps hstep ih =>
    cases hstep with
    | keep _ hkeep =>
      obtain ⟨quantizers, rfl⟩ := eq_with_of_keep hkeep
      rw [conversions_concat_kept, ← ih]
    | convert _ _ _ _ _ hreport =>
      rw [conversions_concat_converted, List.getLast?_concat, hreport]
      rfl

/-! ### Layers -/

/-- The layer of a convolution is the one after those of the convolutions before it. -/
theorem getElem?_layers_of_at (hshape : ∀ block ∈ blocks, block.WellFormed)
    (hsplit : blocks = front ++ .converted conversion :: back) :
    ((conversions blocks).map Conversion.report)[convCount (front.map Block.source)]?
      = some conversion.report := by
  have hfront : (conversions front).length = convCount (front.map Block.source) :=
    length_conversions fun block hblock => hshape block (hsplit ▸ List.mem_append_left _ hblock)
  have hall : conversions blocks = conversions front ++ conversion :: conversions back := by
    rw [hsplit, conversions_append]
    rfl
  rw [List.getElem?_map, ← hfront, hall, List.getElem?_append_right le_rfl, Nat.sub_self]
  rfl

/-- A tensor that has a quantizer was first quantized under its parameters. -/
theorem firstParams_of_known {layers : List LayerReport} {quantizer : Quantizer}
    (hknown : Walk.Known graph front walk) (hshape : ∀ block ∈ blocks, block.WellFormed)
    (hlayers : layers = (conversions blocks).map Conversion.report)
    (hsplit : blocks = front ++ back) (hlookup : walk.quantizers.lookup input = some quantizer) :
    FirstParams graph layers input (front.map Block.source) quantizer.params := by
  obtain ⟨earlier, block, later, rfl, hearlier, hsupplies⟩ :=
    hknown.supplied input quantizer hlookup
  have hnone : ∀ other ∈ earlier.map Block.source, ¬Quantizes input other := by
    intro other hother
    obtain ⟨block, hblock, rfl⟩ := List.mem_map.mp hother
    exact hearlier block hblock
  rw [List.map_append, List.map_cons]
  cases hsupplies with
  | existing hcomplete _ hscale hzero hparams =>
    exact .existing hnone hcomplete hscale hzero hparams
  | @inserted conversion hnode hinput _ hderived =>
    have hlayer := getElem?_layers_of_at hshape (hsplit.trans (List.append_assoc _ _ _))
    rw [hderived]
    exact .inserted hnone hnode hinput (hlayers ▸ hlayer)

/-- New data gets the parameters that the walk propagates. -/
theorem inputParams_of_new {layers : List LayerReport} {params : Params}
    (hnew : ∀ block ∈ front, ¬Quantizes input block.source)
    (hshape : ∀ block ∈ blocks, block.WellFormed)
    (hlayers : layers = (conversions blocks).map Conversion.report)
    (hsplit : blocks = front ++ back) (hstart : Params.make? config.inputScale 0 = .ok params)
    (hpropagated : walk.propagated
      = ((conversions front).getLast?.map (·.report.output)).getD params) :
    InputParams graph config layers (front.map Block.source) input walk.propagated := by
  have hnone : ∀ node ∈ front.map Block.source, ¬Quantizes input node := by
    intro node hnode
    obtain ⟨block, hblock, rfl⟩ := List.mem_map.mp hnode
    exact hnew block hblock
  have hcount : convCount (front.map Block.source) = (conversions front).length :=
    (length_conversions fun block hblock =>
      hshape block (hsplit ▸ List.mem_append_left _ hblock)).symm
  rcases List.eq_nil_or_concat' (conversions front) with hnil | ⟨earlier, previous, hconcat⟩
  · rw [hpropagated, hnil]
    exact .network hnone (by rw [hcount, hnil]; rfl) hstart
  · rw [hpropagated, hconcat, List.getLast?_concat]
    refine .propagated hnone (k := earlier.length) (by rw [hcount, hconcat]; simp) ?_
    rw [hlayers, hsplit, conversions_append, hconcat]
    simp

/-- **The scales of a layer follow from those of the layers before it.** -/
theorem scaleChained_of_step {layers : List LayerReport} {params : Params}
    (hbits : config.weightBits ≤ 32) (hdyadic : walk.Dyadic)
    (hknown : Walk.Known graph front walk) (hshape : ∀ block ∈ blocks, block.WellFormed)
    (hlayers : layers = (conversions blocks).map Conversion.report)
    (hsplit : blocks = front ++ .converted conversion :: back)
    (hstart : Params.make? config.inputScale 0 = .ok params)
    (hpropagated : walk.propagated
      = ((conversions front).getLast?.map (·.report.output)).getD params)
    (hstep : Step graph types config.weightBits walk (.converted conversion) walk') :
    ScaleChained graph config layers (front.map Block.source) conversion.node
      conversion.report := by
  cases hstep with
  | @convert middle node analyzed source _ output _ _ hnode hanalyzed hsource houtput _ hreport =>
    subst hreport
    have hinput := (spec_of_analyzeConv hanalyzed).input_eq
    have hsourceValid := (dyadic_of_source hdyadic hsource).2
    have houtputValid := valid_of_propagateScale? houtput
    have hexponent := exponent_of_propagateScale? (by omega) houtput
    have hchain : InputParams graph config layers (front.map Block.source) analyzed.input
        source.params := by
      rcases Walk.source_eq_ok hsource with ⟨hlookup, -, -⟩ | ⟨_, hnew, rfl, -, -, -⟩
      · exact .recorded (firstParams_of_known hknown hshape hlayers hsplit hlookup)
      · exact inputParams_of_new (hknown.unquantized analyzed.input hnew) hshape hlayers hsplit
          hstart hpropagated
    have hscale : output.scale.Denotes false (2 ^ output.exponent.toNat) := by
      have hnonneg : 0 ≤ output.exponent := hexponent ▸ le_clampInt _ _ _
      rw [← zpow_natCast, Int.toNat_of_nonneg hnonneg]
      exact houtputValid.scale
    exact
      { label_eq := rfl
        input_eq := ⟨analyzed.input, hinput, hchain⟩
        output_eq := houtput
        input_scale := ⟨_, hsourceValid.scale⟩
        input_zeroPoint := hsourceValid.zeroPoint_eq
        output_scale := by
          have hle : output.exponent ≤ config.weightBits :=
            hexponent ▸ clampInt_le (by omega) _
          exact ⟨_, by omega, hscale⟩
        output_zeroPoint := houtputValid.zeroPoint_eq }

/-- **The chain of scales of a conversion**, for every graph that can be converted.  There is one
layer for each convolution, in their order; its data has the parameters under which the tensor was
quantized first, or else those of the output of the layer before; and the scale of its output
follows from these and the mean magnitude of its weights. -/
theorem quantize_scaleChain (h : quantize config graph = .ok report) :
    report.layers.length = graph.count .conv ∧
    ∀ before node after, graph.nodes = before ++ node :: after → node.operator = .conv →
      ∃ layer, report.layers[convCount before]? = some layer ∧
        ScaleChained graph config report.layers before node layer := by
  obtain ⟨params, last, nodes, blocks, hparams, hsteps, -, -, hspliced, -⟩ := exists_steps h
  have hshape := hspliced.wellFormed
  refine ⟨?_, ?_⟩
  · rw [hspliced.layers_eq, List.length_map, length_conversions hshape, hspliced.sources_eq]
    rfl
  · intro before node after hnodes hoperator
    -- the convolution is the source of a block, and the block has its step
    rw [← hspliced.sources_eq, List.map_eq_append_iff] at hnodes
    obtain ⟨front, rest, hsplit, rfl, hrest⟩ := hnodes
    obtain ⟨block, back, rfl, rfl, -⟩ := List.map_eq_cons_iff.mp hrest
    have hblock := hshape block (hsplit ▸ List.mem_append_right _ List.mem_cons_self)
    cases block with
    | kept node => exact absurd hoperator hblock
    | converted conversion =>
      obtain ⟨walk, walk', hbefore, hstep⟩ := hsteps.at hsplit
      refine ⟨conversion.report, ?_, ?_⟩
      · rw [hspliced.layers_eq]
        exact getElem?_layers_of_at hshape hsplit
      · have hvalid := (Params.make?_eq_ok_iff.mp hparams).1
        have hdyadic := dyadic_of_steps ⟨hvalid, fun _ _ hlookup => by cases hlookup⟩ hbefore
        exact scaleChained_of_step (valid_of_quantize h).weightBits_le hdyadic
          (known_of_steps rfl hbefore) hshape hspliced.layers_eq hsplit hparams
          (propagated_of_steps hbefore) hstep

/-! ### A tensor that is quantized twice -/

/-- Three convolutions by one half.  The first and the last one read the input of the graph, which
is quantized by the graph itself in between, at another scale. -/
def crossing : Graph :=
  { name := "crossing"
    opset := 9
    inputs := [.ofName "x"]
    outputs := [.ofName "u", .ofName "v"]
    nodes :=
      [.make .conv "c" ["x", "w", "b"] ["y"], .make .quantizeLinear "q" ["x", "s", "z"] ["xq"],
        .make .conv "d" ["y", "w", "b"] ["u"], .make .conv "e" ["x", "w", "b"] ["v"]]
    initializers :=
      .ofList [("s", .scalarReal (.ofInt 4)), ("z", .zeroPoint),
        ("w", .oneReal 4 (.powerOfTwo (-1))), ("b", .oneReal 1 (.zero false))] }

/-- The last convolution reads what was quantized for the first one, at scale one.  It continues
neither with the output scale of the second one, which is four, nor with that of the node of the
graph. -/
theorem quantize_scaleChain_crossing :
    ∃ report, quantize {} crossing = .ok report ∧ report.layers.length = 3 ∧
      ∃ layer, report.layers[2]? = some layer ∧ layer.input.exponent = 0 ∧
        layer.output.exponent = 1 ∧
        ScaleChained crossing {} report.layers (crossing.nodes.take 3)
          (.make .conv "e" ["x", "w", "b"] ["v"]) layer := by
  have hexponents : (quantize {} crossing).toOption.map (fun report =>
      report.layers.map fun layer => (layer.input.exponent, layer.output.exponent))
        = some [(0, 1), (1, 2), (0, 1)] := by decide +kernel
  cases hreport : quantize {} crossing with
  | error fault =>
    rw [hreport] at hexponents
    cases hexponents
  | ok report =>
    rw [hreport] at hexponents
    obtain ⟨hlength, hchain⟩ := quantize_scaleChain hreport
    obtain ⟨layer, hlayer, hchained⟩ := hchain (crossing.nodes.take 3)
      (.make .conv "e" ["x", "w", "b"] ["v"]) [] rfl rfl
    have hthird : report.layers[2]? = some layer := hlayer
    have hexponent := congrArg (·[2]?) (Option.some_inj.mp hexponents)
    simp only [List.getElem?_map, hthird] at hexponent
    obtain ⟨hinput, houtput⟩ := Prod.mk.inj (Option.some_inj.mp hexponent)
    exact ⟨report, rfl, hlength, layer, hthird, hinput, houtput, hchained⟩

end DyadicNet.Quantize
