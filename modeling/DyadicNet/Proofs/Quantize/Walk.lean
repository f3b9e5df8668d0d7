import Mathlib
import DyadicNet.Proofs.FixedPoint.Range
import DyadicNet.Proofs.Quantize.Derived
import DyadicNet.Proofs.Quantize.Reference

/-!
# What a walk over the nodes knows

The nodes that stand for a node depend on what happened before it: which tensors have a quantizer,
which scale was propagated, which constants were added.  This module says **once for each kind of
node what a step does**, and derives what holds between any two nodes of a walk.

## Main Definitions

* `Analyzed.Spec` — what the analysis of a convolution makes sure of;
* `Tagged` — a node with its layer;
* `Walk.LayerCarried` — that the constants of a layer stand under their names;
* `Walk.Records` — that the record of quantized tensors is that of a walk;
* `Walk.Invariant` — what holds between two nodes;
* `Walk.Grows` — what a walk never takes back.

## Main Statements

* `Walk.source_eq_ok`, `Walk.conv_eq_ok`, `Walk.keep_eq_ok` — the steps;
* `Walk.invariant_node` — a step keeps the invariant;
* `Walk.invariant_nodes` — and so does a walk;
* `Walk.exists_node_of_mem` — where the nodes of the result come from.
-/

namespace DyadicNet.Quantize

variable {graph : Graph} {totalBits : ℕ} {node : Node} {analyzed : Analyzed}

/-! ### The analysis -/

theorem orFault_eq_ok_iff {α : Type} {fault : NodeFault} {result : Option α} {a : α} :
    orFault node fault result = .ok a ↔ result = some a := by
  cases result with
  | none => exact ⟨nofun, nofun⟩
  | some b => simp [orFault]

/-- What the analysis of a convolution makes sure of. -/
structure Analyzed.Spec (graph : Graph) (node : Node) (analyzed : Analyzed) : Prop where
  input_eq : node.input? 0 = some analyzed.input
  output_eq : node.output? = some analyzed.output
  weights_mem : analyzed.weights ∈ graph.initializers.names
  bias_mem : analyzed.bias ∈ graph.initializers.names
  weights_ints : ∃ type values, analyzed.layer.weights.elements = .ints type values
  bias_ints : ∃ type values, analyzed.layer.bias.elements = .ints type values

/-- The parameters of a layer are valid. -/
theorem Layer.valid_params (layer : Layer) : layer.params.Valid :=
  ⟨rfl, layer.format.denotes_lsb⟩

theorem mem_of_constant? {name : String} {tensor : Tensor}
    (h : constant? graph node name = .ok tensor) : name ∈ graph.initializers.names := by
  unfold constant? at h
  cases hget : graph.initializers.get? name with
  | none =>
    rw [hget] at h
    cases h
  | some found => exact NameTable.isSome_get?_iff.mp (by rw [hget]; rfl)

theorem ints_of_analyze {label : String} {weights bias : Tensor} {layer : Layer}
    (h : analyze label weights bias totalBits = .ok layer) :
    (∃ type values, layer.weights.elements = .ints type values) ∧
      ∃ type values, layer.bias.elements = .ints type values := by
  unfold analyze at h
  simp only [check_eq_ok_iff, bind_eq_ok_iff, mapError_eq_ok_iff, Tensor.ofInts?_eq_ok_iff,
    Except.ok.injEq] at h
  obtain ⟨_, -, _, -, -, _, -, _, -, _, -, _, ⟨-, -, hweights⟩, _, ⟨-, -, hbias⟩, rfl⟩ := h
  exact ⟨⟨_, _, hweights⟩, _, _, hbias⟩

theorem spec_of_analyzeConv (h : analyzeConv graph totalBits node = .ok analyzed) :
    analyzed.Spec graph node := by
  unfold analyzeConv at h
  simp only [bind_eq_ok_iff, orFault_eq_ok_iff, Except.ok.injEq] at h
  obtain ⟨input, hinput, weights, -, bias, -, output, houtput, _, hweights, _, hbias, layer, hlayer,
    rfl⟩ := h
  obtain ⟨hwints, hbints⟩ := ints_of_analyze hlayer
  exact ⟨hinput, houtput, mem_of_constant? hweights, mem_of_constant? hbias, hwints, hbints⟩

/-- A node with its layer, if it is a convolution. -/
def Tagged (graph : Graph) (totalBits : ℕ) : Node × Option Analyzed → Prop
  | (node, some analyzed) =>
    node.operator = .conv ∧ analyzeConv graph totalBits node = .ok analyzed
  | (node, none) => node.operator ≠ .conv

theorem tagged_of_mapM {nodes : List Node} {tagged : List (Node × Option Analyzed)}
    (h : nodes.mapM (fun node =>
      if node.operator = .conv then
        (analyzeConv graph totalBits node).map fun analyzed => (node, some analyzed)
      else .ok (node, none)) = .ok tagged) :
    tagged.map (·.1) = nodes ∧ ∀ entry ∈ tagged, Tagged graph totalBits entry := by
  induction nodes generalizing tagged with
  | nil =>
    rw [List.mapM_nil] at h
    cases h
    simp
  | cons node rest ih =>
    rw [List.mapM_cons] at h
    obtain ⟨entry, hentry, h⟩ := bind_eq_ok_iff.mp h
    obtain ⟨others, hothers, h⟩ := bind_eq_ok_iff.mp h
    cases h
    obtain ⟨hnodes, htagged⟩ := ih hothers
    have hfirst : entry.1 = node ∧ Tagged graph totalBits entry := by
      split_ifs at hentry with hconv
      · obtain ⟨analyzed, hanalyzed, rfl⟩ := map_eq_ok_iff.mp hentry
        exact ⟨rfl, hconv, hanalyzed⟩
      · cases hentry
        exact ⟨rfl, hconv⟩
    refine ⟨by rw [List.map_cons, hfirst.1, hnodes], ?_⟩
    intro other hother
    rcases List.mem_cons.mp hother with rfl | hrest
    · exact hfirst.2
    · exact htagged other hrest

/-- The analysis of a graph tags its nodes. -/
theorem tagged_of_analyzeAll {tagged : List (Node × Option Analyzed)}
    (h : analyzeAll graph totalBits = .ok tagged) :
    tagged.map (·.1) = graph.nodes ∧ ∀ entry ∈ tagged, Tagged graph totalBits entry :=
  tagged_of_mapM h

namespace Walk

variable {weightType activationType : IntType} {walk walk' : Walk} {nodes : List Node}

/-! ### The constants of a layer -/

/-- The constants of a layer with the given label stand under their names. -/
structure LayerCarried (weightType activationType : IntType) (lookup : String → Option Tensor)
    (label : String) (layer : Layer) (output : Params) : Prop where
  weights : lookup (label ++ "_quant_weights") = some layer.weights
  weightParams : layer.params.CarriedBy weightType lookup
    (Derived.scaleName (label ++ "_quant_weights")) (Derived.zeroPointName (label ++ "_quant_weights"))
  outputParams : output.CarriedBy activationType lookup
    (Derived.scaleName (label ++ "_quant")) (Derived.zeroPointName (label ++ "_quant"))
  bias : lookup (label ++ "_quant_bias") = some layer.bias
  resultParams : output.CarriedBy activationType lookup
    (Derived.scaleName (dequantName label)) (Derived.zeroPointName (dequantName label))

theorem LayerCarried.mono {lookup lookup' : String → Option Tensor} {label : String} {layer : Layer}
    {output : Params} (h : LayerCarried weightType activationType lookup label layer output)
    (hmore : ∀ name tensor, lookup name = some tensor → lookup' name = some tensor) :
    LayerCarried weightType activationType lookup' label layer output :=
  ⟨hmore _ _ h.weights, h.weightParams.mono hmore, h.outputParams.mono hmore, hmore _ _ h.bias,
    h.resultParams.mono hmore⟩

theorem layer_of_addLayer {derived derived' : Derived} {label : String} {layer : Layer}
    {output : Params} (hweights : ∃ type values, layer.weights.elements = .ints type values)
    (hbias : ∃ type values, layer.bias.elements = .ints type values) (houtput : output.Valid)
    (h : addLayer ⟨.int weightType, .int activationType⟩ derived label layer output = .ok derived') :
    Derived.Adds (layerNames label) derived derived' ∧
      LayerCarried weightType activationType derived'.get? label layer output := by
  obtain ⟨_, _, hweights⟩ := hweights
  obtain ⟨_, _, hbias⟩ := hbias
  unfold addLayer at h
  simp only [bind_eq_ok_iff] at h
  obtain ⟨d₁, h₁, d₂, h₂, d₃, h₃, d₄, h₄, h₅⟩ := h
  have a₁ := Derived.adds_of_add? h₁
  have ⟨a₂, c₂⟩ := Derived.adds_of_addParams? layer.valid_params h₂
  have ⟨a₃, c₃⟩ := Derived.adds_of_addParams? houtput h₃
  have a₄ := Derived.adds_of_add? h₄
  have ⟨a₅, c₅⟩ := Derived.adds_of_addParams? houtput h₅
  have g₁ := Derived.get?_of_add? h₁ (Tensor.rigid_of_ints hweights)
  have g₄ := Derived.get?_of_add? h₄ (Tensor.rigid_of_ints hbias)
  refine ⟨(((a₁.trans a₂).trans a₃).trans a₄).trans a₅, ?_⟩
  exact
    { weights := (((a₂.trans a₃).trans a₄).trans a₅).get?_eq _ _ g₁
      weightParams := c₂.mono ((a₃.trans a₄).trans a₅).get?_eq
      outputParams := c₃.mono (a₄.trans a₅).get?_eq
      bias := a₅.get?_eq _ _ g₄
      resultParams := c₅ }

/-! ### The steps -/

/-- A tensor has a quantizer, or gets one with the parameters that have been propagated. -/
theorem source_eq_ok {types : Types} {label input : String} {source : Quantizer}
    (h : walk.source types label input = .ok (walk', source, nodes)) :
    (walk.quantizers.lookup input = some source ∧ walk' = walk ∧ nodes = []) ∨
      ∃ derived, walk.quantizers.lookup input = none ∧
        source = Quantizer.derived input walk.propagated ∧
        walk.derived.addParams? label source.output source.params types.activation = .ok derived ∧
        walk' = { walk with
          derived
          quantizers := walk.quantizers ++ [(input, source)]
          quantizeNodes := walk.quantizeNodes + 1 } ∧
        nodes = [source.node input] := by
  unfold Walk.source at h
  cases hlookup : walk.quantizers.lookup input with
  | some quantizer =>
    rw [hlookup] at h
    cases h
    exact .inl ⟨rfl, rfl, rfl⟩
  | none =>
    rw [hlookup] at h
    obtain ⟨derived, hderived, h⟩ := bind_eq_ok_iff.mp h
    cases h
    exact .inr ⟨derived, rfl, rfl, hderived, rfl, rfl⟩

/-- A quantizer is not a layer. -/
theorem source_layers {types : Types} {label input : String} {source : Quantizer}
    (h : walk.source types label input = .ok (walk', source, nodes)) :
    walk'.layers = walk.layers := by
  rcases source_eq_ok h with ⟨-, rfl, -⟩ | ⟨_, -, -, -, rfl, -⟩
  · rfl
  · rfl

/-- What a walk knows after a convolution, and the nodes that stand for it. -/
theorem conv_eq_ok {types : Types}
    (h : walk.conv types totalBits node analyzed = .ok (walk', nodes)) :
    ∃ middle source quantize output derived,
      walk.source types node.label analyzed.input = .ok (middle, source, quantize) ∧
      propagateScale? node.label source.params analyzed.layer.stats.meanAbsValue totalBits
        = .ok output ∧
      addLayer types middle.derived node.label analyzed.layer output = .ok derived ∧
      walk' = { middle with
        derived
        propagated := output
        superseded := analyzed.weights :: analyzed.bias :: middle.superseded
        layers := middle.layers ++ [{
          node := node.label
          format := analyzed.layer.format
          input := source.params
          output
          stats := analyzed.layer.stats }] } ∧
      nodes = quantize ++ [convolution node source, dequantizer node analyzed.output] := by
  unfold Walk.conv at h
  simp only [bind_eq_ok_iff, Prod.exists, Except.ok.injEq, Prod.mk.injEq] at h
  obtain ⟨middle, source, quantize, hsource, output, houtput, derived, hderived, rfl, rfl⟩ := h
  exact ⟨middle, source, quantize, output, derived, hsource, houtput, hderived, rfl, rfl⟩

/-- A node that stays leaves the walk as it is, or is noted as the quantizer of a tensor that had
none. -/
theorem keep_eq_ok (h : walk.keep graph node = .ok walk') :
    (walk' = walk ∧ ∀ input output scale zeroPoint, node.operator = .quantizeLinear →
      node.input? 0 = some input → node.output? = some output → node.input? 1 = some scale →
      node.input? 2 = some zeroPoint → (walk.quantizers.lookup input).isSome = true) ∨
    ∃ input output scale zeroPoint params, node.operator = .quantizeLinear ∧
      node.input? 0 = some input ∧ node.output? = some output ∧ node.input? 1 = some scale ∧
      node.input? 2 = some zeroPoint ∧ walk.quantizers.lookup input = none ∧
      Params.ofConstants? graph node.label scale zeroPoint = .ok params ∧
      walk' = { walk with
        quantizers := walk.quantizers ++ [(input, ⟨output, scale, zeroPoint, params⟩)] } := by
  unfold keep at h
  split_ifs at h with hquantize
  · obtain ⟨quantizer, hnode, h⟩ := bind_eq_ok_iff.mp h
    unfold Quantizer.ofNode? at hnode
    split at hnode
    · next input output scale zeroPoint hinput houtput hscale hzero =>
      obtain ⟨params, hparams, hnode⟩ := bind_eq_ok_iff.mp hnode
      cases hnode
      dsimp only at h
      split_ifs at h with hknown
      · cases h
        left
        refine ⟨rfl, ?_⟩
        intro input' output' scale' zeroPoint' _ hinput' _ _ _
        obtain rfl := Option.some_inj.mp (hinput.symm.trans hinput')
        exact hknown
      · cases h
        right
        exact ⟨input, output, scale, zeroPoint, params, hquantize, hinput, houtput, hscale, hzero,
          Option.not_isSome_iff_eq_none.mp hknown, hparams, rfl⟩
    · next hincomplete =>
      cases hnode
      cases h
      left
      refine ⟨rfl, ?_⟩
      intro input output scale zeroPoint _ hinput houtput hscale hzero
      exact absurd hzero (hincomplete _ _ _ _ hinput houtput hscale)
  · cases h
    left
    exact ⟨rfl, fun _ _ _ _ hcon => absurd hcon hquantize⟩

/-- A node that stays stops the walk only if it is a quantizer whose constants are no parameters. -/
theorem exists_keep_iff :
    (∃ walk', walk.keep graph node = .ok walk') ↔
      (node.operator = .quantizeLinear →
        ∃ quantizer, Quantizer.ofNode? graph node = .ok quantizer) := by
  unfold keep
  split_ifs with hoperator
  · constructor
    · rintro ⟨walk', h⟩ -
      obtain ⟨quantizer, hquantizer, -⟩ := bind_eq_ok_iff.mp h
      exact ⟨quantizer, hquantizer⟩
    · intro h
      obtain ⟨quantizer, hquantizer⟩ := h hoperator
      rw [hquantizer, ok_bind]
      split
      · split_ifs
        · exact ⟨_, rfl⟩
        · exact ⟨_, rfl⟩
      · exact ⟨_, rfl⟩
  · exact ⟨fun _ hcon => absurd hcon hoperator, fun _ => ⟨_, rfl⟩⟩

/-- Neither is a node that stays. -/
theorem keep_layers (h : walk.keep graph node = .ok walk') : walk'.layers = walk.layers := by
  rcases keep_eq_ok h with ⟨rfl, -⟩ | ⟨_, _, _, _, _, -, -, -, -, -, -, -, rfl⟩
  · rfl
  · rfl

/-! ### What holds between two nodes -/

/-- What holds between two nodes of a walk, after the given ones. -/
structure Invariant (graph : Graph) (before : List Node) (walk : Walk) : Prop where
  fresh : ∀ name ∈ walk.derived.names, name ∉ occurringNames graph
  nodup : walk.derived.names.Nodup
  superseded_mem : ∀ name ∈ walk.superseded, name ∈ graph.initializers.names
  propagated_valid : walk.propagated.Valid
  params_valid : ∀ input quantizer, walk.quantizers.lookup input = some quantizer →
    quantizer.params.Valid
  recorded_eq : ∀ input,
    (recorded before).lookup input = (walk.quantizers.lookup input).map Quantizer.output

/-- What a walk never takes back. -/
structure Grows (walk walk' : Walk) : Prop where
  get?_eq : ∀ name tensor, walk.derived.get? name = some tensor →
    walk'.derived.get? name = some tensor
  superseded_sub : walk.superseded ⊆ walk'.superseded

theorem Grows.refl (walk : Walk) : Grows walk walk :=
  ⟨fun _ _ h => h, List.Subset.refl _⟩

theorem Grows.trans {walk'' : Walk} (h : Grows walk walk') (h' : Grows walk' walk'') :
    Grows walk walk'' :=
  ⟨fun name tensor hget => h'.get?_eq name tensor (h.get?_eq name tensor hget),
    fun _ hname => h'.superseded_sub (h.superseded_sub hname)⟩

theorem recorded_concat (before : List Node) (node : Node) :
    recorded (before ++ [node]) = record (recorded before) node := by
  unfold recorded
  rw [List.foldl_append]
  rfl

variable {before : List Node} {names : List (String × String)} {input : String}

/-- A convolution whose data is on record adds nothing to the record. -/
theorem record_conv_of_isSome (hnode : node.operator = .conv) (hinput : node.input? 0 = some input)
    (h : (names.lookup input).isSome = true) : record names node = names := by
  unfold record
  rw [hnode, hinput]
  exact if_pos h

/-- A convolution puts new data on record under a derived name. -/
theorem record_conv_of_eq_none (hnode : node.operator = .conv) (hinput : node.input? 0 = some input)
    (h : names.lookup input = none) : record names node = names ++ [(input, input ++ "_quant")] := by
  unfold record
  rw [hnode, hinput]
  dsimp only
  rw [h]
  rfl

/-- A quantizer that has all one needs puts new data on record under the name of its result. -/
theorem record_quantizer_of_eq_none {output scale zeroPoint : String}
    (hnode : node.operator = .quantizeLinear) (hinput : node.input? 0 = some input)
    (houtput : node.output? = some output) (hscale : node.input? 1 = some scale)
    (hzero : node.input? 2 = some zeroPoint) (h : names.lookup input = none) :
    record names node = names ++ [(input, output)] := by
  unfold record
  rw [hnode, hinput, houtput, hscale, hzero]
  dsimp only
  rw [h]
  rfl

/-- What a convolution with new data introduces for it. -/
theorem quantizerNames_subset_introduced (hnode : node.operator = .conv)
    (hinput : node.input? 0 = some input) (h : names.lookup input = none) :
    quantizerNames input ⊆ introduced names node := by
  intro name hname
  unfold introduced
  rw [hnode, hinput]
  dsimp only
  rw [h]
  exact List.mem_append_left _ hname

/-- What a convolution introduces for its layer. -/
theorem layerNames_subset_introduced (hnode : node.operator = .conv)
    (hinput : node.input? 0 = some input) :
    dequantName node.label :: layerNames node.label ⊆ introduced names node := by
  intro name hname
  unfold introduced
  rw [hnode, hinput]
  exact List.mem_append_right _ hname

/-- The names on record are those of the quantizers that a walk has noted. -/
def Records (names : List (String × String)) (walk : Walk) : Prop :=
  ∀ input, names.lookup input = (walk.quantizers.lookup input).map Quantizer.output

/-- The record has nothing for a tensor without a quantizer. -/
theorem Records.eq_none (h : Records names walk) (hnew : walk.quantizers.lookup input = none) :
    names.lookup input = none := by
  rw [h, hnew]
  rfl

/-- The record has something for a tensor with a quantizer. -/
theorem Records.isSome (h : Records names walk)
    (hknown : (walk.quantizers.lookup input).isSome = true) :
    (names.lookup input).isSome = true := by
  rw [h, Option.isSome_map, hknown]

/-- A quantizer is put on record when it is noted. -/
theorem Records.concat (h : Records names walk) (quantizer : Quantizer)
    (hnoted : walk'.quantizers = walk.quantizers ++ [(input, quantizer)]) :
    Records (names ++ [(input, quantizer.output)]) walk' := by
  intro key
  rw [hnoted, lookup_concat, lookup_concat, h]
  cases walk.quantizers.lookup key with
  | some old => rfl
  | none =>
    by_cases hkey : key = input
    · simp [hkey]
    · simp [hkey]

/-- **A node that stays is put on record as the walk notes it.** -/
theorem Records.keep (h : Records names walk) (hnode : node.operator ≠ .conv)
    (hkeep : walk.keep graph node = .ok walk') : Records (record names node) walk' := by
  rcases keep_eq_ok hkeep with ⟨rfl, hknown⟩ | ⟨input, output, scale, zeroPoint, params, hquantize,
    hinput, houtput, hscale, hzero, hnew, -, rfl⟩
  · unfold record
    split
    · next hconv _ => exact absurd hconv hnode
    · next name output scale zeroPoint hquantize hinput houtput hscale hzero =>
      have hsome := hknown name output scale zeroPoint hquantize hinput houtput hscale hzero
      dsimp only
      rw [if_pos (h.isSome hsome)]
      exact h
    · exact h
  · -- the node is complete, so the record takes it up as the walk does
    rw [record_quantizer_of_eq_none hquantize hinput houtput hscale hzero (h.eq_none hnew)]
    exact h.concat ⟨output, scale, zeroPoint, _⟩ rfl

/-- **The data of a convolution is put on record as the walk notes it.** -/
theorem Records.source {types : Types} {label : String} {source : Quantizer}
    (h : Records names walk) (hnode : node.operator = .conv)
    (hinput : node.input? 0 = some input)
    (hsource : walk.source types label input = .ok (walk', source, nodes)) :
    Records (record names node) walk' := by
  rcases source_eq_ok hsource with ⟨hknown, rfl, -⟩ | ⟨derived, hnew, rfl, -, rfl, -⟩
  · rw [record_conv_of_isSome hnode hinput (h.isSome (by rw [hknown]; rfl))]
    exact h
  · rw [record_conv_of_eq_none hnode hinput (h.eq_none hnew)]
    exact h.concat (Quantizer.derived input walk.propagated) rfl

/-- A node that stays keeps the invariant. -/
theorem invariant_keep (h : Invariant graph before walk) (hnode : node.operator ≠ .conv)
    (hkeep : walk.keep graph node = .ok walk') :
    Invariant graph (before ++ [node]) walk' ∧ Grows walk walk' := by
  have hrecords : Records (recorded (before ++ [node])) walk' := by
    rw [recorded_concat]
    exact Records.keep h.recorded_eq hnode hkeep
  rcases keep_eq_ok hkeep with ⟨rfl, -⟩ | ⟨input, output, scale, zeroPoint, params, -, -, -, -, -,
    -, hparams, rfl⟩
  · exact ⟨⟨h.fresh, h.nodup, h.superseded_mem, h.propagated_valid, h.params_valid, hrecords⟩,
      Grows.refl _⟩
  · exact ⟨⟨h.fresh, h.nodup, h.superseded_mem, h.propagated_valid,
      forall_lookup_concat h.params_valid (Params.valid_of_ofConstants? hparams), hrecords⟩,
      fun _ _ hget => hget, List.Subset.refl _⟩

/-- The additions under fresh names keep names fresh and distinct. -/
theorem Invariant.fresh_of_adds (h : Invariant graph before walk) {derived : Derived}
    {added : List String} (hadds : Derived.Adds added walk.derived derived)
    (hfresh : ∀ name ∈ added, name ∉ occurringNames graph) :
    ∀ name ∈ derived.names, name ∉ occurringNames graph := by
  intro name hname
  rcases hadds.mem_names name hname with hold | hnew
  · exact h.fresh name hold
  · exact hfresh name hnew

/-- What the quantizer of a tensor is known to be, once there is one. -/
theorem invariant_source (h : Invariant graph before walk) (hnode : node.operator = .conv)
    (hinput : node.input? 0 = some input)
    (hfresh : ∀ name ∈ introduced (recorded before) node, name ∉ occurringNames graph)
    {source : Quantizer}
    (hsource : walk.source ⟨.int weightType, .int activationType⟩ node.label input
      = .ok (walk', source, nodes)) :
    Invariant graph (before ++ [node]) walk' ∧ Grows walk walk' ∧
      walk'.quantizers.lookup input = some source ∧ source.params.Valid := by
  have hrecords : Records (recorded (before ++ [node])) walk' := by
    rw [recorded_concat]
    exact Records.source h.recorded_eq hnode hinput hsource
  rcases source_eq_ok hsource with ⟨hknown, rfl, -⟩ | ⟨derived, hnew, hquantizer, hderived, rfl, -⟩
  · exact ⟨⟨h.fresh, h.nodup, h.superseded_mem, h.propagated_valid, h.params_valid, hrecords⟩,
      Grows.refl _, hknown, h.params_valid _ _ hknown⟩
  · have hnone := Records.eq_none h.recorded_eq hnew
    have hvalid : source.params.Valid := by
      rw [hquantizer]
      exact h.propagated_valid
    have hnames : ∀ name ∈ quantizerNames input, name ∉ occurringNames graph :=
      fun name hname => hfresh name (quantizerNames_subset_introduced hnode hinput hnone hname)
    -- the two constants are among the names that the quantizer introduces
    obtain ⟨hadds, -⟩ := Derived.adds_of_addParams? hvalid hderived
    have hsub : [Derived.scaleName source.output, Derived.zeroPointName source.output]
        ⊆ quantizerNames input := by
      rw [hquantizer]
      exact List.subset_cons_self _ _
    refine ⟨⟨h.fresh_of_adds (hadds.mono hsub) hnames, hadds.nodup h.nodup, h.superseded_mem,
      h.propagated_valid, forall_lookup_concat h.params_valid hvalid, hrecords⟩,
      ⟨hadds.get?_eq, List.Subset.refl _⟩, ?_, hvalid⟩
    show (walk.quantizers ++ [(input, source)]).lookup input = some source
    rw [lookup_concat, hnew, if_pos rfl]
    rfl

/-- A convolution keeps the invariant. -/
theorem invariant_conv (h : Invariant graph before walk) (hnode : node.operator = .conv)
    (hspec : analyzed.Spec graph node)
    (hfresh : ∀ name ∈ introduced (recorded before) node, name ∉ occurringNames graph)
    (hconv : walk.conv ⟨.int weightType, .int activationType⟩ totalBits node analyzed
      = .ok (walk', nodes)) :
    Invariant graph (before ++ [node]) walk' ∧ Grows walk walk' := by
  obtain ⟨middle, source, quantize, output, derived, hsource, houtput, hderived, rfl, -⟩ :=
    conv_eq_ok hconv
  obtain ⟨hmiddle, hgrows, -, -⟩ := invariant_source h hnode hspec.input_eq hfresh hsource
  have hvalid := valid_of_propagateScale? houtput
  obtain ⟨hadds, -⟩ := layer_of_addLayer hspec.weights_ints hspec.bias_ints hvalid hderived
  have hnames : ∀ name ∈ layerNames node.label, name ∉ occurringNames graph :=
    fun name hname => hfresh name
      (layerNames_subset_introduced hnode hspec.input_eq (List.mem_cons_of_mem _ hname))
  refine ⟨⟨hmiddle.fresh_of_adds hadds hnames, hadds.nodup hmiddle.nodup, ?_, hvalid,
    hmiddle.params_valid, hmiddle.recorded_eq⟩, ?_⟩
  · intro name hname
    rcases List.mem_cons.mp hname with rfl | hrest
    · exact hspec.weights_mem
    · rcases List.mem_cons.mp hrest with rfl | hold
      · exact hspec.bias_mem
      · exact hmiddle.superseded_mem name hold
  · refine hgrows.trans ⟨hadds.get?_eq, ?_⟩
    intro name hname
    exact List.mem_cons_of_mem _ (List.mem_cons_of_mem _ hname)

/-- **A step keeps the invariant**, whichever kind of node it is for. -/
theorem invariant_node (h : Invariant graph before walk) {entry : Node × Option Analyzed}
    (htagged : Tagged graph totalBits entry)
    (hfresh : ∀ name ∈ introduced (recorded before) entry.1, name ∉ occurringNames graph)
    (hstep : walk.node graph ⟨.int weightType, .int activationType⟩ totalBits entry
      = .ok (walk', nodes)) :
    Invariant graph (before ++ [entry.1]) walk' ∧ Grows walk walk' := by
  obtain ⟨node, tag⟩ := entry
  cases tag with
  | some analyzed =>
    exact invariant_conv h htagged.1 (spec_of_analyzeConv htagged.2) hfresh hstep
  | none =>
    obtain ⟨kept, hkeep, heq⟩ := map_eq_ok_iff.mp hstep
    obtain ⟨rfl, rfl⟩ := Prod.mk.inj heq
    exact invariant_keep h htagged hkeep

/-! ### Whole walks -/

theorem nodes_cons {types : Types} {entry : Node × Option Analyzed}
    {rest : List (Node × Option Analyzed)}
    (h : walk.nodes graph types totalBits (entry :: rest) = .ok (walk', nodes)) :
    ∃ middle here after, walk.node graph types totalBits entry = .ok (middle, here) ∧
      middle.nodes graph types totalBits rest = .ok (walk', after) ∧ nodes = here ++ after := by
  rw [Walk.nodes] at h
  simp only [bind_eq_ok_iff, Prod.exists, Except.ok.injEq, Prod.mk.injEq] at h
  obtain ⟨middle, here, hnode, last, after, hrest, rfl, rfl⟩ := h
  exact ⟨middle, here, after, hnode, hrest, rfl⟩

theorem nodes_append {types : Types} {front rest : List (Node × Option Analyzed)}
    (h : walk.nodes graph types totalBits (front ++ rest) = .ok (walk', nodes)) :
    ∃ middle here after, walk.nodes graph types totalBits front = .ok (middle, here) ∧
      middle.nodes graph types totalBits rest = .ok (walk', after) ∧ nodes = here ++ after := by
  induction front generalizing walk nodes with
  | nil => exact ⟨walk, [], nodes, rfl, h, rfl⟩
  | cons entry front ih =>
    obtain ⟨middle, here, after, hnode, hrest, rfl⟩ := nodes_cons h
    obtain ⟨last, here', after', hfront, hlast, rfl⟩ := ih hrest
    refine ⟨last, here ++ here', after', ?_, hlast, (List.append_assoc _ _ _).symm⟩
    rw [Walk.nodes]
    simp only [bind_eq_ok_iff, Prod.exists]
    exact ⟨middle, here, hnode, last, here', hfront, rfl⟩

variable {tagged : List (Node × Option Analyzed)} {back : List Node}

/-- **A walk over nodes of the graph keeps the invariant.** -/
theorem invariant_nodes (hfresh : Fresh graph) (h : Invariant graph before walk)
    (htagged : ∀ entry ∈ tagged, Tagged graph totalBits entry)
    (hsplit : graph.nodes = before ++ (tagged.map (·.1) ++ back))
    (hnodes : walk.nodes graph ⟨.int weightType, .int activationType⟩ totalBits tagged
      = .ok (walk', nodes)) :
    Invariant graph (before ++ tagged.map (·.1)) walk' ∧ Grows walk walk' := by
  induction tagged generalizing before walk nodes with
  | nil =>
    cases hnodes
    rw [List.map_nil, List.append_nil]
    exact ⟨h, Grows.refl _⟩
  | cons entry rest ih =>
    obtain ⟨middle, here, after, hnode, hrest, rfl⟩ := nodes_cons hnodes
    rw [List.map_cons, List.cons_append] at hsplit
    obtain ⟨hmiddle, hgrows⟩ := invariant_node h (htagged entry List.mem_cons_self)
      (hfresh before entry.1 _ hsplit) hnode
    rw [List.append_cons] at hsplit
    have hlast := ih hmiddle (fun other hother => htagged other (List.mem_cons_of_mem _ hother))
      hsplit hrest
    rw [List.map_cons, List.append_cons]
    exact ⟨hlast.1, hgrows.trans hlast.2⟩

/-- Every node that a walk gives stands for a node of the graph, and was given at a time when the
invariant held. -/
theorem exists_node_of_mem (hfresh : Fresh graph) (h : Invariant graph before walk)
    (htagged : ∀ entry ∈ tagged, Tagged graph totalBits entry)
    (hsplit : graph.nodes = before ++ (tagged.map (·.1) ++ back))
    (hnodes : walk.nodes graph ⟨.int weightType, .int activationType⟩ totalBits tagged
      = .ok (walk', nodes)) (hnode : node ∈ nodes) :
    ∃ front entry after earlier later here, graph.nodes = front ++ entry.1 :: after ∧
      Tagged graph totalBits entry ∧ Invariant graph front earlier ∧
      earlier.node graph ⟨.int weightType, .int activationType⟩ totalBits entry
        = .ok (later, here) ∧
      node ∈ here := by
  induction tagged generalizing before walk nodes with
  | nil =>
    cases hnodes
    cases hnode
  | cons entry rest ih =>
    obtain ⟨middle, here, after, hstep, hrest, rfl⟩ := nodes_cons hnodes
    rw [List.map_cons, List.cons_append] at hsplit
    have hentry := htagged entry List.mem_cons_self
    rcases List.mem_append.mp hnode with hhere | hafter
    · exact ⟨before, entry, _, walk, middle, here, hsplit, hentry, h, hstep, hhere⟩
    · obtain ⟨hmiddle, -⟩ := invariant_node h hentry (hfresh before entry.1 _ hsplit) hstep
      rw [List.append_cons] at hsplit
      exact ih hmiddle (fun other hother => htagged other (List.mem_cons_of_mem _ hother)) hsplit
        hrest hafter

end Walk

end DyadicNet.Quantize
