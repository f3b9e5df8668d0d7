import Mathlib
import DyadicNet.Proofs.Quantize.Assembly
import DyadicNet.Proofs.Quantize.Insertion

/-!
# Running both graphs side by side

The old graph is evaluated by its meaning, the new one by the interpreter.  Between two nodes of the
old graph **both know the same values under the old names**, and each quantizer of the walk is bound
to the tensor that the meaning has on record.  One node of the old graph is one, two or three nodes
of the new one; a step of the simulation runs them all.

The new graph binds more names, the results of the nodes that were put in.  They are fresh, so no
old name is hidden by them; and since the new graph passes its check, a name that a quantizer is
bound to is not bound again.

## Main Definitions

* `StandsFor` — a quantizer and the quantized tensor that it stands for;
* `Simulates` — what holds between two nodes of the old graph.

## Main Statements

* `agree_keep`, `agree_source`, `agree_layer`, `agree_conv` — the steps;
* `agree_steps` — whole runs.
-/

namespace DyadicNet.Quantize

open Eval Eval.Interpreter

variable {graph target : Graph} {config : Config} {defined next : List String}
  {quantizers : List (String × Quantizer)} {state : Reference.State} {environment : Environment}
  {quantizer : Quantizer} {quantized : Reference.Quantized} {node : Node} {name : String}

/-! ### The relation -/

/-- A quantizer stands for a quantized tensor: its name is bound to the tensor, and its constants
carry the parameters. -/
structure StandsFor (target : Graph) (environment : Environment) (quantizer : Quantizer)
    (quantized : Reference.Quantized) : Prop where
  value_eq : environment.values.lookup quantizer.output = some quantized.tensor
  params_eq : quantized.params = quantizer.params
  scale_ne : quantizer.scale ≠ ""
  zeroPoint_ne : quantizer.zeroPoint ≠ ""
  constants : ∀ label, Params.ofConstants? target label quantizer.scale quantizer.zeroPoint
    = .ok quantizer.params

/-- What holds between two nodes of the old graph, when the given names are defined in the new one. -/
structure Simulates (graph target : Graph) (defined : List String)
    (quantizers : List (String × Quantizer)) (state : Reference.State)
    (environment : Environment) : Prop where
  leakyFormat_eq : state.environment.leakyFormat = environment.leakyFormat
  lookup_eq : ∀ name ∈ occurringNames graph,
    state.environment.values.lookup name = environment.values.lookup name
  unquantized : ∀ input, quantizers.lookup input = none → state.quantized.lookup input = none
  quantized : ∀ input quantizer, quantizers.lookup input = some quantizer →
    quantizer.output ∈ defined ∧ ∃ quantized, state.quantized.lookup input = some quantized ∧
      StandsFor target environment quantizer quantized

/-- Another binding changes nothing for a quantizer. -/
theorem StandsFor.bind (h : StandsFor target environment quantizer quantized)
    (hne : quantizer.output ≠ name) (y : Tensor) (format : Option FixedPoint.Format) :
    StandsFor target ⟨(name, y) :: environment.values, format⟩ quantizer quantized := by
  refine ⟨?_, h.params_eq, h.scale_ne, h.zeroPoint_ne, h.constants⟩
  show ((name, y) :: environment.values).lookup quantizer.output = some quantized.tensor
  rw [lookup_cons_of_ne hne, h.value_eq]

namespace Simulates

/-- The quantizers after a node of the new graph whose result is a new name. -/
theorem quantized_bind (h : Simulates graph target defined quantizers state environment)
    (hchecked : Graph.CheckedNode defined next node) (hname : node.output? = some name) (y : Tensor)
    (format : Option FixedPoint.Format) :
    ∀ input quantizer, quantizers.lookup input = some quantizer →
      quantizer.output ∈ next ∧ ∃ quantized, state.quantized.lookup input = some quantized ∧
        StandsFor target ⟨(name, y) :: environment.values, format⟩ quantizer quantized := by
  intro input quantizer hlookup
  obtain ⟨hdefined, quantized, hquantized, hstands⟩ := h.quantized input quantizer hlookup
  refine ⟨hchecked.mono hdefined, quantized, hquantized, hstands.bind ?_ y format⟩
  rintro rfl
  exact hchecked.writes _ (List.mem_of_mem_head? hname) hdefined

/-- The new graph binds a name that the old one does not have. -/
theorem bind_hidden (h : Simulates graph target defined quantizers state environment)
    (hchecked : Graph.CheckedNode defined next node) (hname : node.output? = some name)
    (hfresh : name ∉ occurringNames graph) (y : Tensor) (format : Option FixedPoint.Format) :
    Simulates graph target next quantizers ⟨⟨state.environment.values, format⟩, state.quantized⟩
      ⟨(name, y) :: environment.values, format⟩ := by
  refine ⟨rfl, ?_, h.unquantized, h.quantized_bind hchecked hname y format⟩
  intro old hold
  have hne : old ≠ name := by
    rintro rfl
    exact hfresh hold
  show state.environment.values.lookup old = ((name, y) :: environment.values).lookup old
  rw [lookup_cons_of_ne hne, h.lookup_eq old hold]

/-- Both graphs bind the same name to the same value. -/
theorem bind_both (h : Simulates graph target defined quantizers state environment)
    (hchecked : Graph.CheckedNode defined next node) (hname : node.output? = some name) (y : Tensor)
    (format : Option FixedPoint.Format) :
    Simulates graph target next quantizers
      ⟨⟨(name, y) :: state.environment.values, format⟩, state.quantized⟩
      ⟨(name, y) :: environment.values, format⟩ := by
  refine ⟨rfl, ?_, h.unquantized, h.quantized_bind hchecked hname y format⟩
  intro old hold
  show ((name, y) :: state.environment.values).lookup old
    = ((name, y) :: environment.values).lookup old
  by_cases hne : old = name
  · rw [hne, List.lookup_cons_self, List.lookup_cons_self]
  · rw [lookup_cons_of_ne hne, lookup_cons_of_ne hne, h.lookup_eq old hold]

/-- A quantizer is noted for a tensor that had none. -/
theorem record (h : Simulates graph target defined quantizers state environment) {input : String}
    (hnew : quantizers.lookup input = none) (hdefined : quantizer.output ∈ defined)
    (hstands : StandsFor target environment quantizer quantized) :
    Simulates graph target defined (quantizers ++ [(input, quantizer)])
      ⟨state.environment, state.quantized ++ [(input, quantized)]⟩ environment := by
  refine ⟨h.leakyFormat_eq, h.lookup_eq, ?_, ?_⟩
  · intro key hkey
    rw [lookup_concat, Option.or_eq_none_iff] at hkey
    show (state.quantized ++ [(input, quantized)]).lookup key = none
    rw [lookup_concat, h.unquantized key hkey.1, Option.none_or, if_neg]
    rintro rfl
    rw [if_pos rfl] at hkey
    cases hkey.2
  · intro key found hfound
    show _ ∧ ∃ z, (state.quantized ++ [(input, quantized)]).lookup key = some z ∧ _
    rw [lookup_concat] at hfound ⊢
    cases hold : quantizers.lookup key with
    | some old =>
      rw [hold] at hfound
      obtain rfl := Option.some_inj.mp hfound
      obtain ⟨holddefined, z, hz, hzstands⟩ := h.quantized key _ hold
      exact ⟨holddefined, z, by rw [hz, Option.some_or], hzstands⟩
    | none =>
      rw [hold, Option.none_or] at hfound
      split_ifs at hfound with hkey
      · obtain rfl := Option.some_inj.mp hfound
        refine ⟨hdefined, quantized, ?_, hstands⟩
        rw [h.unquantized key hold, if_pos hkey, Option.none_or]

end Simulates

/-! ### Nodes that stay -/

variable {walk walk' last : Walk}

/-- A node of both graphs sees the same in both. -/
theorem Simulates.sameOperands
    (h : Simulates graph target defined quantizers state environment)
    (hconverted : Converted graph target last) (hsource : node ∈ graph.nodes)
    (htarget : node ∈ target.nodes) :
    SameOperands ⟨graph, config⟩ ⟨target, config⟩ state.environment environment node := by
  refine ⟨rfl, h.leakyFormat_eq, ?_, ?_⟩
  · intro index name hname
    exact h.lookup_eq name (mem_occurringNames_of_input? hconverted.source_checked hsource hname)
  · intro index name hname
    exact (hconverted.get?_eq htarget hname
      (mem_occurringNames_of_input? hconverted.source_checked hsource hname)).symm

/-- A node of the old graph and a node of the new one that read the same old name read the same
value. -/
theorem Simulates.value_iff (h : Simulates graph target defined quantizers state environment)
    (hconverted : Converted graph target last) (hsource : node ∈ graph.nodes) {other : Node}
    {i j : ℕ} (hread : node.input? i = some name) (htarget : other ∈ target.nodes)
    (hother : other.input? j = some name) {x : Tensor} :
    Interpreter.value ⟨graph, config⟩ state.environment node i = .ok x ↔
      Interpreter.value ⟨target, config⟩ environment other j = .ok x := by
  have hoccurs := mem_occurringNames_of_input? hconverted.source_checked hsource hread
  simp only [value_eq_ok_iff, hread, hother, Option.some.injEq, exists_eq_left',
    h.lookup_eq name hoccurs, hconverted.get?_eq htarget hother hoccurs]

/-- A quantizer that has a value has a tensor and parameters. -/
theorem operands_of_quantizeLinear {I : Interpreter} {e : Environment} {y : Tensor}
    {format : Option FixedPoint.Format} (hoperator : node.operator = .quantizeLinear)
    (h : I.evalNode e node = .ok (y, format)) :
    ∃ input scale zeroPoint params, node.input? 0 = some input ∧ node.input? 1 = some scale ∧
      node.input? 2 = some zeroPoint ∧
      Params.ofConstants? I.graph node.label scale zeroPoint = .ok params ∧
      I.params node 1 2 = .ok params := by
  unfold Interpreter.evalNode at h
  rw [hoperator] at h
  obtain ⟨x, hx, h⟩ := bind_eq_ok_iff.mp h
  obtain ⟨_, hquantize, -⟩ := map_eq_ok_iff.mp h
  unfold Interpreter.value at hx
  obtain ⟨input, hinput, -⟩ := bind_eq_ok_iff.mp hx
  unfold Interpreter.quantize at hquantize
  obtain ⟨params, hparams, -⟩ := bind_eq_ok_iff.mp hquantize
  obtain ⟨scale, hscale, zeroPoint, hzero, hconstants⟩ := params_eq_ok_iff.mp hparams
  exact ⟨input, scale, zeroPoint, params, operand_eq_ok_iff.mp hinput, hscale, hzero, hconstants,
    hparams⟩

/-- A complete quantizer stands for its value from then on. -/
theorem standsFor_of_sameOperands {I J : Interpreter} {e f : Environment}
    (hsame : SameOperands I J e f node) {scale zeroPoint output : String} {params : Params}
    (hscale : node.input? 1 = some scale) (hzero : node.input? 2 = some zeroPoint)
    (hconstants : Params.ofConstants? I.graph node.label scale zeroPoint = .ok params) (y : Tensor)
    (format : Option FixedPoint.Format) :
    StandsFor J.graph ⟨(output, y) :: f.values, format⟩ ⟨output, scale, zeroPoint, params⟩
      ⟨y, params⟩ := by
  refine ⟨List.lookup_cons_self, rfl, (Graph.mem_inputs_of_input? hscale).2,
    (Graph.mem_inputs_of_input? hzero).2, ?_⟩
  intro label
  rw [← Params.ofConstants?_congr (hsame.get?_eq 1 scale hscale)
    (hsame.get?_eq 2 zeroPoint hzero)]
  exact Params.ofConstants?_label hconstants label

/-- **A node that stays** binds the same value in both graphs, and is noted as a quantizer exactly
when its value goes on record. -/
theorem agree_keep (h : Simulates graph target defined walk.quantizers state environment)
    (hconverted : Converted graph target last) (hsource : node ∈ graph.nodes)
    (htarget : node ∈ target.nodes) (hchecked : Graph.CheckedNode defined next node)
    (hkeep : walk.keep graph node = .ok walk') :
    Agree (Simulates graph target next walk'.quantizers)
      (Reference.keep ⟨graph, config⟩ state node)
      (Interpreter.advance ⟨target, config⟩ environment node) := by
  have hsame : SameOperands ⟨graph, config⟩ ⟨target, config⟩ state.environment environment node :=
    h.sameOperands hconverted hsource htarget
  unfold Reference.keep Interpreter.advance Interpreter.step
  rw [← hsame.evalNode_eq]
  cases heval : Interpreter.evalNode ⟨graph, config⟩ state.environment node with
  | error fault => exact .error _ _
  | ok value =>
    obtain ⟨y, format⟩ := value
    cases houtput : node.output? with
    | none => exact .error _ _
    | some output =>
      have hbound := h.bind_both hchecked houtput y format
      -- only a quantizer has a second effect, on what is noted and on what is on record
      by_cases hoperator : node.operator = .quantizeLinear
      · obtain ⟨input, scale, zeroPoint, params, hinput, hscale, hzero, hconstants, hparams⟩ :=
          operands_of_quantizeLinear hoperator heval
        show Agree _ (if node.operator = .quantizeLinear then _ else _) _
        rw [if_pos hoperator, operand_eq_ok hinput, hparams]
        show Agree _ (if (state.quantized.lookup input).isSome = true then _ else _) _
        rcases Walk.keep_eq_ok hkeep with ⟨rfl, hknown⟩ | ⟨input', output', scale', zeroPoint',
          params', -, hinput', houtput', hscale', hzero', hnew, hconstants', rfl⟩
        · obtain ⟨quantizer, hquantizer⟩ := Option.isSome_iff_exists.mp
            (hknown input output scale zeroPoint hoperator hinput houtput hscale hzero)
          obtain ⟨-, quantized, hquantized, -⟩ := h.quantized input quantizer hquantizer
          rw [hquantized]
          exact .ok hbound
        · obtain rfl := Option.some_inj.mp (hinput.symm.trans hinput')
          obtain rfl := Option.some_inj.mp (houtput.symm.trans houtput')
          obtain rfl := Option.some_inj.mp (hscale.symm.trans hscale')
          obtain rfl := Option.some_inj.mp (hzero.symm.trans hzero')
          obtain rfl := Except.ok.inj (hconstants.symm.trans hconstants')
          rw [h.unquantized input hnew]
          have hdefined : output ∈ next :=
            (hchecked.mem_iff output).mpr (.inr (List.mem_of_mem_head? houtput))
          exact .ok (hbound.record hnew hdefined
            (standsFor_of_sameOperands hsame hscale hzero hconstants y format))
      · have hwalk : walk' = walk := by
          rcases Walk.keep_eq_ok hkeep with ⟨hwalk, -⟩ | ⟨_, _, _, _, _, hcon, -⟩
          · exact hwalk
          · exact absurd hcon hoperator
        show Agree _ (if node.operator = .quantizeLinear then _ else _) _
        rw [if_neg hoperator, hwalk]
        exact .ok hbound

/-! ### Convolutions -/

variable {source : Quantizer} {nodes : List Node} {analyzed : Analyzed} {output : Params}
  {weightType : IntType}

/-- A quantizer that was put in stands for its value from then on. -/
theorem standsFor_derived {input : String} {params : Params} {type : IntType}
    (hvalid : params.Valid)
    (hcarried : params.CarriedBy type target.initializers.get?
      (Derived.scaleName (input ++ "_quant")) (Derived.zeroPointName (input ++ "_quant")))
    (y : Tensor) (format : Option FixedPoint.Format) :
    StandsFor target ⟨(input ++ "_quant", y) :: environment.values, format⟩
      (Quantizer.derived input params) ⟨y, params⟩ := by
  refine ⟨List.lookup_cons_self, rfl, ?_, ?_, ?_⟩
  · simp [Quantizer.derived, Derived.scaleName]
  · simp [Quantizer.derived, Derived.zeroPointName]
  · intro label
    exact Params.ofConstants?_of_carriedBy hvalid hcarried label

/-- **The data of a convolution** is quantized in both graphs, or has been quantized in both. -/
theorem agree_source (h : Simulates graph target defined walk.quantizers state environment)
    (hconverted : Converted graph target last) (hnode : node ∈ graph.nodes) {label input : String}
    (hinput : node.input? 0 = some input) (hvalid : walk.propagated.Valid)
    (hfresh : walk.quantizers.lookup input = none → input ++ "_quant" ∉ occurringNames graph)
    (hsource : walk.source ⟨.int weightType, .int (.forBits config.activationBits)⟩ label input
      = .ok (walk', source, nodes))
    (hderived : ∀ name tensor, walk'.derived.get? name = some tensor →
      target.initializers.get? name = some tensor)
    (hmem : ∀ other ∈ nodes, other ∈ target.nodes)
    (hchecked : nodes.foldlM Graph.checkNode defined = .ok next) :
    Agree
      (fun result environment' =>
        Simulates graph target next walk'.quantizers result.1 environment' ∧
          StandsFor target environment' source result.2)
      (Reference.source ⟨graph, config⟩ state node source.params)
      (nodes.foldlM (advance ⟨target, config⟩) environment) := by
  unfold Reference.source
  rw [operand_eq_ok hinput, ok_bind]
  rcases Walk.source_eq_ok hsource with ⟨hknown, rfl, rfl⟩ | ⟨derived, hnew, rfl, hadd, rfl, rfl⟩
  · cases hchecked
    obtain ⟨-, quantized, hquantized, hstands⟩ := h.quantized input source hknown
    rw [hquantized]
    exact .ok ⟨h, hstands⟩
  · -- a new quantizer: what it binds goes on record
    set quantizer := Quantizer.derived input walk.propagated
    obtain ⟨between, hnodeChecked, hdone⟩ := Graph.checkNodes_cons hchecked
    cases hdone
    have htarget : quantizer.node input ∈ target.nodes := hmem _ List.mem_cons_self
    have hreads : (quantizer.node input).input? 0 = some input := by
      have hne := (Graph.mem_inputs_of_input? hinput).2
      simp [Quantizer.node, Node.make, Node.input?, hne]
    have hcarried := (Derived.adds_of_addParams? hvalid hadd).2.mono hderived
    have hstep := advance_quantizer (J := ⟨target, config⟩) (e := environment) input hvalid hcarried
    rw [h.unquantized input hnew, List.foldlM_cons, hstep]
    show Agree _ (Interpreter.value _ _ _ _ >>= _) ((Interpreter.value _ _ _ _ >>= _) >>= _)
    rw [bind_assoc]
    refine .bind (.of_iff (fun x => h.value_iff hconverted hnode hinput htarget hreads)
      fun _ _ => rfl) ?_
    rintro x _ rfl
    rw [bind_assoc]
    refine .bind (.of_iff (fun y => quantizeTensor_congr node _) fun _ _ => rfl) ?_
    rintro y _ rfl
    have houtput : (quantizer.node input).output? = some (input ++ "_quant") := rfl
    have hbound := h.bind_hidden hnodeChecked houtput (hfresh hnew) y environment.leakyFormat
    rw [← h.leakyFormat_eq] at hbound ⊢
    have hstands : StandsFor target ⟨(input ++ "_quant", y) :: environment.values,
        state.environment.leakyFormat⟩ quantizer ⟨y, quantizer.params⟩ :=
      standsFor_derived hvalid hcarried y _
    have hdefined : quantizer.output ∈ next :=
      (hnodeChecked.mem_iff _).mpr (.inr (List.mem_of_mem_head? houtput))
    exact .ok ⟨hbound.record hnew hdefined hstands, hstands⟩

/-- The operands of a layer have its parameters. -/
theorem weightParams_of_operands {I : Interpreter} {layer : Layer} {operands : Operands}
    (h : Reference.operands I node layer quantized output = .ok operands) :
    operands.weightParams = layer.params := by
  unfold Reference.operands at h
  simp only [bind_eq_ok_iff, Except.ok.injEq] at h
  obtain ⟨_, -, _, -, _, -, _, -, _, -, _, -, _, -, _, -, _, -, _, -, rfl⟩ := h
  rfl

/-- **The quantized convolution of a layer** and the node after it do what the layer means. -/
theorem agree_layer (h : Simulates graph target defined quantizers state environment)
    (hname : source.output ≠ "") (hstands : StandsFor target environment source quantized)
    (hvalid : output.Valid)
    (hlayer : Walk.LayerCarried weightType (.forBits config.activationBits)
      target.initializers.get? node.label analyzed.layer output)
    (hfresh : Walk.dequantName node.label ∉ occurringNames graph)
    (hchecked : [Walk.convolution node source, Walk.dequantizer node analyzed.output].foldlM
      Graph.checkNode defined = .ok next) :
    Agree (Simulates graph target next quantizers)
      (Reference.layer ⟨graph, config⟩ state node analyzed quantized output)
      ([Walk.convolution node source, Walk.dequantizer node analyzed.output].foldlM
        (advance ⟨target, config⟩) environment) := by
  obtain ⟨between, hconvolution, hrest⟩ := Graph.checkNodes_cons hchecked
  obtain ⟨after, hdequantizer, hdone⟩ := Graph.checkNodes_cons hrest
  cases hdone
  obtain ⟨tensor, params⟩ := quantized
  obtain rfl : params = source.params := hstands.params_eq
  have hoperands : ∀ operands,
      Reference.operands ⟨graph, config⟩ node analyzed.layer ⟨tensor, source.params⟩ output
        = .ok operands ↔
      Interpreter.operands ⟨target, config⟩ (Walk.convolution node source) tensor = .ok operands :=
    fun operands => (operands_convolution_iff (I := ⟨graph, config⟩) (J := ⟨target, config⟩) rfl
      hstands.scale_ne hstands.zeroPoint_ne hstands.constants hvalid hlayer).symm
  rw [List.foldlM_cons, advance_convolution hname hstands.value_eq]
  unfold Reference.layer
  rw [bind_assoc]
  -- the format for leaky rectifiers is read off the operands, so their weights have to be known
  refine .bind (.of_iff (R := fun a b => a = b ∧ a.weightParams = analyzed.layer.params) hoperands
    fun operands hok => ⟨rfl, weightParams_of_operands hok⟩) ?_
  rintro operands _ ⟨rfl, hparams⟩
  rw [bind_assoc]
  refine .bind (.refl operands.result) ?_
  rintro y _ rfl
  rw [bind_assoc, hparams]
  refine .bind (.refl (activationFormat ⟨graph, config⟩ analyzed.layer.params)) ?_
  rintro format _ rfl
  have hmiddle := h.bind_hidden hconvolution rfl hfresh y (some format)
  show Agree _ _ (advance ⟨target, config⟩ _ _ >>= pure)
  rw [advance_dequantizer hvalid hlayer List.lookup_cons_self, bind_assoc]
  refine .bind (.of_iff (fun real => dequantizeTensor_congr node _) fun _ _ => rfl) ?_
  rintro real _ rfl
  exact .ok (hmiddle.bind_both hdequantizer rfl real (some format))

/-- The element types that go with a configuration. -/
def Types.ofConfig (config : Config) : Types :=
  ⟨.int (.forBits config.weightBits), .int (.forBits config.activationBits)⟩

variable {before after : List Node}

/-- The data that a convolution reads has a name, if the graph has one for it. -/
theorem output_ne_empty (hnamed : ReadsNamed graph) (hinvariant : Walk.Invariant graph before walk)
    (hsplit : graph.nodes = before ++ node :: after) (hoperator : node.operator = .conv)
    {types : Types} {label input : String} (hinput : node.input? 0 = some input)
    (hsource : walk.source types label input = .ok (walk', source, nodes)) :
    source.output ≠ "" := by
  rcases Walk.source_eq_ok hsource with ⟨hknown, -, -⟩ | ⟨_, -, rfl, -, -, -⟩
  · intro hempty
    refine hnamed before node after hsplit hoperator input hinput ?_
    rw [hinvariant.recorded_eq, hknown, Option.map_some, hempty]
  · simp [Quantizer.derived]

/-- **A convolution** means what the nodes that stand for it do, under the parameters that are
reported for it. -/
theorem agree_conv (hfresh : Fresh graph) (hnamed : ReadsNamed graph)
    (hconverted : Converted graph target last) (hinvariant : Walk.Invariant graph before walk)
    (hsplit : graph.nodes = before ++ node :: after) (hoperator : node.operator = .conv)
    (hanalyzed : analyzeConv graph config.weightBits node = .ok analyzed)
    (hconv : walk.conv (.ofConfig config) config.weightBits node analyzed = .ok (walk', nodes))
    (hgrows : Walk.Grows walk' last) (hmem : ∀ other ∈ nodes, other ∈ target.nodes)
    (hchecked : nodes.foldlM Graph.checkNode defined = .ok next) :
    ∃ report, walk'.layers = walk.layers ++ [report] ∧ ∀ state environment,
      Simulates graph target defined walk.quantizers state environment →
        Agree (Simulates graph target next walk'.quantizers)
          (Reference.conv ⟨graph, config⟩ state node report)
          (nodes.foldlM (advance ⟨target, config⟩) environment) := by
  have hspec := spec_of_analyzeConv hanalyzed
  have hnode : node ∈ graph.nodes := hsplit ▸ List.mem_append_right _ List.mem_cons_self
  obtain ⟨middle, source, quantize, output, derived, hsource, houtput, hadd, rfl, rfl⟩ :=
    Walk.conv_eq_ok hconv
  obtain ⟨-, hmiddle, -, hvalid⟩ := Walk.invariant_source hinvariant hoperator hspec.input_eq
    (hfresh before node after hsplit) hsource
  have houtputValid := valid_of_propagateScale? houtput
  obtain ⟨hadds, hcarried⟩ :=
    Walk.layer_of_addLayer hspec.weights_ints hspec.bias_ints houtputValid hadd
  have hderived : ∀ name tensor, derived.get? name = some tensor →
      target.initializers.get? name = some tensor :=
    fun name tensor hget => hconverted.derived_eq name tensor (hgrows.get?_eq name tensor hget)
  obtain ⟨between, hquantize, hrest⟩ := Graph.checkNodes_append hchecked
  refine ⟨_, by rw [← Walk.source_layers hsource], ?_⟩
  intro state environment h
  unfold Reference.conv
  rw [hanalyzed, List.foldlM_append]
  show Agree _ (Reference.source _ state node source.params >>= _) _
  refine .bind (agree_source h hconverted hnode hspec.input_eq hinvariant.propagated_valid
    (hinvariant.source_not_mem hfresh hsplit hoperator hspec.input_eq) hsource
    (fun name tensor hget => hderived name tensor (hadds.get?_eq name tensor hget))
    (fun other hother => hmem other (List.mem_append_left _ hother)) hquantize) ?_
  rintro ⟨state', data⟩ environment' ⟨hsimulates, hstands⟩
  exact agree_layer hsimulates
    (output_ne_empty hnamed hinvariant hsplit hoperator hspec.input_eq hsource) hstands houtputValid
    (hcarried.mono hderived) (Walk.dequantName_not_mem hfresh hsplit hoperator hspec.input_eq) hrest

/-! ### Runs -/

/-- **A run**: from related states, the meaning of a list of nodes and the nodes that stand for it
agree, under the parameters that are reported. -/
theorem agree_steps (hfresh : Fresh graph) (hnamed : ReadsNamed graph)
    (hconverted : Converted graph target last) {tagged : List (Node × Option Analyzed)}
    (hinvariant : Walk.Invariant graph before walk)
    (htagged : ∀ entry ∈ tagged, Tagged graph config.weightBits entry)
    (hsplit : graph.nodes = before ++ tagged.map (·.1))
    (hnodes : walk.nodes graph (.ofConfig config) config.weightBits tagged = .ok (last, nodes))
    (hmem : ∀ other ∈ nodes, other ∈ target.nodes)
    (hchecked : nodes.foldlM Graph.checkNode defined = .ok next) :
    ∃ reports, last.layers = walk.layers ++ reports ∧ ∀ state environment,
      Simulates graph target defined walk.quantizers state environment →
        Agree (Simulates graph target next last.quantizers)
          (Reference.steps ⟨graph, config⟩ state reports (tagged.map (·.1)))
          (nodes.foldlM (advance ⟨target, config⟩) environment) := by
  -- on the nodes of the old graph; the check of the new graph is taken apart alongside
  induction tagged generalizing before walk nodes defined with
  | nil =>
    cases hnodes
    cases hchecked
    exact ⟨[], (List.append_nil _).symm, fun state environment h => .ok h⟩
  | cons entry rest ih =>
    obtain ⟨middle, here, there, hstep, hrest, rfl⟩ := Walk.nodes_cons hnodes
    obtain ⟨between, hhere, hthere⟩ := Graph.checkNodes_append hchecked
    have hentry := htagged entry List.mem_cons_self
    have hothers : ∀ other ∈ rest, Tagged graph config.weightBits other :=
      fun other hother => htagged other (List.mem_cons_of_mem _ hother)
    rw [List.map_cons] at hsplit
    have hfirst : entry.1 ∈ graph.nodes := hsplit ▸ List.mem_append_right _ List.mem_cons_self
    obtain ⟨hmiddle, -⟩ :=
      Walk.invariant_node hinvariant hentry (hfresh before entry.1 _ hsplit) hstep
    have hsplit' : graph.nodes = (before ++ [entry.1]) ++ rest.map (·.1) := by
      rw [hsplit, List.append_cons]
    have hgrows : Walk.Grows middle last :=
      (Walk.invariant_nodes hfresh hmiddle hothers
        (by rw [hsplit', List.append_nil]) hrest).2
    obtain ⟨reports, hreports, hagree⟩ := ih hmiddle hothers hsplit' hrest
      (fun other hother => hmem other (List.mem_append_right _ hother)) hthere
    obtain ⟨node, tag⟩ := entry
    cases tag with
    | some analyzed =>
      obtain ⟨report, hreport, hconv⟩ := agree_conv hfresh hnamed hconverted hinvariant hsplit
        hentry.1 hentry.2 hstep hgrows
        (fun other hother => hmem other (List.mem_append_left _ hother)) hhere
      refine ⟨report :: reports, by rw [hreports, hreport, List.append_assoc, List.singleton_append], ?_⟩
      intro state environment h
      rw [List.map_cons, Reference.steps, if_pos hentry.1, List.foldlM_append]
      exact .bind (hconv state environment h) hagree
    | none =>
      obtain ⟨kept, hkeep, heq⟩ := map_eq_ok_iff.mp hstep
      obtain ⟨rfl, rfl⟩ := Prod.mk.inj heq
      obtain ⟨after, hnode, hdone⟩ := Graph.checkNodes_cons hhere
      cases hdone
      refine ⟨reports, by rw [hreports, Walk.keep_layers hkeep], ?_⟩
      intro state environment h
      show Agree _ (if node.operator = .conv then _ else Reference.keep _ state node >>= _) _
      rw [if_neg hentry, List.cons_append, List.nil_append, List.foldlM_cons]
      refine .bind (agree_keep h hconverted hfirst ?_ hnode hkeep) hagree
      exact hmem node (List.mem_append_left _ List.mem_cons_self)

end DyadicNet.Quantize
