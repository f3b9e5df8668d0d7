import Mathlib
import DyadicNet.Proofs.Eval.Zero
import DyadicNet.Proofs.Quantize.Accumulator

/-!
# Zero in, zero out

A graph of convolutions without bias, rectifiers, padding and pooling gives zeros for zeros, and
**so does the graph that it is converted to**, at every node and under all settings.  The nodes that
were put in are no exception: zero is quantized to zero, the codeword of a zero bias is zero, and the
weights do not matter, not even if all of them are zero.

No node may have a constant as its data.  For a node of the old graph this is an assumption; the data
of an inserted node is what another node writes, or what the convolution had as its data.

## Main Definitions

* `Homogeneous` — graphs of such operators.

## Main Statements

* `Encoded.eq_zero` — the codewords of zeros;
* `keepsZeros_of_kept`, `keepsZeros_of_conversion` — the nodes of a conversion;
* `quantize_zeros` — the runs of a conversion.
-/

namespace DyadicNet.Quantize

open Binary64 Eval Eval.Interpreter FixedPoint

variable {graph target : Graph} {config settings : Config} {report : Report} {last : Walk}
  {blocks : List Block} {conversion : Conversion} {source : Quantizer} {node producer : Node}
  {name : String} {x : Tensor} {operands : Operands}

/-! ### Codewords -/

/-- The codeword of zero is zero, in every format. -/
theorem nearest_of_isZero (format : Format) {value : Binary64} (h : value.IsZero) :
    format.nearest value = 0 := by
  obtain ⟨s, rfl⟩ := isZero_iff.mp h
  have hvalue : (zero s).toRat = 0 := by
    rw [(denotes_zero s).toRat_eq, neg_zero, ite_self]
  rw [format.nearest_of_isFinite rfl, hvalue, zero_mul, roundHalfEven_zero,
    clampInt_eq_self format.least_nonpos format.greatest_nonneg]

/-- The codewords of zeros are zero. -/
theorem Encoded.eq_zero {format : Format} {type : IntType} {values codes : Tensor}
    (h : Encoded format type values codes) (hzero : values.elements.AllZero) {ints : Array ℤ}
    (hints : codes.ints? = some ints) : ∀ v ∈ ints, v = 0 := by
  obtain ⟨reals, hreals, -, helements⟩ := h.elements
  obtain ⟨_, hcodes⟩ := Tensor.ints?_eq_some_iff.mp hints
  obtain ⟨-, rfl⟩ := Elements.ints.inj (helements.symm.trans hcodes)
  rw [hreals] at hzero
  intro v hv
  obtain ⟨value, hvalue, rfl⟩ := Array.mem_map.mp hv
  exact nearest_of_isZero format (hzero value hvalue)

/-! ### Graphs that keep zeros -/

/-- A graph of convolutions without bias, rectifiers, padding and pooling.  No node has a constant as
its data, and where the largest element is pooled, the padding is narrower than the window. -/
structure Homogeneous (graph : Graph) : Prop where
  operators : ∀ node ∈ graph.nodes,
    node.operator ∈ [Operator.conv, .relu, .leakyRelu, .pad, .maxPool, .globalAveragePool]
  data : ∀ node ∈ graph.nodes, ∀ name, node.input? 0 = some name →
    graph.initializers.get? name = none
  bias : ∀ node ∈ graph.nodes, node.operator = .conv → ∀ name bias, node.input? 2 = some name →
    graph.initializers.get? name = some bias → bias.elements.AllZero
  narrower : ∀ node ∈ graph.nodes, node.operator = .maxPool → ∀ kernel padding,
    node.kernelShape? = .ok kernel → node.pads? = .ok padding → Narrower padding kernel

theorem Homogeneous.plain (h : Homogeneous graph) :
    ∀ node ∈ graph.nodes, node.operator ≠ .quantizeLinear := by
  intro node hnode hquantize
  have hoperator := h.operators node hnode
  rw [hquantize] at hoperator
  simp at hoperator

/-! ### The nodes of a conversion -/

/-- What a node writes is no constant. -/
theorem get?_eq_none_of_written (htarget : target.validate = .ok ()) (hnode : node ∈ target.nodes)
    (hname : name ∈ node.outputs) : target.initializers.get? name = none := by
  rw [← Option.not_isSome_iff_eq_none, NameTable.isSome_get?_iff]
  exact fun hconstant =>
    not_external_of_output htarget hnode hname (List.mem_append_right _ hconstant)

/-- What is no constant of the old graph is none of the new one, if a node there reads it. -/
theorem get?_eq_none_of_converted (hconverted : Converted graph target last)
    (hhomogeneous : Homogeneous graph) {reader : Node} (hreader : reader ∈ target.nodes)
    (hread : reader.input? 0 = some name) (hnode : node ∈ graph.nodes)
    (hname : node.input? 0 = some name) : target.initializers.get? name = none := by
  rw [hconverted.get?_eq hreader hread
    (mem_occurringNames_of_input? hconverted.source_checked hnode hname)]
  exact hhomogeneous.data node hnode name hname

/-- A node that stays keeps zeros as before. -/
theorem keepsZeros_of_kept (hconverted : Converted graph target last)
    (hhomogeneous : Homogeneous graph) (hnode : node ∈ graph.nodes)
    (htarget : node ∈ target.nodes) : KeepsZeros ⟨target, settings⟩ node where
  data _ hname := get?_eq_none_of_converted hconverted hhomogeneous htarget hname hnode hname
  narrower := hhomogeneous.narrower node hnode
  bias hquantized := by
    have hoperator := hhomogeneous.operators node hnode
    rw [hquantized] at hoperator
    simp at hoperator

/-- **The operands of a quantized convolution without bias**: its codewords are zero. -/
theorem bias_eq_zero_of_carried
    (hcarried : conversion.Carried graph config target.initializers.get?)
    (hproduces : Produces target source producer)
    (hconvolution : conversion.convolution = Walk.convolution conversion.node source)
    (hparams : conversion.report.input = source.params)
    (hbias : ∀ name bias, conversion.node.input? 2 = some name →
      graph.initializers.get? name = some bias → bias.elements.AllZero)
    (hoperands : Interpreter.operands ⟨target, settings⟩ conversion.convolution x
      = .ok operands) :
    ∀ v ∈ operands.bias, v = 0 := by
  have hassembled := assembled_of_operands hoperands
  obtain ⟨analyzed, hanalyzed, -, hfound⟩ :=
    found_of_carried hcarried hproduces hconvolution hparams settings
  obtain ⟨weights, bias, -, hbiasName, -, hbiasConstant, hanalyze⟩ :=
    constants_of_analyzeConv hanalyzed
  obtain ⟨-, hcodes, -⟩ := encoded_of_analyze hanalyze
  obtain ⟨_, hname, hconstant⟩ := hfound.bias
  exact hcodes.eq_zero (hbias _ _ hbiasName hbiasConstant) (hassembled.bias_eq hconstant hname)

/-- **The nodes that stand for a convolution keep zeros.** -/
theorem keepsZeros_of_conversion (hconverted : Converted graph target last)
    (hhomogeneous : Homogeneous graph) (hwell : conversion.WellFormed)
    (hold : conversion.node ∈ graph.nodes) (hnew : ∀ node ∈ conversion.nodes, node ∈ target.nodes)
    (hcarried : conversion.Carried graph config target.initializers.get?)
    (hproduces : Produces target source producer)
    (hconvolution : conversion.convolution = Walk.convolution conversion.node source)
    (hparams : conversion.report.input = source.params) :
    ∀ node ∈ conversion.nodes, KeepsZeros ⟨target, settings⟩ node := by
  have htarget := hconverted.target_checked
  intro node hnode
  have hmem := hnew node hnode
  simp only [Conversion.nodes, List.mem_append, Option.mem_toList, List.mem_cons,
    List.not_mem_nil, or_false] at hnode
  rcases hnode with hquantizer | rfl | rfl
  · obtain ⟨hoperator, hinput, -⟩ := hwell.quantizer node hquantizer
    refine .of_data (fun name hname => ?_) (by simp [hoperator]) (by simp [hoperator])
    exact get?_eq_none_of_converted hconverted hhomogeneous hmem hname hold (hinput ▸ hname)
  · have hoperator := hwell.convolution_operator
    refine ⟨fun name hname => ?_, fun hpool => absurd hpool (by simp [hoperator]),
      fun _ x operands hoperands => ?_⟩
    · obtain rfl := eq_output_of_input? (hconvolution ▸ hname)
      exact get?_eq_none_of_written htarget hproduces.mem_nodes
        (List.mem_of_mem_head? hproduces.output_eq)
    · exact bias_eq_zero_of_carried hcarried hproduces hconvolution hparams
        (hhomogeneous.bias _ hold hwell.operator_eq) hoperands
  · have hoperator := hwell.dequantizer_operator
    refine .of_data (fun name hname => ?_) (by simp [hoperator]) (by simp [hoperator])
    obtain ⟨result, houtputs, hhead⟩ := hwell.result_eq
    obtain rfl := Option.some_inj.mp (hhead.symm.trans (Graph.head?_of_input? hname))
    exact get?_eq_none_of_written htarget (hnew _ (by simp [Conversion.nodes]))
      (houtputs ▸ List.mem_singleton_self _)

/-- **Zero in, zero out.**  Every run of the new graph that has a result, under whatever settings, on
a tensor of zeros in which no axis is empty, traces a tensor of zeros at every node. -/
theorem quantize_zeros (hgraph : graph.validate = .ok ()) (hfresh : Fresh graph)
    (hhomogeneous : Homogeneous graph) (h : quantize config graph = .ok report)
    {I : Interpreter} (hmake : make? report.graph settings = .ok I) {input result : Tensor}
    (hextents : ∀ n ∈ input.shape, 1 ≤ n) (hzero : input.elements.AllZero)
    (hrun : I.run? input = .ok result) :
    ∃ values, I.trace? input = .ok values ∧
      values.map (·.1) = report.graph.nodes.map Node.label ∧
      ∀ entry ∈ values, entry.2.Zeros := by
  obtain ⟨hconfig, -, rfl⟩ := make?_eq_ok_iff.mp hmake
  obtain ⟨start, last, blocks, -, -, hspliced, hconverted, -, hconversions⟩ :=
    exists_steps_of_plain hhomogeneous.plain h
  have hconverted := hconverted hgraph hfresh
  refine zeros_of_run? (Config.valid_of_validate hconfig) ?_ ⟨hasPlanes_of_pos hextents, hzero⟩ hrun
  intro node hnode
  obtain ⟨block, hblock, hnode⟩ := List.mem_flatMap.mp (hspliced.nodes_eq ▸ hnode)
  have hold : block.source ∈ graph.nodes := hspliced.sources_eq ▸ List.mem_map_of_mem hblock
  have hnew : ∀ node ∈ block.nodes, node ∈ report.graph.nodes := fun node hnode =>
    hspliced.nodes_eq ▸ List.mem_flatMap.mpr ⟨block, hblock, hnode⟩
  cases block with
  | kept kept =>
    obtain rfl := List.mem_singleton.mp hnode
    exact keepsZeros_of_kept hconverted hhomogeneous hold (hnew _ hnode)
  | converted conversion =>
    obtain ⟨hcarried, source, producer, hconvolution, hparams, hproduces⟩ :=
      hconversions conversion (mem_conversions.mpr hblock)
    exact keepsZeros_of_conversion hconverted hhomogeneous (hspliced.wellFormed _ hblock) hold hnew
      hcarried hproduces hconvolution hparams node hnode

/-! ### One operator of every kind -/

/-- A convolution, whose bias is minus zero, and one operator of every other kind after it.  The
padding before the largest elements is as wide as it may be. -/
def pooling : Graph :=
  { name := "pooling"
    opset := 9
    inputs := [.ofName "x"]
    outputs := [.ofName "y"]
    nodes := [.make .conv "c" ["x", "w", "b"] ["conv"], .make .relu "r" ["conv"] ["relu"],
      { operator := .pad, name := "p", inputs := ["relu"], outputs := ["pad"],
        attributes := .ofList [("pads", .ints [0, 0, 0, 0, 0, 0, 0, 1])] },
      { operator := .maxPool, name := "m", inputs := ["pad"], outputs := ["max"],
        attributes := .ofList [("kernel_shape", .ints [2, 2]), ("pads", .ints [1, 1, 1, 1])] },
      .make .leakyRelu "l" ["max"] ["leaky"], .make .globalAveragePool "g" ["leaky"] ["y"]]
    initializers :=
      .ofList [("w", .oneReal 4 (.ofInt 3)), ("b", .oneReal 1 (.zero true))] }

/-- Zeros of either sign. -/
def bothZeros : Tensor :=
  ⟨[1, 1, 1, 2], .reals #[.zero false, .zero true], by decide, rfl⟩

theorem homogeneous_pooling : Homogeneous pooling := by
  have hdata : ∀ node ∈ pooling.nodes, ((node.input? 0).all fun name =>
      (pooling.initializers.get? name).isNone) = true := by decide +kernel
  have hbias : ∀ node ∈ pooling.nodes, node.operator = .conv →
      (((node.input? 2).bind pooling.initializers.get?).all fun bias =>
        bias.elements.AllZero) = true := by decide +kernel
  have hwindow : ∀ node ∈ pooling.nodes, node.operator = .maxPool →
      node.kernelShape? = .ok ⟨2, 2⟩ ∧ node.pads? = .ok ⟨1, 1, 1, 1⟩ := by decide +kernel
  refine ⟨by decide, ?_, ?_, ?_⟩
  · intro node hnode name hname
    have hnone := hdata node hnode
    rw [hname] at hnone
    exact Option.isNone_iff_eq_none.mp hnone
  · intro node hnode hoperator name bias hname hconstant
    have hzero := hbias node hnode hoperator
    rw [hname, Option.bind_some, hconstant] at hzero
    exact of_decide_eq_true hzero
  · intro node hnode hoperator kernel padding hkernel hpads
    obtain ⟨hkernel', hpads'⟩ := hwindow node hnode hoperator
    obtain rfl := Except.ok.inj (hkernel.symm.trans hkernel')
    obtain rfl := Except.ok.inj (hpads.symm.trans hpads')
    exact ⟨by decide, by decide, by decide, by decide⟩

/-- All eight nodes of the new graph give zeros, in a run that has a result. -/
theorem quantize_zeros_pooling :
    pooling.validate = .ok () ∧ Fresh pooling ∧ Homogeneous pooling ∧
      (∀ n ∈ bothZeros.shape, 1 ≤ n) ∧ bothZeros.elements.AllZero ∧
      ∃ report, quantize {} pooling = .ok report ∧ ∃ I result values,
        make? report.graph {} = .ok I ∧ I.run? bothZeros = .ok result ∧
        I.trace? bothZeros = .ok values ∧ values.length = 8 ∧
        ∀ entry ∈ values, entry.2.Zeros := by
  have hvalidate : pooling.validate = .ok () := by decide +kernel
  have hfresh : Fresh pooling := by decide +kernel
  have hextents : ∀ n ∈ bothZeros.shape, 1 ≤ n := by decide
  have hzero : bothZeros.elements.AllZero := by decide +kernel
  have hconfig : ({} : Config).validate = .ok () := by decide +kernel
  have hquantize : (quantize {} pooling).toOption.map (fun report =>
      ((Interpreter.run? ⟨report.graph, {}⟩ bothZeros).isOk, report.graph.nodes.length))
        = some (true, 8) := by
    decide +kernel
  cases hreport : quantize {} pooling with
  | error fault =>
    rw [hreport] at hquantize
    cases hquantize
  | ok report =>
    rw [hreport] at hquantize
    obtain ⟨hok, hcount⟩ := Prod.mk.inj (Option.some_inj.mp hquantize)
    obtain ⟨result, hrun⟩ := exists_of_isOk hok
    obtain ⟨-, -, -, -, -, -, -, htarget, -⟩ := exists_steps hreport
    have hmake : make? report.graph {} = .ok ⟨report.graph, {}⟩ :=
      make?_eq_ok_iff.mpr ⟨hconfig, htarget, rfl⟩
    obtain ⟨values, htrace, hlabels, hzeros⟩ := quantize_zeros hvalidate hfresh
      homogeneous_pooling hreport hmake hextents hzero hrun
    have hlength := congrArg List.length hlabels
    rw [List.length_map, List.length_map, hcount] at hlength
    exact ⟨hvalidate, hfresh, homogeneous_pooling, hextents, hzero, report, rfl, _, result, values,
      hmake, hrun, htrace, hlength, hzeros⟩

end DyadicNet.Quantize
