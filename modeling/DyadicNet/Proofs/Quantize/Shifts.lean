import Mathlib
import DyadicNet.Proofs.Quantize.Analysis
import DyadicNet.Proofs.Quantize.Frame
import DyadicNet.Proofs.Quantize.Metadata

/-!
# The shifts of inserted convolutions

A quantized convolution goes from scale to scale by shifts, and an evaluation refuses a shift of
more than 62 bits.  In a graph without quantizers of its own all scales come from the conversion, so
the shifts can be told from the bounds that it keeps.  With a network scale between `1` and
`2 ^ 62`, no data is scaled by less than one: the sum is shifted by the exponent of its data, the
bias is not shifted at all, and the output is shifted by the exponent of its scale and the fraction
bits of the layer.

The first of these two is at most the width of the weights, and the second less than it.  **At the
widest format there is one bit too many**: 32 and 31 make 63, and such a convolution is refused
whatever its data is.  In all other cases no convolution is refused for its shifts.

## Main Definitions

* `Params.InReach`, `Walk.Bounded` — the scales that a walk propagates and notes;
* `HasShifts` — the shifts of a node, by the constants that it names;
* `LayerReport.shifts` — the shifts of a layer;
* `ShiftsBounded` — what is known about the shifts of an inserted convolution.

## Main Statements

* `all_of_plain` — the scales of a graph without quantizers;
* `scaled_of_steps` — the scales and the format of a layer;
* `quantize_shifts` — the shifts of a conversion.
-/

namespace DyadicNet.Quantize

open Eval

variable {graph target : Graph} {config : Config} {types : Types} {totalBits : ℕ} {report : Report}
  {start walk walk' last middle : Walk} {block : Block} {blocks : List Block}
  {conversion : Conversion} {source : Quantizer} {params output : Params}

/-! ### The scales of a walk -/

/-- The scale lies between `1` and `2 ^ 62`. -/
structure Params.InReach (params : Params) : Prop where
  nonneg : 0 ≤ params.exponent
  le : params.exponent ≤ 62

/-- A scale between `1` and `2 ^ 62` has an exponent between `0` and `62`. -/
theorem Params.Valid.inReach (h : params.Valid) (hlow : 1 ≤ params.scale.toRat)
    (hhigh : params.scale.toRat ≤ 2 ^ 62) : params.InReach := by
  rw [h.toRat_scale] at hlow hhigh
  constructor
  · by_contra hneg
    exact absurd hlow (not_le.mpr (zpow_lt_one_of_neg₀ one_lt_two (not_le.mp hneg)))
  · have hpow : (2 : ℚ) ^ params.exponent ≤ 2 ^ (62 : ℤ) := by exact_mod_cast hhigh
    exact (zpow_le_zpow_iff_right₀ one_lt_two).mp hpow

/-- The exponent of an output lies between `0` and the width of the weights. -/
theorem exponent_mem_of_propagateScale? {node : String} {input : Params} {mean : Binary64}
    (hbits : totalBits ≤ 32) (h : propagateScale? node input mean totalBits = .ok output) :
    0 ≤ output.exponent ∧ output.exponent ≤ totalBits := by
  rw [exponent_of_propagateScale? (by omega) h]
  exact ⟨le_clampInt _ _ _, clampInt_le (Int.natCast_nonneg _) _⟩

/-- The scales that a walk propagates and has noted are in reach. -/
structure Walk.Bounded (walk : Walk) : Prop where
  propagated : walk.propagated.InReach
  quantizers : ∀ input quantizer, walk.quantizers.lookup input = some quantizer →
    quantizer.params.InReach

theorem Walk.bounded_iff : walk.Bounded ↔ walk.All Params.InReach :=
  ⟨fun h => ⟨h.propagated, h.quantizers⟩, fun h => ⟨h.propagated, h.quantizers⟩⟩

/-- **In a graph without quantizers a property of scales is kept** if all outputs have it. -/
theorem all_of_plain {P : Params → Prop}
    (hplain : ∀ block ∈ blocks, block.source.operator ≠ .quantizeLinear)
    (hP : ∀ params : Params, 0 ≤ params.exponent → params.exponent ≤ totalBits → P params)
    (hbits : totalBits ≤ 32) (hstart : start.All P)
    (h : Steps graph types totalBits start blocks last) (hmem : conversion ∈ conversions blocks) :
    P conversion.report.input ∧ P conversion.report.output :=
  all_of_conversion (fun block hblock hquantize => absurd hquantize (hplain block hblock))
    (fun _ _ _ output houtput =>
      let ⟨hnonneg, hle⟩ := exponent_mem_of_propagateScale? hbits houtput
      hP output hnonneg hle) hstart h hmem

/-- The exponent of the output of a layer lies between `0` and the width of the weights. -/
theorem output_exponent_of_steps (hbits : totalBits ≤ 32)
    (h : Steps graph types totalBits start blocks last) (hmem : conversion ∈ conversions blocks) :
    0 ≤ conversion.report.output.exponent ∧ conversion.report.output.exponent ≤ totalBits := by
  obtain ⟨front, back, hsplit⟩ := List.append_of_mem (mem_conversions.mp hmem)
  obtain ⟨walk, walk', -, hstep⟩ := h.at hsplit
  cases hstep with
  | convert _ _ _ houtput _ hreport =>
    subst hreport
    exact exponent_mem_of_propagateScale? hbits houtput

/-- The scales of a layer are in reach, and its format has a bit that is no fraction. -/
structure LayerReport.Scaled (totalBits : ℕ) (layer : LayerReport) : Prop where
  input : layer.input.InReach
  output_nonneg : 0 ≤ layer.output.exponent
  output_le : layer.output.exponent ≤ totalBits
  fracBits_lt : layer.format.fracBits < totalBits

/-- Not all bits of the format of a layer are after the point. -/
theorem fracBits_lt_of_steps (h : Steps graph types totalBits start blocks last)
    (hmem : conversion ∈ conversions blocks) :
    conversion.report.format.fracBits < totalBits := by
  obtain ⟨front, back, hsplit⟩ := List.append_of_mem (mem_conversions.mp hmem)
  obtain ⟨walk, walk', -, hstep⟩ := h.at hsplit
  cases hstep with
  | convert _ hanalyzed _ _ _ hreport =>
    obtain ⟨_, _, -, -, -, -, hlayer⟩ := constants_of_analyzeConv hanalyzed
    subst hreport
    exact fracBits_lt_of_analyze hlayer

/-- **Along a graph without quantizers all scales are in reach.** -/
theorem scaled_of_steps (hbits : totalBits ≤ 32)
    (hplain : ∀ block ∈ blocks, block.source.operator ≠ .quantizeLinear) (hstart : start.Bounded)
    (h : Steps graph types totalBits start blocks last) (hmem : conversion ∈ conversions blocks) :
    conversion.report.Scaled totalBits := by
  obtain ⟨hinput, -⟩ := all_of_plain (P := Params.InReach) hplain
    (fun _ hnonneg hle => ⟨hnonneg, hle.trans (by omega)⟩) hbits (Walk.bounded_iff.mp hstart) h hmem
  obtain ⟨hnonneg, hle⟩ := output_exponent_of_steps hbits h hmem
  exact ⟨hinput, hnonneg, hle, fracBits_lt_of_steps h hmem⟩

/-! ### Shifts -/

/-- A quantized convolution has these shifts in a graph, by the constants that it names. -/
def HasShifts (target : Graph) (node : Node) (shifts : Shifts) : Prop :=
  ∃ data weights output : Params,
    (∀ settings, Interpreter.params ⟨target, settings⟩ node 1 2 = .ok data ∧
      Interpreter.params ⟨target, settings⟩ node 4 5 = .ok weights ∧
      Interpreter.params ⟨target, settings⟩ node 6 7 = .ok output) ∧
    shifts = .ofExponents data.exponent weights.exponent output.exponent

/-- What is known about the shifts of an inserted convolution.  Only the shift of the output can be
too large, at the widest format and the largest output scale. -/
structure ShiftsBounded (target : Graph) (config : Config) (conversion : Conversion)
    (shifts : Shifts) : Prop where
  found : HasShifts target conversion.convolution shifts
  input_nonneg : 0 ≤ shifts.input
  input_le : shifts.input ≤ 62
  bias_eq : shifts.bias = 0
  output_nonneg : 0 ≤ shifts.output
  output_le : shifts.output ≤ 63
  widest_iff : shifts.output = 63 ↔ config.weightBits = 32 ∧
    conversion.report.format.fracBits = 31 ∧ conversion.report.output.scale.toRat = 2 ^ 32
  accepted : shifts.output ≠ 63 → ∀ settings environment, Avoids Error.OfShifts
    (Interpreter.evalNode ⟨target, settings⟩ environment conversion.convolution)
  refused : shifts.output = 63 → ∀ settings environment value,
    Interpreter.evalNode ⟨target, settings⟩ environment conversion.convolution ≠ .ok value

/-- An output has the largest scale exactly if it has the largest exponent. -/
theorem Params.Valid.toRat_eq_iff (h : params.Valid) :
    params.scale.toRat = 2 ^ 32 ↔ params.exponent = 32 := by
  rw [h.toRat_scale, show (2 : ℚ) ^ 32 = 2 ^ (32 : ℤ) by norm_num]
  exact zpow_right_inj₀ two_pos one_lt_two.ne'

/-- The shifts of a layer, by its scales and its format. -/
def LayerReport.shifts (layer : LayerReport) : Shifts :=
  .ofExponents layer.input.exponent (-layer.format.fracBits) layer.output.exponent

/-- **Data is scaled by one at least, so sum and bias count units of the weights**: only data and
output are shifted. -/
theorem LayerReport.Scaled.shifts_eq {layer : LayerReport} (h : layer.Scaled totalBits) :
    layer.shifts = ⟨layer.input.exponent, 0, layer.output.exponent + layer.format.fracBits⟩ := by
  unfold LayerReport.shifts Shifts.ofExponents
  rw [min_eq_right h.input.nonneg]
  simp

/-- All shifts of a layer are small enough, unless its output is shifted by 63 bits. -/
theorem LayerReport.Scaled.areSmall_shifts_iff {layer : LayerReport} (hbits : totalBits ≤ 32)
    (h : layer.Scaled totalBits) : layer.shifts.areSmall = true ↔ layer.shifts.output ≠ 63 := by
  obtain ⟨⟨hdataLow, hdataHigh⟩, houtputLow, houtputHigh, hfrac⟩ := id h
  rw [areSmall_iff, h.shifts_eq]
  dsimp only
  omega

/-- The scales that an inserted convolution finds are those of its layer, under all settings. -/
theorem params_of_found (hfound : ∀ settings, ∃ layer : Layer,
      layer.format = conversion.report.format ∧ conversion.Found target config settings layer)
    (settings : Config) :
    Interpreter.params ⟨target, settings⟩ conversion.convolution 1 2
        = .ok conversion.report.input ∧
      Interpreter.params ⟨target, settings⟩ conversion.convolution 4 5
        = .ok (.ofFormat conversion.report.format) ∧
      Interpreter.params ⟨target, settings⟩ conversion.convolution 6 7
        = .ok conversion.report.output := by
  obtain ⟨layer, hformat, hfound⟩ := hfound settings
  exact ⟨hfound.dataParams, hformat ▸ hfound.weightParams, hfound.outputParams⟩

/-- **The shifts follow from the scales and the format of the layer.** -/
theorem shiftsBounded_of_found (hbits : config.weightBits ≤ 32)
    (hscaled : conversion.report.Scaled config.weightBits)
    (hvalid : conversion.report.output.Valid)
    (hoperator : conversion.convolution.operator = .qlinearConv)
    (hfound : ∀ settings, ∃ layer : Layer, layer.format = conversion.report.format ∧
      conversion.Found target config settings layer) :
    ShiftsBounded target config conversion conversion.report.shifts := by
  have hparams := params_of_found hfound
  have hsmall := hscaled.areSmall_shifts_iff hbits
  obtain ⟨⟨hdataLow, hdataHigh⟩, houtputLow, houtputHigh, hfrac⟩ := id hscaled
  have hfits : 0 ≤ conversion.report.shifts.input ∧ conversion.report.shifts.input ≤ 62 ∧
      conversion.report.shifts.bias = 0 ∧ 0 ≤ conversion.report.shifts.output ∧
      conversion.report.shifts.output ≤ 63 := by
    rw [hscaled.shifts_eq]
    dsimp only
    omega
  refine
    { found := ⟨_, _, _, hparams, rfl⟩
      input_nonneg := hfits.1
      input_le := hfits.2.1
      bias_eq := hfits.2.2.1
      output_nonneg := hfits.2.2.2.1
      output_le := hfits.2.2.2.2
      widest_iff := ?_
      accepted := ?_
      refused := ?_ }
  · rw [hscaled.shifts_eq, hvalid.toRat_eq_iff]
    dsimp only
    omega
  · intro houtput settings environment
    obtain ⟨hdata, hweights, hresult⟩ := hparams settings
    obtain ⟨layer, -, hfound⟩ := hfound settings
    refine Interpreter.avoids_shifts_of_areSmall hoperator hfound.hasConstants ?_
    intro data weights output hdata' hweights' hresult'
    obtain rfl := Except.ok.inj (hdata.symm.trans hdata')
    obtain rfl := Except.ok.inj (hweights.symm.trans hweights')
    obtain rfl := Except.ok.inj (hresult.symm.trans hresult')
    exact hsmall.mpr houtput
  · intro houtput settings environment value hvalue
    obtain ⟨hdata, hweights, hresult⟩ := hparams settings
    have haccepted := Interpreter.areSmall_of_evalNode hoperator hdata hweights hresult hvalue
    exact hsmall.mp haccepted houtput

/-- In a graph without quantizers of its own, the data of every convolution comes from a quantizer
that was put in. -/
theorem exists_produces_of_plain (hstart : start.quantizers = [])
    (hsteps : Steps graph types totalBits start blocks last)
    (hplain : ∀ block ∈ blocks, block.source.operator ≠ .quantizeLinear)
    (hnodes : target.nodes = blocks.flatMap Block.nodes)
    (hcarried : ∀ conversion ∈ conversions blocks,
      conversion.Carried graph config target.initializers.get?)
    (hmem : conversion ∈ conversions blocks) :
    ∃ source node, conversion.convolution = Walk.convolution conversion.node source ∧
      conversion.report.input = source.params ∧ Produces target source node := by
  obtain ⟨source, input, hconvolution, hparams, block, hblock, hsupplies⟩ :=
    exists_supplier hstart hsteps hmem
  cases hsupplies with
  | existing hcomplete => exact absurd hcomplete.operator_eq (hplain _ hblock)
  | @inserted supplier _ hinput hquantizer hderived =>
    have hsupplier := mem_conversions.mpr hblock
    exact ⟨source, _, hconvolution, hparams, produces_of_inserted hnodes hsupplier
      (hcarried supplier hsupplier) hinput hquantizer hderived⟩

/-- **The shifts of a conversion.**  In a graph without quantizers of its own, with a network scale
between `1` and `2 ^ 62`, every inserted convolution finds its scales, and its shifts are not
negative and have 62 bits at most.  The one exception is an output shift of 63 bits, which the widest
format has together with the largest output scale; then no evaluation of the node has a value. -/
theorem quantize_shifts (hplain : ∀ node ∈ graph.nodes, node.operator ≠ .quantizeLinear)
    (hlow : 1 ≤ config.inputScale.toRat) (hhigh : config.inputScale.toRat ≤ 2 ^ 62)
    (h : quantize config graph = .ok report) :
    ∃ blocks, Spliced graph report blocks ∧
      (conversions blocks).map Conversion.node
        = graph.nodes.filter (fun node => node.operator == .conv) ∧
      ∀ conversion ∈ conversions blocks, ∃ shifts,
        ShiftsBounded report.graph config conversion shifts := by
  have hbits := (valid_of_quantize h).weightBits_le
  obtain ⟨input, last, nodes, blocks, hinput, hsteps, rfl, -, hspliced, -⟩ := exists_steps h
  obtain ⟨hvalid, hscale, -⟩ := Params.make?_eq_ok_iff.mp hinput
  have hplain : ∀ block ∈ blocks, block.source.operator ≠ .quantizeLinear := fun block hblock =>
    hplain _ (hspliced.sources_eq ▸ List.mem_map_of_mem hblock)
  have hbounded : (Walk.start graph input).Bounded :=
    ⟨hvalid.inReach (hscale ▸ hlow) (hscale ▸ hhigh), fun _ _ hlookup => by cases hlookup⟩
  have hcarried : ∀ conversion ∈ conversions blocks,
      conversion.Carried graph config (assemble config graph last nodes).initializers.get? := by
    intro conversion hmem
    refine (carried_of_steps ⟨hvalid, fun _ _ hlookup => by cases hlookup⟩ hsteps conversion
      hmem).mono ?_
    intro name tensor hname
    rw [get?_assemble (accounts_of_steps hsteps).nodup, hname]
    rfl
  have hconvolutions := map_node_conversions hspliced.wellFormed
  rw [hspliced.sources_eq] at hconvolutions
  refine ⟨blocks, hspliced, hconvolutions, ?_⟩
  intro conversion hmem
  obtain ⟨source, node, hconvolution, hparams, hproduces⟩ :=
    exists_produces_of_plain rfl hsteps hplain hspliced.nodes_eq hcarried hmem
  have hwell : conversion.WellFormed := hspliced.wellFormed _ (mem_conversions.mp hmem)
  refine ⟨_, shiftsBounded_of_found hbits (scaled_of_steps hbits hplain hbounded hsteps hmem)
    (hcarried conversion hmem).output_valid hwell.convolution_operator ?_⟩
  intro settings
  obtain ⟨analyzed, -, hformat, hfound⟩ :=
    found_of_carried (hcarried conversion hmem) hproduces hconvolution hparams settings
  exact ⟨analyzed.layer, hformat.symm, hfound⟩

/-! ### One bit too many -/

/-- A convolution that halves its data. -/
def halving : Graph :=
  { name := "halving"
    opset := 9
    inputs := [.ofName "x"]
    outputs := [.ofName "y"]
    nodes := [.make .conv "c" ["x", "w", "b"] ["y"]]
    initializers :=
      .ofList [("w", .oneReal 4 (.powerOfTwo (-1))), ("b", .oneReal 1 (.zero false))] }

/-- The coarsest network scale, with weights of 8 bits. -/
def coarse : Config :=
  { inputScale := .powerOfTwo 62 }

/-- The widest weights, and a network scale from which halving leads to the largest output scale. -/
def widest : Config :=
  { weightBits := 32, inputScale := .powerOfTwo 31 }

/-- Data at the coarsest scale can be halved. -/
theorem quantize_shifts_coarse :
    (∀ node ∈ halving.nodes, node.operator ≠ .quantizeLinear) ∧
      1 ≤ coarse.inputScale.toRat ∧ coarse.inputScale.toRat ≤ 2 ^ 62 ∧
      ∃ report, quantize coarse halving = .ok report ∧
        ∃ blocks, Spliced halving report blocks ∧ (conversions blocks).length = 1 ∧
          ∀ conversion ∈ conversions blocks, ∃ shifts,
            ShiftsBounded report.graph coarse conversion shifts ∧ shifts.output ≠ 63 := by
  have hplain : ∀ node ∈ halving.nodes, node.operator ≠ .quantizeLinear := by decide
  have hlow : 1 ≤ coarse.inputScale.toRat := by decide +kernel
  have hhigh : coarse.inputScale.toRat ≤ 2 ^ 62 := by decide +kernel
  have hwidth : coarse.weightBits ≠ 32 := by decide
  have hquantize : (quantize coarse halving).isOk = true := by decide +kernel
  cases hreport : quantize coarse halving with
  | error fault =>
    rw [hreport] at hquantize
    cases hquantize
  | ok report =>
    obtain ⟨blocks, hspliced, hnodes, hshifts⟩ := quantize_shifts hplain hlow hhigh hreport
    have hlength := congrArg List.length hnodes
    rw [List.length_map] at hlength
    refine ⟨hplain, hlow, hhigh, report, rfl, blocks, hspliced, hlength, ?_⟩
    intro conversion hconversion
    obtain ⟨shifts, hbounded⟩ := hshifts conversion hconversion
    exact ⟨shifts, hbounded, fun hlarge => hwidth (hbounded.widest_iff.mp hlarge).1⟩

/-- **The widest weights can be refused.**  Everything about the graph and the settings is in order,
and the network scale lies between `1` and `2 ^ 62`; but the convolution of the new graph would have
to shift its output by 63 bits, and is not evaluated. -/
theorem quantize_shifts_widest :
    widest.validate = .ok () ∧ 1 ≤ widest.inputScale.toRat ∧
      widest.inputScale.toRat ≤ 2 ^ 62 ∧ halving.validate = .ok () ∧
      (∀ node ∈ halving.nodes, node.operator ≠ .quantizeLinear) ∧
      ∃ report, quantize widest halving = .ok report ∧
        Interpreter.run? ⟨report.graph, widest⟩ (.oneReal 4 (.powerOfTwo 31))
          = .error (.invalidInput (.shifts "c_qconv" 31 0 63)) := by
  have hrun : (quantize widest halving).toOption.map (fun report =>
      Interpreter.run? ⟨report.graph, widest⟩ (.oneReal 4 (.powerOfTwo 31)))
        = some (.error (.invalidInput (.shifts "c_qconv" 31 0 63))) := by
    decide +kernel
  refine ⟨by decide +kernel, by decide +kernel, by decide +kernel, by decide +kernel, by decide, ?_⟩
  cases hreport : quantize widest halving with
  | error fault =>
    rw [hreport] at hrun
    cases hrun
  | ok report =>
    rw [hreport] at hrun
    exact ⟨report, rfl, Option.some_inj.mp hrun⟩

end DyadicNet.Quantize
