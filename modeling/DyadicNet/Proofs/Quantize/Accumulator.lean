import Mathlib
import DyadicNet.Proofs.Eval.Accumulator
import DyadicNet.Proofs.Eval.Dataflow
import DyadicNet.Proofs.Quantize.Shifts

/-!
# The accumulators of inserted convolutions

All that a quantized convolution adds up was made by the conversion or by nodes that the conversion
put in: the weights and the bias are codewords of the layer's format, the data comes from a
quantizer, and the shifts follow from scales that the walk has clamped.  With a network scale between
`1` and `2 ^ b`, where `b` is the width of the weights, the sum is shifted by `b` bits at most.  So
**a window with few enough places cannot make the accumulator saturate**, whatever the data is.

The graph has no quantizers of its own: these could have any scale.

## Main Definitions

* `Accumulates` — what a run computes at a quantized convolution.

## Main Statements

* `exists_steps_of_plain` — the conversion of a graph without quantizers;
* `bounded_of_found` — the widths of what a convolution reads;
* `quantize_accumulator` — the accumulators of a conversion.
-/

namespace DyadicNet.Quantize

open Eval Eval.Interpreter

variable {graph target : Graph} {config : Config} {report : Report} {last : Walk}
  {blocks : List Block} {conversion : Conversion} {source : Quantizer} {I : Interpreter}
  {input x y : Tensor} {operands : Operands} {layer : Layer} {exponent : ℕ}

/-! ### A graph without quantizers -/

/-- **The conversion of a graph without quantizers** is a walk at whose end every convolution has its
constants and a quantizer that was put in. -/
theorem exists_steps_of_plain (hplain : ∀ node ∈ graph.nodes, node.operator ≠ .quantizeLinear)
    (h : quantize config graph = .ok report) :
    ∃ start last blocks, Params.make? config.inputScale 0 = .ok start ∧
      Steps graph (.ofConfig config) config.weightBits (Walk.start graph start) blocks last ∧
      Spliced graph report blocks ∧
      (graph.validate = .ok () → Fresh graph → Converted graph report.graph last) ∧
      (∀ block ∈ blocks, block.source.operator ≠ .quantizeLinear) ∧
      ∀ conversion ∈ conversions blocks,
        conversion.Carried graph config report.graph.initializers.get? ∧
        ∃ source node, conversion.convolution = Walk.convolution conversion.node source ∧
          conversion.report.input = source.params ∧ Produces report.graph source node := by
  obtain ⟨start, last, nodes, blocks, hstart, hsteps, rfl, -, hspliced, hconverted⟩ :=
    exists_steps h
  have hvalid := (Params.make?_eq_ok_iff.mp hstart).1
  have hplain : ∀ block ∈ blocks, block.source.operator ≠ .quantizeLinear := fun block hblock =>
    hplain _ (hspliced.sources_eq ▸ List.mem_map_of_mem hblock)
  have hcarried : ∀ conversion ∈ conversions blocks,
      conversion.Carried graph config (assemble config graph last nodes).initializers.get? := by
    intro conversion hmem
    refine (carried_of_steps ⟨hvalid, fun _ _ hlookup => by cases hlookup⟩ hsteps conversion
      hmem).mono ?_
    intro name tensor hname
    rw [get?_assemble (accounts_of_steps hsteps).nodup, hname]
    rfl
  exact ⟨start, last, blocks, hstart, hsteps, hspliced, hconverted, hplain, fun conversion hmem =>
    ⟨hcarried conversion hmem,
      exists_produces_of_plain rfl hsteps hplain hspliced.nodes_eq hcarried hmem⟩⟩

/-! ### What a convolution reads -/

/-- The scales of the operands are those of the layer. -/
theorem shifts_of_found (hfound : conversion.Found target config config layer)
    (hformat : conversion.report.format = layer.format)
    (hassembled : Assembled ⟨target, config⟩ conversion.convolution x operands) :
    operands.shifts = conversion.report.shifts := by
  have hdata := Except.ok.inj (hassembled.dataParams.symm.trans hfound.dataParams)
  have hweights := Except.ok.inj (hassembled.weightParams.symm.trans hfound.weightParams)
  have houtput := Except.ok.inj (hassembled.outputParams.symm.trans hfound.outputParams)
  unfold Operands.shifts LayerReport.shifts
  rw [hdata, hweights, houtput, hformat]
  rfl

/-- The weights and the bias of the operands are codewords of the layer's format. -/
theorem natAbs_le_of_found (hfound : conversion.Found target config config layer)
    (hsigned : layer.format.signed = true) {weights bias : Tensor} {type type' : IntType}
    (hweights : Encoded layer.format type weights layer.weights)
    (hbias : Encoded layer.format type' bias layer.bias)
    (hassembled : Assembled ⟨target, config⟩ conversion.convolution x operands) :
    (∀ v ∈ operands.weights, v.natAbs ≤ twoPow (layer.format.totalBits - 1)) ∧
      ∀ v ∈ operands.bias, v.natAbs ≤ twoPow (layer.format.totalBits - 1) := by
  obtain ⟨weightName, hweightName, hweightConstant⟩ := hfound.weights
  obtain ⟨biasName, hbiasName, hbiasConstant⟩ := hfound.bias
  exact ⟨hweights.natAbs_le hsigned (hassembled.weights_eq hweightConstant hweightName).1,
    hbias.natAbs_le hsigned (hassembled.bias_eq hbiasConstant hbiasName)⟩

/-- A quantized convolution reads what its quantizer is named for. -/
theorem eq_output_of_input? {node : Node} {name : String}
    (h : (Walk.convolution node source).input? 0 = some name) : name = source.output :=
  (Option.some_inj.mp (Graph.head?_of_input? h)).symm

/-- **The widths of what a convolution reads.**  Its data comes from a quantizer, and weights and bias
are codewords of the layer's format. -/
theorem bounded_of_carried (hconfig : config.Valid) (htarget : target.validate = .ok ())
    (hcarried : conversion.Carried graph config target.initializers.get?) {node : Node}
    (hproduces : Produces target source node)
    (hconvolution : conversion.convolution = Walk.convolution conversion.node source)
    (hparams : conversion.report.input = source.params)
    (hscaled : conversion.report.Scaled config.weightBits)
    (hinput : conversion.report.input.exponent ≤ config.weightBits)
    (hreads : Reads ⟨target, config⟩ input conversion.convolution 0 x)
    (hassembled : Assembled ⟨target, config⟩ conversion.convolution x operands) :
    operands.Bounded config.activationBits config.weightBits := by
  obtain ⟨analyzed, hanalyzed, hformat, hfound⟩ :=
    found_of_carried hcarried hproduces hconvolution hparams config
  obtain ⟨_, _, -, -, -, -, hanalyze⟩ := constants_of_analyzeConv hanalyzed
  obtain ⟨hsigned, hwidth⟩ := format_of_analyze hanalyze
  obtain ⟨hweights, hbias, -⟩ := encoded_of_analyze hanalyze
  obtain ⟨hweightsLe, hbiasLe⟩ := natAbs_le_of_found hfound hsigned hweights hbias hassembled
  obtain ⟨name, hname⟩ := hreads.exists_name
  have hsource : name = source.output := eq_output_of_input? (hconvolution ▸ hname)
  obtain ⟨z, -, hquantize⟩ := (hreads.gives_writer htarget hname hproduces.mem_nodes
    (hsource ▸ hproduces.output_eq)).quantizeLinear hproduces.operator_eq
  have hshifts := (shifts_of_found hfound hformat hassembled).trans hscaled.shifts_eq
  have hnonneg := hscaled.input.nonneg
  have houtput := hscaled.output_nonneg
  refine
    { data := natAbs_le_of_quantize hconfig hquantize hassembled.data
      weights := hwidth ▸ hweightsLe
      bias := hwidth ▸ hbiasLe
      inputShift_le := ?_
      biasShift_eq := ?_
      outputShift_nonneg := ?_ }
  · rw [hshifts]
    dsimp only
    omega
  · rw [hshifts]
    rfl
  · rw [hshifts]
    dsimp only
    omega

/-! ### Runs -/

/-- **What a run computes at a quantized convolution**, under the given settings: whatever value the
node has in a run is the result of operands that the run has found, with the width of an activation.
If their window has few enough places, no step of the computation saturates before the clamp to this
width. -/
def Accumulates (target : Graph) (settings : Config) (node : Node) : Prop :=
  ∀ I input y, make? target settings = .ok I → Gives I input node y →
    ∃ x operands, Reads I input node 0 x ∧ I.operands node x = .ok operands ∧
      operands.result = .ok y ∧ operands.bits = settings.activationBits ∧
      (operands.tapCount * twoPow (settings.activationBits + 2 * settings.weightBits) ≤ twoPow 64 →
        operands.Exact y)

/-- A convolution with its constants and a quantizer that was put in accumulates without
saturation. -/
theorem accumulates_of_carried (hwell : conversion.WellFormed)
    (hcarried : conversion.Carried graph config target.initializers.get?) {node : Node}
    (hproduces : Produces target source node)
    (hconvolution : conversion.convolution = Walk.convolution conversion.node source)
    (hparams : conversion.report.input = source.params)
    (hscaled : conversion.report.Scaled config.weightBits)
    (hinput : conversion.report.input.exponent ≤ config.weightBits) :
    Accumulates target config conversion.convolution := by
  intro I input y hmake hgives
  obtain ⟨hvalidate, htarget, rfl⟩ := make?_eq_ok_iff.mp hmake
  have hconfig : config.Valid := Config.valid_of_validate hvalidate
  obtain ⟨x, operands, hreads, hoperands, hresult⟩ := hgives.qlinearConv hwell.convolution_operator
  have hassembled := assembled_of_operands hoperands
  obtain ⟨hoperandsWell, -⟩ := operands_wellFormed hconfig hoperands
  have hbits : operands.bits = config.activationBits := by
    have htype := hcarried.quantizedType_convolution hconvolution config
    rw [hassembled.type, Except.ok.injEq, Prod.mk.injEq] at htype
    exact htype.2.trans (Nat.min_eq_left (le_bits_forBits hconfig.activationBits_le))
  refine ⟨x, operands, hreads, hoperands, hresult, hbits, fun htaps => ?_⟩
  have hbounded := bounded_of_carried hconfig htarget hcarried hproduces hconvolution hparams
    hscaled hinput hreads hassembled
  have hconvolvable := Operands.convolvable_of_result hoperandsWell hresult
  exact Operands.exact_of_clear hoperandsWell hresult fun b oc oy ox products hproducts =>
    hbounded.clear hoperandsWell hconvolvable.channels hconfig.activationBits_pos
      hconfig.weightBits_pos hconfig.weightBits_le htaps hproducts

/-- **No accumulator saturates.**  In a graph without quantizers of its own, with a network scale
`2 ^ e` between `1` and `2 ^ b`, where `b` is the width of the weights and `a` that of activations,
every inserted convolution with `K` places in its window, `K * 2 ^ (a + 2 * b) ≤ 2 ^ 64`, computes
what exact integers give, in every run of the new graph under the same settings. -/
theorem quantize_accumulator (hplain : ∀ node ∈ graph.nodes, node.operator ≠ .quantizeLinear)
    (hscale : config.inputScale.toRat = 2 ^ exponent) (hle : exponent ≤ config.weightBits)
    (h : quantize config graph = .ok report) :
    ∃ blocks, Spliced graph report blocks ∧
      (conversions blocks).map Conversion.node
        = graph.nodes.filter (fun node => node.operator == .conv) ∧
      ∀ conversion ∈ conversions blocks,
        Accumulates report.graph config conversion.convolution := by
  have hbits := (valid_of_quantize h).weightBits_le
  obtain ⟨start, last, blocks, hstart, hsteps, hspliced, -, hplain, hconversions⟩ :=
    exists_steps_of_plain hplain h
  obtain ⟨hvalid, hscaleEq, -⟩ := Params.make?_eq_ok_iff.mp hstart
  have hexponent : start.exponent = exponent := by
    have hvalue := hvalid.toRat_scale
    rw [hscaleEq, hscale, ← zpow_natCast] at hvalue
    exact (zpow_right_injective₀ two_pos one_lt_two.ne' hvalue).symm
  have hbounded : (Walk.start graph start).Bounded :=
    ⟨⟨by show 0 ≤ start.exponent; omega, by show start.exponent ≤ 62; omega⟩,
      fun _ _ hlookup => by cases hlookup⟩
  have hconvolutions := map_node_conversions hspliced.wellFormed
  rw [hspliced.sources_eq] at hconvolutions
  refine ⟨blocks, hspliced, hconvolutions, ?_⟩
  intro conversion hmem
  obtain ⟨hcarried, source, node, hconvolution, hparams, hproduces⟩ := hconversions conversion hmem
  -- the scale of the network and all scales of outputs are no larger than the weights are wide
  obtain ⟨hinput, -⟩ := all_of_plain (P := fun params => params.exponent ≤ config.weightBits) hplain
    (fun _ _ hle => hle) hbits
    ⟨by show start.exponent ≤ config.weightBits; omega, fun _ _ hlookup => by cases hlookup⟩
    hsteps hmem
  exact accumulates_of_carried (hspliced.wellFormed _ (mem_conversions.mp hmem)) hcarried hproduces
    hconvolution hparams (scaled_of_steps hbits hplain hbounded hsteps hmem) hinput

/-! ### The largest network scale -/

/-- The largest network scale for weights of 8 bits. -/
def steep : Config :=
  { inputScale := .powerOfTwo 8 }

/-- The extents of the weights of a quantized convolution. -/
def weightExtents? (graph : Graph) (node : Node) : Option (List ℕ) :=
  ((node.input? 3).bind graph.initializers.get?).map Tensor.shape

theorem tapCount_of_weightExtents? {node : Node} {batch channels height width : ℕ}
    (h : weightExtents? I.graph node = some [batch, channels, height, width])
    (hassembled : Assembled I node x operands) :
    operands.tapCount = channels * height * width := by
  obtain ⟨weights, hbind, hshape⟩ := Option.map_eq_some_iff.mp h
  obtain ⟨name, hname, hweights⟩ := Option.bind_eq_some_iff.mp hbind
  have hsame := (hassembled.weights_eq hweights hname).2
  rw [hshape] at hsame
  unfold Nchw.toShape at hsame
  obtain ⟨-, hchannels, hheight, hwidth⟩ :
      batch = _ ∧ channels = _ ∧ height = _ ∧ width = _ := by simpa using hsame
  rw [Operands.tapCount, hchannels, hheight, hwidth]

/-- Data is halved at the largest network scale without saturation, in a run that has a result. -/
theorem quantize_accumulator_steep :
    (∀ node ∈ halving.nodes, node.operator ≠ .quantizeLinear) ∧
      steep.inputScale.toRat = 2 ^ 8 ∧ 8 ≤ steep.weightBits ∧
      ∃ report, quantize steep halving = .ok report ∧
        ∃ blocks, Spliced halving report blocks ∧ (conversions blocks).length = 1 ∧
          ∀ conversion ∈ conversions blocks, ∃ I x y operands,
            make? report.graph steep = .ok I ∧
            Gives I (.oneReal 4 (.powerOfTwo 20)) conversion.convolution y ∧
            I.operands conversion.convolution x = .ok operands ∧ operands.tapCount = 1 ∧
            operands.Exact y := by
  have hplain : ∀ node ∈ halving.nodes, node.operator ≠ .quantizeLinear := by decide
  have hscale : steep.inputScale.toRat = 2 ^ 8 := by decide +kernel
  have hle : 8 ≤ steep.weightBits := by decide
  have hconfig : steep.validate = .ok () := by decide +kernel
  have hrun : (quantize steep halving).toOption.map (fun report =>
      ((Interpreter.run? ⟨report.graph, steep⟩ (.oneReal 4 (.powerOfTwo 20))).isOk,
        report.graph.nodes.all fun node => node.operator != .qlinearConv ||
          weightExtents? report.graph node == some [1, 1, 1, 1]))
        = some (true, true) := by
    decide +kernel
  cases hreport : quantize steep halving with
  | error fault =>
    rw [hreport] at hrun
    cases hrun
  | ok report =>
    rw [hreport] at hrun
    obtain ⟨hok, hplaces⟩ := Prod.mk.inj (Option.some_inj.mp hrun)
    obtain ⟨result, hresult⟩ := exists_of_isOk hok
    obtain ⟨blocks, hspliced, hnodes, haccumulates⟩ :=
      quantize_accumulator hplain hscale hle hreport
    obtain ⟨-, -, -, -, -, -, -, htarget, -⟩ := exists_steps hreport
    have hmake : make? report.graph steep = .ok ⟨report.graph, steep⟩ :=
      make?_eq_ok_iff.mpr ⟨hconfig, htarget, rfl⟩
    have hlength := congrArg List.length hnodes
    rw [List.length_map] at hlength
    refine ⟨hplain, hscale, hle, report, rfl, blocks, hspliced, hlength, ?_⟩
    intro conversion hmem
    have hwell : conversion.WellFormed := hspliced.wellFormed _ (mem_conversions.mp hmem)
    have hnode : conversion.convolution ∈ report.graph.nodes :=
      hspliced.mem_nodes hmem (by simp [Conversion.nodes])
    obtain ⟨y, hgives⟩ := exists_gives_of_run? hresult hnode
    obtain ⟨x, operands, -, hoperands, -, -, hexact⟩ := haccumulates conversion hmem _ _ _ hmake hgives
    have hplace := List.all_eq_true.mp hplaces _ hnode
    rw [hwell.convolution_operator] at hplace
    have hcount : operands.tapCount = 1 :=
      tapCount_of_weightExtents? (I := ⟨report.graph, steep⟩) (by simpa using hplace)
        (assembled_of_operands hoperands)
    exact ⟨_, x, y, operands, hmake, hgives, hoperands, hcount,
      hexact (hcount ▸ (by decide))⟩

end DyadicNet.Quantize
