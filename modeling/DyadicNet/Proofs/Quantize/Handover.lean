import Mathlib
import DyadicNet.Proofs.Eval.Dataflow
import DyadicNet.Proofs.Eval.Handover
import DyadicNet.Proofs.Quantize.ScaleChain
import DyadicNet.Proofs.Quantize.Shifts

/-!
# From one convolution to the next

The result of a quantized convolution is turned into real numbers and, for the next convolution,
back into integers.  If nothing has quantized the result in between, the quantizer is one that was
put in, and it has the scale that the walk propagates, which is the scale of the result.  So **the
next convolution reads the very integers that the one before it gave**; the real numbers in between
are only another way to write them down.

Were there a quantizer of the graph in between, or another convolution, the scales could differ, and
the integers would be rounded anew.

## Main Definitions

* `Consecutive` — two convolutions that follow each other;
* `Joined` — what stands between them in the new graph;
* `HandsOver` — that a convolution reads what another one gives, in every run.

## Main Statements

* `joined_of_consecutive` — the quantizer between two convolutions;
* `quantize_handover` — the convolutions of a conversion.
-/

namespace DyadicNet.Quantize

open Eval Eval.Interpreter

variable {graph target : Graph} {config settings : Config} {types : Types} {totalBits : ℕ}
  {report : Report} {start walk walk' last : Walk} {block : Block}
  {done blocks front middle back : List Block} {conversion first second : Conversion}
  {input : String}

/-! ### The quantizer between two convolutions -/

/-- A convolution, and the next one after it, which is on its result; no quantizer of the graph
reads the result before. -/
structure Consecutive (graph : Graph) (first second : Node) : Prop where
  first_conv : first.operator = .conv
  second_conv : second.operator = .conv
  split : ∃ front middle back, graph.nodes = front ++ first :: (middle ++ second :: back) ∧
    (∀ node ∈ middle, node.operator ≠ .conv) ∧
    ∀ node ∈ front ++ first :: middle, node.operator = .quantizeLinear →
      node.input? 0 ≠ first.output?
  input_eq : second.input? 0 = first.output?

/-- A tensor that no block has quantized has no quantizer. -/
theorem lookup_eq_none_of_known (h : Walk.Known graph done walk)
    (hnew : ∀ block ∈ done, ¬Quantizes input block.source) :
    walk.quantizers.lookup input = none := by
  cases hlookup : walk.quantizers.lookup input with
  | none => rfl
  | some quantizer =>
    obtain ⟨earlier, block, later, rfl, -, hsupplies⟩ := h.supplied input quantizer hlookup
    exact absurd hsupplies.quantizes
      (hnew block (List.mem_append_right _ List.mem_cons_self))

/-- For new data a quantizer is put in, under the parameters that the walk propagates. -/
theorem inserted_of_step
    (hstep : Step graph types totalBits walk (.converted conversion) walk')
    (hinput : conversion.node.input? 0 = some input)
    (hnew : walk.quantizers.lookup input = none) :
    conversion.report.input = walk.propagated ∧
      conversion.quantizer = some ((Quantizer.derived input walk.propagated).node input) ∧
      conversion.convolution
        = Walk.convolution conversion.node (.derived input walk.propagated) := by
  cases hstep with
  | convert _ hanalyzed hsource _ _ hreport =>
    obtain rfl := Option.some_inj.mp (hinput.symm.trans (spec_of_analyzeConv hanalyzed).input_eq)
    rcases Walk.source_eq_ok hsource with ⟨hknown, -, -⟩ | ⟨_, -, rfl, -, -, rfl⟩
    · rw [hnew] at hknown
      cases hknown
    · rw [hreport]
      exact ⟨rfl, rfl, rfl⟩

/-- Before the second of two convolutions, nothing has the result of the first one quantized: what
comes before the first one does not read it. -/
theorem not_quantizes_of_consecutive {before between after : List Node} {a b : Node}
    (hgraph : graph.validate = .ok ())
    (hnodes : graph.nodes = before ++ a :: (between ++ b :: after))
    (hbetween : ∀ node ∈ between, node.operator ≠ .conv)
    (hplain : ∀ node ∈ before ++ a :: between, node.operator = .quantizeLinear →
      node.input? 0 ≠ a.output?) (houtput : a.output? = some input) :
    ∀ node ∈ before ++ a :: between, ¬Quantizes input node := by
  intro node hnode hquantizes
  rcases hquantizes with ⟨hconv, hread⟩ | hcomplete
  · have hearlier : node ∈ before ++ [a] := by
      rw [List.append_cons, List.mem_append] at hnode
      exact hnode.resolve_right fun hlater => hbetween node hlater hconv
    obtain ⟨final, hchecked, -⟩ := Graph.nodes_of_validate hgraph
    obtain ⟨front, back, hsplit⟩ := List.append_of_mem hearlier
    -- the convolution that writes the result comes last among these nodes
    have hwriter : a ∈ node :: back := by
      have hlast := congrArg List.getLast? hsplit
      rw [List.getLast?_concat, List.getLast?_append_of_ne_nil _ (List.cons_ne_nil _ _)] at hlast
      exact List.mem_of_getLast? hlast.symm
    rw [hnodes, List.append_cons, hsplit, List.append_assoc] at hchecked
    obtain ⟨_, -, hrest⟩ := Graph.checkNodes_append hchecked
    refine Graph.not_mem_outputs_of_read hrest hread (List.mem_flatMap.mpr ⟨a, ?_, ?_⟩)
    · exact List.mem_append_left _ hwriter
    · exact List.mem_of_mem_head? houtput
  · exact hplain node hnode hcomplete.operator_eq (hcomplete.input_eq.trans houtput.symm)

/-- What stands between two quantized convolutions: the result of the first one is quantized for the
second one, under the parameters of the result. -/
structure Joined (first second : Conversion) (input : String) : Prop where
  output_eq : first.node.output? = some input
  input_eq : second.node.input? 0 = some input
  params_eq : second.report.input = first.report.output
  quantizer_eq : second.quantizer
    = some ((Quantizer.derived input first.report.output).node input)
  convolution_eq : second.convolution
    = Walk.convolution second.node (.derived input first.report.output)

/-- **Between two convolutions that follow each other a quantizer is put in**, under the parameters
of the result of the first one. -/
theorem joined_of_consecutive (hgraph : graph.validate = .ok ())
    (hstart : start.quantizers = [])
    (hsteps : Steps graph types totalBits start blocks last)
    (hsources : blocks.map Block.source = graph.nodes)
    (hsplit : blocks = front ++ .converted first :: (middle ++ .converted second :: back))
    (hmiddle : ∀ block ∈ middle, block.source.operator ≠ .conv)
    (hplain : ∀ block ∈ front ++ .converted first :: middle,
      block.source.operator = .quantizeLinear → block.source.input? 0 ≠ first.node.output?)
    (hinput : second.node.input? 0 = some input) (houtput : first.node.output? = some input) :
    Joined first second input := by
  have hat : blocks = (front ++ .converted first :: middle) ++ .converted second :: back := by
    rw [hsplit, List.append_assoc, List.cons_append]
  obtain ⟨walk, walk', hbefore, hstep⟩ := hsteps.at hat
  have hnodes : graph.nodes = front.map Block.source
      ++ first.node :: (middle.map Block.source ++ second.node :: back.map Block.source) := by
    rw [← hsources, hsplit]
    simp [Block.source]
  have hdone : front.map Block.source ++ first.node :: middle.map Block.source
      = (front ++ .converted first :: middle).map Block.source := by
    rw [List.map_append, List.map_cons]
    rfl
  have hnew : ∀ block ∈ front ++ .converted first :: middle, ¬Quantizes input block.source := by
    intro block hblock
    refine not_quantizes_of_consecutive hgraph hnodes ?_ ?_ houtput block.source ?_
    · exact List.forall_mem_map.mpr hmiddle
    · rw [hdone]
      exact List.forall_mem_map.mpr hplain
    · rw [hdone]
      exact List.mem_map_of_mem hblock
  have hnone := lookup_eq_none_of_known (known_of_steps hstart hbefore) hnew
  -- the first convolution is the last one that was converted before
  have hlast : conversions middle = [] := by
    refine List.eq_nil_iff_forall_not_mem.mpr fun other hother => ?_
    have hmem := mem_conversions.mp hother
    have hwell : (Block.converted other).WellFormed :=
      wellFormed_of_steps hsteps _ (hsplit ▸ List.mem_append_right _
        (List.mem_cons_of_mem _ (List.mem_append_left _ hmem)))
    exact hmiddle _ hmem hwell.operator_eq
  have hpropagated : walk.propagated = first.report.output := by
    rw [propagated_of_steps hbefore, List.append_cons, conversions_append, hlast, List.append_nil,
      conversions_concat_converted, List.getLast?_concat]
    rfl
  obtain ⟨hparams, hquantizer, hconvolution⟩ := inserted_of_step hstep hinput hnone
  rw [hpropagated] at hparams hquantizer hconvolution
  exact ⟨houtput, hinput, hparams, hquantizer, hconvolution⟩

/-! ### Runs -/

/-- The integers of a quantized convolution can be written down as real numbers: they have the width
of an activation, and no scale of an output is large. -/
theorem expressible_of_gives {I : Interpreter} {tensor x : Tensor} {node : Node} {type : IntType}
    {bits : ℕ} {exponent : ℤ} (hconfig : I.config.Valid) (hnode : node.operator = .qlinearConv)
    (htype : I.quantizedType node 7 = .ok (type, bits)) (hexponent : exponent ≤ 32)
    (hgives : Gives I tensor node x) :
    Expressible x type (min I.config.activationBits type.bits) exponent := by
  obtain ⟨data, operands, -, hoperands, hresult⟩ := hgives.qlinearConv hnode
  obtain ⟨hwell, hbits, -, -⟩ := operands_wellFormed hconfig hoperands
  have hsame := (assembled_of_operands hoperands).type
  rw [htype] at hsame
  obtain ⟨rfl, rfl⟩ := Prod.mk.inj (Except.ok.inj hsame)
  obtain ⟨-, values, -, -, -, helements, -⟩ := Operands.of_result hresult
  refine ⟨values, helements, fun v hv => ?_⟩
  obtain ⟨hlow, hhigh⟩ := Operands.mem_range_of_result hwell hresult helements v hv
  refine ⟨hbits ▸ ⟨hlow, hhigh⟩, ?_⟩
  have hshort : |(v : ℚ)| < 2 ^ (53 : ℤ) := by
    rw [abs_cast_eq]
    calc ((v.natAbs : ℕ) : ℚ) < (twoPow 53 : ℕ) := by
          exact_mod_cast natAbs_lt_of_mem hwell.bits_le hlow hhigh
      _ = 2 ^ (53 : ℤ) := cast_twoPow 53
  calc |(v : ℚ)| * 2 ^ exponent < 2 ^ (53 : ℤ) * 2 ^ exponent :=
        mul_lt_mul_of_pos_right hshort (zpow_two_pos exponent)
    _ = 2 ^ (53 + exponent) := (zpow_two_add 53 exponent).symm
    _ ≤ 2 ^ (1024 : ℤ) := zpow_le_zpow_right₀ one_le_two (by omega)

/-- In every run that has a result, whatever the settings, one node reads the integers that another
one gives. -/
def HandsOver (target : Graph) (first second : Node) : Prop :=
  ∀ settings I input result, make? target settings = .ok I → I.run? input = .ok result →
    ∃ x : Tensor, x.isInteger = true ∧ Gives I input first x ∧ Reads I input second 0 x

/-- What the second convolution reads, traced back through the two nodes to the first one. -/
theorem Joined.traced (h : Joined first second input) (hspliced : Spliced graph report blocks)
    (htarget : report.graph.validate = .ok ())
    (hfirst : first ∈ conversions blocks) (hsecond : second ∈ conversions blocks)
    {source : Quantizer} (hsource : first.convolution = Walk.convolution first.node source)
    {result : String} (hdequantizer : first.dequantizer = Walk.dequantizer first.node result)
    {data x' : Tensor} (hreads : Reads ⟨report.graph, settings⟩ data second.convolution 0 x') :
    ∃ x y, Gives ⟨report.graph, settings⟩ data first.convolution x ∧
      Interpreter.dequantize ⟨report.graph, settings⟩ first.dequantizer x = .ok y ∧
      Interpreter.quantize ⟨report.graph, settings⟩
        ((Quantizer.derived input first.report.output).node input) y = .ok x' := by
  have hwell : first.WellFormed := hspliced.wellFormed _ (mem_conversions.mp hfirst)
  have hname : second.convolution.input? 0 = some (input ++ "_quant") := by
    rw [h.convolution_eq]
    exact (input?_convolution_source _ _).1 (by simp [Quantizer.derived])
  have hquantizer := hspliced.mem_nodes hsecond (List.mem_append_left _
    (Option.mem_toList.mpr h.quantizer_eq))
  obtain ⟨y, hquantizerReads, hquantize⟩ :=
    (hreads.gives_writer htarget hname hquantizer rfl).quantizeLinear rfl
  have hresult : first.dequantizer.output? = some input := by
    obtain ⟨output, houtput, houtputs⟩ := hwell.output_eq
    rw [Node.output?, houtputs, ← h.output_eq, houtput]
    rfl
  obtain ⟨x, hdequantizerReads, hdequantize⟩ := (hquantizerReads.gives_writer htarget
    (node_derived (Graph.mem_inputs_of_input? h.input_eq).2)
    (hspliced.mem_nodes hfirst (by simp [Conversion.nodes])) hresult).dequantizeLinear
      hwell.dequantizer_operator
  have hdata : first.dequantizer.input? 0 = some (Walk.dequantName first.node.label) := by
    rw [hdequantizer]
    exact (input?_dequantizer _ _).1
  have hwritten : first.convolution.output? = some (Walk.dequantName first.node.label) := by
    rw [hsource]
    rfl
  exact ⟨x, y, hdequantizerReads.gives_writer htarget hdata
    (hspliced.mem_nodes hfirst (by simp [Conversion.nodes])) hwritten, hdequantize, hquantize⟩

/-- **Through the two nodes between them**, the first convolution hands its integers over to the
second one. -/
theorem handsOver_of_joined (h : Joined first second input) (hspliced : Spliced graph report blocks)
    (hcarried : ∀ conversion ∈ conversions blocks,
      conversion.Carried graph config report.graph.initializers.get?)
    (hfirst : first ∈ conversions blocks) (hsecond : second ∈ conversions blocks)
    {source : Quantizer} (hsource : first.convolution = Walk.convolution first.node source)
    (hexponent : first.report.output.exponent ≤ 32) :
    HandsOver report.graph first.convolution second.convolution := by
  intro settings I data result hmake hrun
  obtain ⟨hconfig, htarget, rfl⟩ := make?_eq_ok_iff.mp hmake
  have hconfig : settings.Valid := Config.valid_of_validate hconfig
  have hwell : first.WellFormed := hspliced.wellFormed _ (mem_conversions.mp hfirst)
  obtain ⟨z, hsecondGives⟩ := exists_gives_of_run? hrun
    (hspliced.mem_nodes hsecond (show second.convolution ∈ second.nodes by simp [Conversion.nodes]))
  obtain ⟨x', -, hreads, -, -⟩ := hsecondGives.qlinearConv (by rw [h.convolution_eq]; rfl)
  obtain ⟨_, -, -, hdequantizer, -⟩ := (hcarried first hfirst).layer
  obtain ⟨x, y, hgives, hdequantize, hquantize⟩ :=
    h.traced hspliced htarget hfirst hsecond hsource hdequantizer hreads
  -- under one scale the two nodes do nothing
  have hexpressible := expressible_of_gives hconfig hwell.convolution_operator
    ((hcarried first hfirst).quantizedType_convolution hsource settings) hexponent hgives
  obtain ⟨hparams, htype⟩ := (hcarried second hsecond).params_quantizer h.quantizer_eq settings
  have hpaired : Paired ⟨report.graph, settings⟩ first.dequantizer
      ((Quantizer.derived input first.report.output).node input) first.report.output
      (.forBits config.activationBits) :=
    ⟨(hcarried first hfirst).params_dequantizer settings, h.params_eq ▸ hparams, _, htype⟩
  obtain ⟨y', hy', hback⟩ := hpaired.quantize_dequantize hconfig hexpressible
  obtain rfl := Except.ok.inj (hdequantize.symm.trans hy')
  obtain rfl := Except.ok.inj (hquantize.symm.trans hback)
  exact ⟨x', hexpressible.isInteger, hgives, hreads⟩

/-- A convolution of the graph is a block of its own. -/
theorem exists_converted (hwell : block.WellFormed) (hconv : block.source.operator = .conv) :
    ∃ conversion, block = .converted conversion := by
  cases block with
  | kept node => exact absurd hconv hwell
  | converted conversion => exact ⟨conversion, rfl⟩

/-- **Consecutive convolutions hand over their integers.**  Where a convolution comes next after
another one and is on its result, which no quantizer of the graph reads before, the quantized
convolution reads exactly the integers that the one before it gave, in every run of the new graph.
Beneath this lies a law of the two nodes in between: under the same parameters, which have a power
of two as their scale, quantizing what integers stand for gives the integers back, as long as they
have the width of an activation and stand for numbers below `2 ^ 1024`. -/
theorem quantize_handover (hgraph : graph.validate = .ok ()) (hfresh : Fresh graph)
    (h : quantize config graph = .ok report) :
    (∃ blocks, Spliced graph report blocks ∧ ∀ a b, Consecutive graph a b →
      ∃ first ∈ conversions blocks, ∃ second ∈ conversions blocks, first.node = a ∧
        second.node = b ∧ HandsOver report.graph first.convolution second.convolution) ∧
    ∀ {target settings I dequantizer quantizer params type x},
      make? target settings = .ok I → Paired I dequantizer quantizer params type →
      Expressible x type (min settings.activationBits type.bits) params.exponent →
      params.scale.Denotes false (2 ^ params.exponent) ∧
        ∃ y, I.dequantize dequantizer x = .ok y ∧ I.quantize quantizer y = .ok x := by
  constructor
  · obtain ⟨start, last, nodes, blocks, hinput, hsteps, -, htarget, hspliced, hconverted⟩ :=
      exists_steps h
    have hconverted := hconverted hgraph hfresh
    have hvalid := (Params.make?_eq_ok_iff.mp hinput).1
    have hcarried : ∀ conversion ∈ conversions blocks,
        conversion.Carried graph config report.graph.initializers.get? := fun conversion hmem =>
      (carried_of_steps ⟨hvalid, fun _ _ hlookup => by cases hlookup⟩ hsteps conversion hmem).mono
        hconverted.derived_eq
    refine ⟨blocks, hspliced, ?_⟩
    rintro a b ⟨hfirst, hsecond, ⟨before, between, after, hnodes, hbetween, hplain⟩, hinput⟩
    -- the blocks of the two convolutions, and those between them
    rw [← hspliced.sources_eq, List.map_eq_append_iff] at hnodes
    obtain ⟨front, fromA, hblocks, rfl, hfromA⟩ := hnodes
    obtain ⟨blockA, afterA, rfl, rfl, hafterA⟩ := List.map_eq_cons_iff.mp hfromA
    obtain ⟨middle, fromB, rfl, rfl, hfromB⟩ := List.map_eq_append_iff.mp hafterA
    obtain ⟨blockB, back, rfl, rfl, rfl⟩ := List.map_eq_cons_iff.mp hfromB
    have hwell := hspliced.wellFormed
    obtain ⟨first, rfl⟩ := exists_converted (hwell blockA (by simp [hblocks])) hfirst
    obtain ⟨second, rfl⟩ := exists_converted (hwell blockB (by simp [hblocks])) hsecond
    have hfirstMem : first ∈ conversions blocks := mem_conversions.mpr (by simp [hblocks])
    have hsecondMem : second ∈ conversions blocks := mem_conversions.mpr (by simp [hblocks])
    have hbits := (valid_of_quantize h).weightBits_le
    obtain ⟨analyzed, hanalyzed, -⟩ := (hcarried second hsecondMem).layer
    have hread := (spec_of_analyzeConv hanalyzed).input_eq
    have hjoined := joined_of_consecutive hgraph rfl hsteps hspliced.sources_eq hblocks
      (fun block hblock => hbetween _ (List.mem_map_of_mem hblock))
      (fun block hblock => hplain _ (by simpa using List.mem_map_of_mem (f := Block.source) hblock))
      hread (hinput.symm.trans hread)
    obtain ⟨source, -, hsource, -⟩ := exists_supplier rfl hsteps hfirstMem
    obtain ⟨-, hexponent⟩ := output_exponent_of_steps hbits hsteps hfirstMem
    exact ⟨first, hfirstMem, second, hsecondMem, rfl, rfl, handsOver_of_joined hjoined hspliced
      hcarried hfirstMem hsecondMem hsource (by omega)⟩
  · intro target settings I dequantizer quantizer params type x hmake hpaired hx
    obtain ⟨hconfig, -, rfl⟩ := make?_eq_ok_iff.mp hmake
    exact ⟨(valid_params hpaired.known).scale,
      hpaired.quantize_dequantize (Config.valid_of_validate hconfig) hx⟩

/-! ### Two convolutions, and the smallest scale -/

/-- Integers to real numbers and back, at the smallest scale that there is. -/
def smallestScale : Graph :=
  { name := "smallest"
    opset := 9
    inputs := [.ofName "x"]
    outputs := [.ofName "q"]
    nodes := [.make .dequantizeLinear "d" ["x", "s", "z"] ["y"],
      .make .quantizeLinear "q" ["y", "s", "z"] ["q"]]
    initializers :=
      .ofList [("s", .scalarReal (.finite false 1 (-1074) (by decide))), ("z", .zeroPoint)] }

/-- A tensor with one integer. -/
def three : Tensor :=
  ⟨[1], .ints .i16 #[3], by decide, by decide +kernel⟩

theorem paired_smallestScale : Paired ⟨smallestScale, {}⟩
    (.make .dequantizeLinear "d" ["x", "s", "z"] ["y"])
    (.make .quantizeLinear "q" ["y", "s", "z"] ["q"])
    ⟨.finite false 1 (-1074) (by decide), 0, -1074⟩ .i16 :=
  ⟨by decide +kernel, by decide +kernel, 16, by decide +kernel⟩

theorem expressible_three : Expressible three .i16 16 (-1074) := by
  refine ⟨#[3], rfl, ?_⟩
  intro v hv
  obtain rfl : v = 3 := by simpa using hv
  refine ⟨by decide, ?_⟩
  calc |((3 : ℤ) : ℚ)| * 2 ^ (-1074 : ℤ) < 2 ^ (2 : ℤ) * 2 ^ (-1074 : ℤ) :=
        mul_lt_mul_of_pos_right (by norm_num) (zpow_two_pos _)
    _ = 2 ^ (2 + -1074 : ℤ) := (zpow_two_add _ _).symm
    _ ≤ 2 ^ (1024 : ℤ) := zpow_le_zpow_right₀ one_le_two (by norm_num)

/-- The second one of two convolutions without names reads what the first one gives, in a run that
has a result; and an integer survives the smallest scale. -/
theorem quantize_handover_unnamed :
    unnamed.validate = .ok () ∧ Fresh unnamed ∧ ∃ report, quantize {} unnamed = .ok report ∧
      (∃ blocks, Spliced unnamed report blocks ∧
        ∃ first ∈ conversions blocks, ∃ second ∈ conversions blocks,
          first.node = .make .conv "" ["x", "w", "b"] ["y"] ∧
          second.node = .make .conv "" ["y", "w", "b"] ["v"] ∧
          ∃ I x, make? report.graph {} = .ok I ∧
            Gives I (.oneReal 4 (.ofInt 4)) first.convolution x ∧
            Reads I (.oneReal 4 (.ofInt 4)) second.convolution 0 x) ∧
      ∃ I y, make? smallestScale {} = .ok I ∧
        I.dequantize (.make .dequantizeLinear "d" ["x", "s", "z"] ["y"]) three = .ok y ∧
        I.quantize (.make .quantizeLinear "q" ["y", "s", "z"] ["q"]) y = .ok three := by
  have hvalidate : unnamed.validate = .ok () := by decide +kernel
  have hfresh : Fresh unnamed := by decide +kernel
  have hquantize : (quantize {} unnamed).toOption.map (fun report =>
      (Interpreter.run? ⟨report.graph, {}⟩ (.oneReal 4 (.ofInt 4))).isOk) = some true := by
    decide +kernel
  have hconfig : ({} : Config).validate = .ok () := by decide +kernel
  have hconsecutive : Consecutive unnamed (.make .conv "" ["x", "w", "b"] ["y"])
      (.make .conv "" ["y", "w", "b"] ["v"]) :=
    ⟨rfl, rfl, ⟨[], [], [], rfl, by simp, by decide +kernel⟩, rfl⟩
  cases hreport : quantize {} unnamed with
  | error fault =>
    rw [hreport] at hquantize
    cases hquantize
  | ok report =>
    rw [hreport] at hquantize
    obtain ⟨result, hrun⟩ := exists_of_isOk (Option.some_inj.mp hquantize)
    obtain ⟨⟨blocks, hspliced, hhands⟩, hlaw⟩ := quantize_handover hvalidate hfresh hreport
    obtain ⟨first, hfirst, second, hsecond, hfirstNode, hsecondNode, hhands⟩ :=
      hhands _ _ hconsecutive
    obtain ⟨-, -, -, -, -, -, -, htarget, -⟩ := exists_steps hreport
    have hmake : make? report.graph {} = .ok ⟨report.graph, {}⟩ :=
      make?_eq_ok_iff.mpr ⟨hconfig, htarget, rfl⟩
    obtain ⟨x, -, hgives, hreads⟩ := hhands _ _ _ _ hmake hrun
    have hsmallest : make? smallestScale {} = .ok ⟨smallestScale, {}⟩ :=
      make?_eq_ok_iff.mpr ⟨hconfig, by decide +kernel, rfl⟩
    obtain ⟨-, y, hy, hback⟩ := hlaw (x := three) hsmallest paired_smallestScale expressible_three
    exact ⟨hvalidate, hfresh, report, rfl, ⟨blocks, hspliced, first, hfirst, second, hsecond,
      hfirstNode, hsecondNode, _, x, hmake, hgives, hreads⟩, _, y, hsmallest, hy, hback⟩

end DyadicNet.Quantize
