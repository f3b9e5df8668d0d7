import Mathlib
import DyadicNet.Proofs.Quantize.Simulation

/-!
# A conversion preserves meaning

The main result on conversions: the new graph, evaluated by the interpreter, gives what the old graph
means with its layers quantized.  It holds **as long as no convolution reads data that the graph
quantizes without a name**.  The empty name stands for an operand that is left out, so a convolution
that was told to read from it cannot be evaluated; then every run of the new graph fails.

## Main Statements

* `agree_run?` — runs agree if what the convolutions read has names;
* `run?_ne_ok` — and fail if it does not;
* `run?_quantize` — both, for the quantized form of a graph.
-/

namespace DyadicNet.Quantize

open Eval Eval.Interpreter

variable {graph : Graph} {config : Config} {report : Report}

/-! ### The walk of a conversion -/

/-- What is known at the first node. -/
def Walk.start (graph : Graph) (input : Params) : Walk :=
  { derived := .empty graph.initializers.names
    quantizers := []
    propagated := input
    superseded := []
    layers := []
    quantizeNodes := 0 }

theorem Walk.invariant_start {input : Params} (h : input.Valid) :
    Walk.Invariant graph [] (Walk.start graph input) := by
  refine ⟨?_, List.nodup_nil, ?_, h, ?_, fun _ => rfl⟩
  · intro name hname
    cases hname
  · intro name hname
    cases hname
  · intro name quantizer hquantizer
    cases hquantizer

/-- What a conversion that succeeds consists of. -/
theorem convert_eq_ok (h : convert config graph = .ok report) :
    ∃ tagged input last nodes,
      analyzeAll graph config.weightBits = .ok tagged ∧ input.Valid ∧
      (Walk.start graph input).nodes graph (.ofConfig config) config.weightBits tagged
        = .ok (last, nodes) ∧
      (assemble config graph last nodes).validate = .ok () ∧
      report = ⟨assemble config graph last nodes, last.layers, last.quantizeNodes⟩ := by
  unfold convert at h
  obtain ⟨tagged, htagged, h⟩ := bind_eq_ok_iff.mp h
  obtain ⟨input, hinput, h⟩ := bind_eq_ok_iff.mp h
  obtain ⟨⟨last, nodes⟩, hnodes, h⟩ := bind_eq_ok_iff.mp h
  obtain ⟨⟨⟩, hvalidate, h⟩ := bind_eq_ok_iff.mp h
  cases h
  exact ⟨tagged, input, last, nodes, htagged, (Params.make?_eq_ok_iff.mp hinput).1, hnodes,
    mapError_eq_ok_iff.mp hvalidate, rfl⟩

/-! ### The two ends of a run -/

theorem mem_occurringNames_of_inputName? {inputName : String}
    (h : inputName? ⟨graph, config⟩ = .ok inputName) : inputName ∈ occurringNames graph := by
  unfold inputName? at h
  cases hhead : graph.dataInputs.head? with
  | none =>
    rw [hhead] at h
    cases h
  | some declaration =>
    rw [hhead] at h
    obtain rfl := Except.ok.inj h
    have hmem : declaration ∈ graph.inputs := (List.mem_filter.mp (List.mem_of_mem_head? hhead)).1
    exact mem_occurringNames_of_external (List.mem_append_left _ (List.mem_map_of_mem hmem))

/-- The result of a checked graph has one of the names of the graph. -/
theorem resultName_mem (h : graph.validate = .ok ()) {inputName : String}
    (hinput : inputName ∈ occurringNames graph) :
    resultName ⟨graph, config⟩ inputName ∈ occurringNames graph := by
  unfold resultName
  cases hhead : graph.outputs.head? with
  | some declaration =>
    obtain ⟨final, hnodes, houtputs⟩ := Graph.nodes_of_validate h
    exact List.mem_append.mpr ((Graph.mem_of_checkNodes hnodes _).mp
      (houtputs declaration (List.mem_of_mem_head? hhead)))
  | none =>
    dsimp only
    cases hlast : graph.nodes.getLast? with
    | none => exact hinput
    | some node =>
      rw [Option.bind_some]
      cases houtput : node.output? with
      | none => exact hinput
      | some output =>
        exact mem_occurringNames_of_output (List.mem_of_getLast? hlast)
          (List.mem_of_mem_head? houtput)

variable {tagged : List (Node × Option Analyzed)} {walk last : Walk} {nodes before : List Node}

/-- Both graphs get their input under the same name. -/
theorem inputName?_assemble (h : Walk.Invariant graph before walk) :
    inputName? ⟨assemble config graph walk nodes, config⟩ = inputName? ⟨graph, config⟩ := by
  unfold inputName?
  rw [dataInputs_assemble h]

/-- Both graphs are asked for the same name, also if no output is declared. -/
theorem resultName_assemble (hsplit : tagged.map (·.1) = graph.nodes)
    (htags : ∀ entry ∈ tagged, Tagged graph config.weightBits entry)
    (hnodes : walk.nodes graph (.ofConfig config) config.weightBits tagged = .ok (last, nodes))
    (inputName : String) : resultName ⟨assemble config graph last nodes, config⟩ inputName
      = resultName ⟨graph, config⟩ inputName := by
  have houtput := Walk.output?_getLast htags hnodes
  unfold resultName
  rw [← hsplit, ← houtput]
  rfl

/-- Before the first node both graphs know the input and nothing else. -/
theorem simulates_start (target : Graph) (defined : List String) (inputName : String)
    (input : Tensor) :
    Simulates graph target defined [] ⟨⟨[(inputName, input)], none⟩, []⟩
      ⟨[(inputName, input)], none⟩ := by
  refine ⟨rfl, fun _ _ => rfl, fun _ _ => rfl, ?_⟩
  intro key quantizer hlookup
  cases hlookup

/-! ### Preservation -/

/-- **Runs agree** if every quantizer that a convolution reads has a name for its result. -/
theorem agree_run? (hfresh : Fresh graph) (hnamed : ReadsNamed graph)
    (hgraph : graph.validate = .ok ())
    (hstart : Walk.Invariant graph [] walk) (hquantizers : walk.quantizers = [])
    (hlayers : walk.layers = [])
    (htagged : analyzeAll graph config.weightBits = .ok tagged)
    (hnodes : walk.nodes graph (.ofConfig config) config.weightBits tagged = .ok (last, nodes))
    (htarget : (assemble config graph last nodes).validate = .ok ()) (input : Tensor) :
    Agree (· = ·) (Reference.run? ⟨graph, config⟩ last.layers input)
      (run? ⟨assemble config graph last nodes, config⟩ input) := by
  obtain ⟨hsplit, htags⟩ := tagged_of_analyzeAll htagged
  have hall : graph.nodes = [] ++ (tagged.map (·.1) ++ []) := by
    rw [List.append_nil, List.nil_append, hsplit]
  obtain ⟨hlast, -⟩ := Walk.invariant_nodes hfresh hstart htags hall hnodes
  have hconverted := converted_assemble hfresh hgraph hstart htags hsplit hnodes htarget
  obtain ⟨final, hchecked, -⟩ := Graph.nodes_of_validate htarget
  obtain ⟨reports, hreports, hagree⟩ := agree_steps hfresh hnamed hconverted hstart htags
    hsplit.symm hnodes (fun _ hother => hother) hchecked
  rw [hlayers, List.nil_append] at hreports
  rw [run?_eq, inputName?_assemble hlast, hreports]
  unfold Reference.run?
  cases hname : inputName? ⟨graph, config⟩ with
  | error fault => exact .error _ _
  | ok inputName =>
    rw [hquantizers, hsplit] at hagree
    have hrun := hagree _ _ (simulates_start _ _ inputName input)
    show Agree _ (Reference.steps _ _ _ _ >>= _) (nodes.foldlM _ _ >>= _)
    refine .bind hrun ?_
    intro state environment hsimulates
    have hoccurs : resultName ⟨graph, config⟩ inputName ∈ occurringNames graph :=
      resultName_mem hgraph (mem_occurringNames_of_inputName? hname)
    dsimp only
    rw [hsimulates.lookup_eq _ hoccurs, resultName_assemble hsplit htags hnodes]
    cases environment.values.lookup (resultName ⟨graph, config⟩ inputName) with
    | none => exact .error _ _
    | some result => exact .ok rfl

/-- Data that is quantized without a name makes for a quantized convolution without data. -/
theorem exists_unnamed (hfresh : Fresh graph) (hnamed : ¬ReadsNamed graph)
    (hstart : Walk.Invariant graph [] walk)
    (htagged : analyzeAll graph config.weightBits = .ok tagged)
    (hnodes : walk.nodes graph (.ofConfig config) config.weightBits tagged = .ok (last, nodes)) :
    ∃ node ∈ nodes, node.operator = .qlinearConv ∧ node.input? 0 = none := by
  obtain ⟨hsplit, htags⟩ := tagged_of_analyzeAll htagged
  unfold ReadsNamed at hnamed
  push Not at hnamed
  obtain ⟨before, node, after, hnode, hoperator, name, hname, hrecorded⟩ := hnamed
  -- the walk up to the convolution, and its step there
  rw [← hsplit, List.map_eq_append_iff] at hnode
  obtain ⟨front, back, rfl, hfront, hback⟩ := hnode
  obtain ⟨entry, rest, rfl, rfl, hrest⟩ := List.map_eq_cons_iff.mp hback
  obtain ⟨middle, here, there, hearlier, hlater, rfl⟩ := Walk.nodes_append hnodes
  obtain ⟨_, inserted, others, hstep, -, rfl⟩ := Walk.nodes_cons hlater
  have hsource : graph.nodes = [] ++ (front.map (·.1) ++ entry.1 :: after) := by
    rw [← hsplit, List.map_append, List.map_cons, hrest, List.nil_append]
  obtain ⟨hinvariant, -⟩ := Walk.invariant_nodes hfresh hstart
    (fun other hother => htags other (List.mem_append_left _ hother)) hsource hearlier
  rw [List.nil_append, hfront] at hinvariant
  obtain ⟨node, tag⟩ := entry
  have hentry := htags (node, tag) (List.mem_append_right _ List.mem_cons_self)
  cases tag with
  | none => exact absurd hoperator hentry
  | some analyzed =>
    obtain ⟨_, source, quantize, _, _, hquantizer, -, -, -, rfl⟩ := Walk.conv_eq_ok hstep
    have hinput := (spec_of_analyzeConv hentry.2).input_eq
    obtain rfl := Option.some_inj.mp (hname.symm.trans hinput)
    rw [hinvariant.recorded_eq, Option.map_eq_some_iff] at hrecorded
    obtain ⟨known, hknown, hempty⟩ := hrecorded
    refine ⟨Walk.convolution node source, by simp, rfl, ?_⟩
    rcases Walk.source_eq_ok hquantizer with ⟨hsame, -, -⟩ | ⟨_, hnew, -⟩
    · obtain rfl := Option.some_inj.mp (hknown.symm.trans hsame)
      simp [Walk.convolution, Walk.operandNames, Node.input?, hempty]
    · rw [hknown] at hnew
      cases hnew

/-- **Without a name for what it reads a convolution cannot be evaluated.** -/
theorem run?_ne_ok (hfresh : Fresh graph) (hnamed : ¬ReadsNamed graph)
    (hstart : Walk.Invariant graph [] walk)
    (htagged : analyzeAll graph config.weightBits = .ok tagged)
    (hnodes : walk.nodes graph (.ofConfig config) config.weightBits tagged = .ok (last, nodes))
    (input output : Tensor) : run? ⟨assemble config graph last nodes, config⟩ input ≠ .ok output := by
  obtain ⟨node, hnode, hoperator, hunnamed⟩ := exists_unnamed hfresh hnamed hstart htagged hnodes
  intro hrun
  rw [run?_eq] at hrun
  obtain ⟨inputName, -, hrun⟩ := bind_eq_ok_iff.mp hrun
  obtain ⟨environment, henvironment, -⟩ := bind_eq_ok_iff.mp hrun
  exact foldlM_advance_ne_ok hnode (fun e f => advance_ne_ok hoperator hunnamed) _ _ henvironment

/-- **A conversion preserves the meaning of a graph.**  If no convolution of a checked graph reads
data that is quantized without a name, then every run of its quantized form succeeds exactly if the
meaning of the graph is defined, and gives the same tensor.  Otherwise no run of it succeeds. -/
theorem run?_quantize (hgraph : graph.validate = .ok ()) (hfresh : Fresh graph)
    (h : quantize config graph = .ok report) :
    ∃ source target, make? graph config = .ok source ∧ make? report.graph config = .ok target ∧
      (ReadsNamed graph → ∀ input, (target.run? input).toOption
        = (Reference.run? source report.layers input).toOption) ∧
      (¬ReadsNamed graph → ∀ input, (target.run? input).toOption = none) := by
  unfold quantize at h
  obtain ⟨⟨⟩, hvalid, hconvert⟩ := bind_eq_ok_iff.mp h
  have hconfig := mapError_eq_ok_iff.mp hvalid
  obtain ⟨tagged, input, last, nodes, htagged, hinput, hnodes, htarget, rfl⟩ :=
    convert_eq_ok hconvert
  have hstart : Walk.Invariant graph [] (Walk.start graph input) := Walk.invariant_start hinput
  refine ⟨_, _, make?_eq_ok_iff.mpr ⟨hconfig, hgraph, rfl⟩,
    make?_eq_ok_iff.mpr ⟨hconfig, htarget, rfl⟩, ?_, ?_⟩
  · intro hnamed x
    exact (agree_run? hfresh hnamed hgraph hstart rfl rfl htagged hnodes htarget x).toOption_eq.symm
  · intro hnamed x
    cases hrun : run? ⟨assemble config graph last nodes, config⟩ x with
    | error fault => rfl
    | ok y => exact absurd hrun (run?_ne_ok hfresh hnamed hstart htagged hnodes x y)

/-! ### A graph that quantizes its input -/

/-- A value as a tensor that can be convolved. -/
def realCell (value : Binary64) : Tensor :=
  ⟨[1, 1, 1, 1], .reals #[value], Tensor.size_oneReal 4 value, Tensor.inRange_oneReal value⟩

/-- A graph that quantizes its input under the given name, and then halves the input by a
convolution. -/
def sharedInput (quantized : String) : Graph :=
  let bias : Tensor := ⟨[1], .reals #[.zero false], rfl, rfl⟩
  let zeroPoint : Tensor := ⟨[], .ints .i16 #[0], rfl, Tensor.inRange_zeroPoint⟩
  { name := "shared"
    opset := 9
    inputs := [.ofName "x"]
    outputs := [.ofName "y"]
    nodes :=
      [.make .quantizeLinear "q" ["x", "s", "z"] [quantized], .make .conv "c" ["x", "w", "b"] ["y"]]
    initializers :=
      ⟨[("b", bias), ("s", .scalarReal (.ofInt 1)), ("w", realCell (.powerOfTwo (-1))),
        ("z", zeroPoint)], by
        simp only [List.pairwise_cons]
        decide⟩ }

/-- With a name for what is quantized, the quantized form halves four. -/
theorem run?_quantize_shared :
    (sharedInput "xq").validate = .ok () ∧ Fresh (sharedInput "xq") ∧
      ∃ report, quantize {} (sharedInput "xq") = .ok report ∧
        ∃ target, make? report.graph {} = .ok target ∧
          (target.run? (realCell (.ofInt 4))).toOption = some (realCell (.ofInt 2)) := by
  have hvalidate : (sharedInput "xq").validate = .ok () := by decide +kernel
  have hfresh : Fresh (sharedInput "xq") := by decide +kernel
  have hnamed : ReadsNamed (sharedInput "xq") := by decide +kernel
  have hquantize : (quantize {} (sharedInput "xq")).isOk = true := by decide +kernel
  have hmeaning : (quantize {} (sharedInput "xq")).toOption.bind (fun report =>
      (Reference.run? ⟨sharedInput "xq", {}⟩ report.layers (realCell (.ofInt 4))).toOption)
        = some (realCell (.ofInt 2)) := by decide +kernel
  cases hreport : quantize {} (sharedInput "xq") with
  | error fault =>
    rw [hreport] at hquantize
    cases hquantize
  | ok report =>
    rw [hreport] at hmeaning
    obtain ⟨source, target, hsource, htarget, hruns, -⟩ := run?_quantize hvalidate hfresh hreport
    refine ⟨hvalidate, hfresh, report, rfl, target, htarget, ?_⟩
    rw [hruns hnamed, show source = ⟨sharedInput "xq", {}⟩ from ?_]
    · exact hmeaning
    · exact (make?_eq_ok_iff.mp hsource).2.2

/-- Without one, the quantized form of the graph cannot be evaluated, although the graph means the
same. -/
theorem run?_quantize_unnamed :
    (sharedInput "").validate = .ok () ∧ Fresh (sharedInput "") ∧
      ∃ report, quantize {} (sharedInput "") = .ok report ∧
        ∃ source target, make? (sharedInput "") {} = .ok source ∧
          make? report.graph {} = .ok target ∧
          (Reference.run? source report.layers (realCell (.ofInt 4))).toOption
            = some (realCell (.ofInt 2)) ∧
          (target.run? (realCell (.ofInt 4))).toOption = none := by
  have hvalidate : (sharedInput "").validate = .ok () := by decide +kernel
  have hquantize : (quantize {} (sharedInput "")).isOk = true := by decide +kernel
  have hmeaning : (quantize {} (sharedInput "")).toOption.bind (fun report =>
      (Reference.run? ⟨sharedInput "", {}⟩ report.layers (realCell (.ofInt 4))).toOption)
        = some (realCell (.ofInt 2)) := by decide +kernel
  have hrun : (quantize {} (sharedInput "")).toOption.bind (fun report =>
      (run? ⟨report.graph, {}⟩ (realCell (.ofInt 4))).toOption) = none := by decide +kernel
  have htarget : (quantize {} (sharedInput "")).toOption.map (fun report => report.graph.validate)
      = some (.ok ()) := by decide +kernel
  cases hreport : quantize {} (sharedInput "") with
  | error fault =>
    rw [hreport] at hquantize
    cases hquantize
  | ok report =>
    rw [hreport] at hmeaning hrun htarget
    have hconfig : Config.validate {} = .ok () := by decide +kernel
    exact ⟨hvalidate, by decide +kernel, report, rfl, _, _,
      make?_eq_ok_iff.mpr ⟨hconfig, hvalidate, rfl⟩,
      make?_eq_ok_iff.mpr ⟨hconfig, Option.some_inj.mp htarget, rfl⟩, hmeaning, hrun⟩

end DyadicNet.Quantize
