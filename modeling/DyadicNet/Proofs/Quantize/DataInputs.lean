import Mathlib
import DyadicNet.Proofs.Quantize.Names

/-!
# The data inputs of a converted graph

The caller of a graph supplies the declared inputs that no constant stands for.  A conversion
declares the constants that it adds, and it refuses to give one of them the name of a constant of
the graph.  It does not refuse the name of a declared input: **a data input of that name becomes a
constant**, and the caller's tensor goes to the input after it, or nowhere.

So a conversion keeps the data inputs exactly if none of them has a name that it makes up.

## Main Statements

* `dataInputs_of_framed` — which data inputs are left;
* `inputsFresh_iff` — that all of them are;
* `quantize_dataInputs` — when all of them are.
-/

namespace DyadicNet.Quantize

open Eval (Interpreter)

variable {graph : Graph} {config : Config} {types : Types} {totalBits : ℕ} {report : Report}
  {start walk last : Walk} {blocks : List Block} {added : List (String × Tensor)} {name : String}

/-! ### What is left of the inputs -/

/-- Weights and bias of a convolution that was converted are constants. -/
theorem constant_of_feedsConv (h : Steps graph types totalBits start blocks last)
    (hsplit : blocks.map Block.source = graph.nodes) (hname : feedsConv graph name = true) :
    graph.initializers.contains name = true := by
  obtain ⟨conversion, hconversion, hname⟩ :=
    (feedsConv_iff hsplit (wellFormed_of_steps h)).mp hname
  obtain ⟨front, back, hblocks⟩ := List.append_of_mem (mem_conversions.mp hconversion)
  obtain ⟨walk, walk', -, hstep⟩ := h.at hblocks
  cases hstep with
  | convert _ hanalyzed _ _ _ _ =>
    obtain ⟨weights, bias, hweightName, hbiasName, hweights, hbias, -⟩ :=
      constants_of_analyzeConv hanalyzed
    simp only [Conversion.superseded, hweightName, hbiasName, Option.toList_some, List.cons_append,
      List.nil_append, List.mem_cons, List.not_mem_nil, or_false] at hname
    unfold NameTable.contains
    rcases hname with rfl | rfl
    · rw [hweights]
      rfl
    · rw [hbias]
      rfl

/-- The constants of the new graph are those that were added, and the old ones that feed no
convolution. -/
theorem contains_of_framed (h : Framed graph report blocks added) (name : String) :
    report.graph.initializers.contains name
      = ((added.map (·.1)).contains name
          || (graph.initializers.contains name && !feedsConv graph name)) := by
  unfold NameTable.contains
  by_cases hmem : name ∈ added.map (·.1)
  · obtain ⟨⟨_, tensor⟩, hentry, rfl⟩ := List.mem_map.mp hmem
    rw [h.added_eq _ tensor hentry, List.contains_iff_mem.mpr hmem]
    rfl
  · rw [h.kept_eq name hmem, Bool.eq_false_iff.mpr fun hcon => hmem (List.contains_iff_mem.mp hcon)]
    cases feedsConv graph name <;> simp

/-- **Of the data inputs, those are left whose names were not given to a constant.** -/
theorem dataInputs_of_framed (h : Framed graph report blocks added)
    (hfeeds : ∀ name, feedsConv graph name = true → graph.initializers.contains name = true) :
    report.graph.dataInputs
      = graph.dataInputs.filter fun declaration =>
          !((conversions blocks).flatMap Conversion.constants).contains declaration.name := by
  have hnames : ∀ name, (added.map (·.1)).contains name
      = ((conversions blocks).flatMap Conversion.constants).contains name := by
    intro name
    rw [Bool.eq_iff_iff, List.contains_iff_mem, List.contains_iff_mem, h.mem_added_iff,
      List.mem_flatMap]
  have hadded : (added.map fun entry => Declaration.ofTensor entry.1 entry.2).filter
      (fun declaration => !report.graph.initializers.contains declaration.name) = [] := by
    rw [List.filter_eq_nil_iff]
    intro declaration hdeclaration
    obtain ⟨⟨name, tensor⟩, hentry, rfl⟩ := List.mem_map.mp hdeclaration
    unfold NameTable.contains
    rw [show (Declaration.ofTensor name tensor).name = name from rfl, h.added_eq name tensor hentry]
    exact Bool.false_ne_true
  unfold Graph.dataInputs
  rw [h.inputs_eq, List.filter_append, List.filter_filter, hadded, List.append_nil,
    List.filter_filter]
  refine List.filter_congr fun declaration _ => ?_
  -- a declared input that stays is a data input unless it was one of a constant, old or new
  have hfeed := hfeeds declaration.name
  rw [contains_of_framed h, ← hnames]
  cases hconv : feedsConv graph declaration.name with
  | true => simp [hfeed hconv]
  | false => simp

/-- What is left under the same names is everything. -/
theorem map_filter_eq_iff {α : Type} {l : List α} {keep : α → Bool} {f : α → String} :
    (l.filter keep).map f = l.map f ↔ ∀ a ∈ l, keep a = true := by
  constructor
  · intro h
    have hlength := congrArg List.length h
    rw [List.length_map, List.length_map] at hlength
    exact List.length_filter_eq_length_iff.mp hlength
  · intro h
    rw [List.filter_eq_self.mpr h]

/-- The tensors between inserted nodes are not declared, since a node of the new graph writes
them. -/
theorem not_external_of_result (hspliced : Spliced graph report blocks)
    (htarget : report.graph.validate = .ok ()) {conversion : Conversion}
    (hconversion : conversion ∈ conversions blocks) (hname : name ∈ conversion.results) :
    name ∉ report.graph.externalNames := by
  have hwritten : ∃ node ∈ conversion.nodes, name ∈ node.outputs := by
    rcases List.mem_append.mp hname with hquantizer | hconvolution
    · obtain ⟨quantizer, hquantizer, hname⟩ := List.mem_flatMap.mp hquantizer
      exact ⟨quantizer, List.mem_append_left _ hquantizer, hname⟩
    · exact ⟨_, List.mem_append_right _ List.mem_cons_self, hconvolution⟩
  obtain ⟨node, hnode, hname⟩ := hwritten
  have hmem : node ∈ report.graph.nodes := by
    rw [hspliced.nodes_eq]
    exact List.mem_flatMap.mpr ⟨_, mem_conversions.mp hconversion, hnode⟩
  exact not_external_of_output htarget hmem hname

/-- **All data inputs are left if and only if none has a name that the conversion introduces.**  Such
a name is that of a constant, or of a tensor that a node of the new graph writes and that cannot be
declared then. -/
theorem inputsFresh_iff (hsteps : Steps graph types totalBits start blocks last)
    (hstart : start.quantizers = []) (hspliced : Spliced graph report blocks)
    (htarget : report.graph.validate = .ok ())
    (hinputs : report.graph.dataInputs = graph.dataInputs.filter fun declaration =>
      !((conversions blocks).flatMap Conversion.constants).contains declaration.name) :
    InputsFresh graph ↔ ∀ declaration ∈ graph.dataInputs,
      (!((conversions blocks).flatMap Conversion.constants).contains declaration.name) = true := by
  constructor
  · intro hfresh declaration hdeclaration
    rw [Bool.not_eq_true', ← Bool.not_eq_true, List.contains_iff_mem]
    intro hconstant
    obtain ⟨conversion, hconversion, hconstant⟩ := List.mem_flatMap.mp hconstant
    obtain ⟨before, node, after, hsplit, hname⟩ := (exists_introduced_iff hstart hsteps).mpr
      ⟨conversion, hconversion, .inl hconstant⟩
    exact hfresh before node after (hspliced.sources_eq.symm.trans hsplit) _ hname
      (List.mem_map_of_mem hdeclaration)
  · intro hkeep before node after hsplit name hname hmem
    obtain ⟨declaration, hdeclaration, rfl⟩ := List.mem_map.mp hmem
    have hkept := hkeep declaration hdeclaration
    obtain ⟨conversion, hconversion, hconstant | hresult⟩ := (exists_introduced_iff hstart hsteps).mp
      ⟨before, node, after, hspliced.sources_eq.trans hsplit, hname⟩
    · rw [Bool.not_eq_true', ← Bool.not_eq_true, List.contains_iff_mem] at hkept
      exact hkept (List.mem_flatMap.mpr ⟨conversion, hconversion, hconstant⟩)
    · have hleft : declaration ∈ report.graph.dataInputs := by
        rw [hinputs, List.mem_filter]
        exact ⟨hdeclaration, hkept⟩
      exact not_external_of_result hspliced htarget hconversion hresult
        (List.mem_append_left _ (List.mem_map_of_mem (List.mem_filter.mp hleft).1))

/-- **Which data inputs a conversion keeps.**  It keeps those whose names are not the ones of
constants that it adds; these are all of them exactly if no data input has a name that a conversion
introduces, and then an evaluation binds the caller's tensor to the same name. -/
theorem quantize_dataInputs (h : quantize config graph = .ok report) :
    (∃ blocks, Spliced graph report blocks ∧
      report.graph.dataInputs = graph.dataInputs.filter fun declaration =>
        !((conversions blocks).flatMap Conversion.constants).contains declaration.name) ∧
    (report.graph.dataInputs.map (·.name) = graph.dataInputs.map (·.name) ↔ InputsFresh graph) ∧
    (InputsFresh graph → report.graph.dataInputs = graph.dataInputs ∧
      ∀ settings, Interpreter.inputName? ⟨report.graph, settings⟩
        = Interpreter.inputName? ⟨graph, settings⟩) := by
  obtain ⟨input, last, nodes, blocks, -, hsteps, rfl, htarget, hspliced, -⟩ := exists_steps h
  set report : Report := ⟨assemble config graph last nodes, last.layers, last.quantizeNodes⟩
  have hframed : Framed graph report blocks last.derived.entries :=
    framed_assemble (accounts_of_steps hsteps) hspliced.sources_eq hspliced.wellFormed
  have hinputs := dataInputs_of_framed hframed fun name =>
    constant_of_feedsConv hsteps hspliced.sources_eq
  have hkeep := inputsFresh_iff hsteps rfl hspliced htarget hinputs
  refine ⟨⟨blocks, hspliced, hinputs⟩, ?_, ?_⟩
  · rw [hinputs, map_filter_eq_iff, hkeep]
  · intro hfresh
    have hsame : report.graph.dataInputs = graph.dataInputs :=
      hinputs.trans (List.filter_eq_self.mpr (hkeep.mp hfresh))
    refine ⟨hsame, fun settings => ?_⟩
    unfold Interpreter.inputName?
    rw [hsame]

/-! ### Inputs with a made-up name -/

/-- A convolution of an input of the given name. -/
def fed (input : String) : Graph :=
  { name := "fed"
    opset := 9
    inputs := [.ofName input]
    outputs := [.ofName "y"]
    nodes := [.make .conv "c" [input, "w", "b"] ["y"]]
    initializers :=
      .ofList [("w", .oneReal 4 (.powerOfTwo (-1))), ("b", .oneReal 1 (.zero false))] }

/-- An input with a name of its own stays what it was. -/
theorem quantize_dataInputs_own :
    ∃ report, quantize {} (fed "x") = .ok report ∧
      report.graph.dataInputs = (fed "x").dataInputs ∧
      Interpreter.inputName? ⟨report.graph, {}⟩ = .ok "x" := by
  have hfresh : InputsFresh (fed "x") := by decide +kernel
  have hquantize : (quantize {} (fed "x")).isOk = true := by decide +kernel
  cases hreport : quantize {} (fed "x") with
  | error fault =>
    rw [hreport] at hquantize
    cases hquantize
  | ok report =>
    obtain ⟨hsame, hname⟩ := (quantize_dataInputs hreport).2.2 hfresh
    exact ⟨report, rfl, hsame, (hname {}).trans (by decide +kernel)⟩

/-- **An input that is called like the scale of an output becomes a constant**, and the new graph
has no input left. -/
theorem quantize_dataInputs_made_up :
    ({} : Config).validate = .ok () ∧ (fed "c_quant_scale").validate = .ok () ∧
      (fed "c_quant_scale").dataInputs.map (·.name) = ["c_quant_scale"] ∧
      ∃ report, quantize {} (fed "c_quant_scale") = .ok report ∧
        report.graph.dataInputs = [] := by
  have hinputs : (quantize {} (fed "c_quant_scale")).toOption.map
      (fun report => report.graph.dataInputs) = some [] := by
    decide +kernel
  refine ⟨by decide +kernel, by decide +kernel, by decide +kernel, ?_⟩
  cases hreport : quantize {} (fed "c_quant_scale") with
  | error fault =>
    rw [hreport] at hinputs
    cases hinputs
  | ok report =>
    rw [hreport] at hinputs
    exact ⟨report, rfl, Option.some_inj.mp hinputs⟩

end DyadicNet.Quantize
