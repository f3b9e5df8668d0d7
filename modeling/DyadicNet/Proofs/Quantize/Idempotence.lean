import Mathlib
import DyadicNet.Proofs.Quantize.Frame
import DyadicNet.Proofs.Quantize.Metadata

/-!
# Converting a graph twice

A second conversion finds no convolutions.  What it still does is look at every quantizer, those
that the first conversion put in and those that the graph had, and each of them has to have
parameters in the new graph.  They have: the constants of an inserted quantizer were added together
with it, and a node that stayed reads what it read before.  So **the second conversion changes
nothing**.

## Main Definitions

* `Settled` — a graph that a conversion has nothing to do for.

## Main Statements

* `quantize_of_settled` — a conversion sets the version of such a graph and does nothing else;
* `settled_of_quantize` — a conversion gives such a graph;
* `quantize_idempotent` — a second conversion gives the same graph.
-/

namespace DyadicNet.Quantize

variable {graph target : Graph} {config : Config} {types : Types} {totalBits : ℕ} {report : Report}
  {walk walk' last : Walk} {conversion : Conversion} {node : Node} {nodes : List Node}

/-- A graph has no convolutions, and its quantizers have parameters, unless they lack an operand. -/
structure Settled (graph : Graph) : Prop where
  operator_ne : ∀ node ∈ graph.nodes, node.operator ≠ .conv
  quantizers : ∀ node ∈ graph.nodes, node.operator = .quantizeLinear →
    ∃ quantizer, Quantizer.ofNode? graph node = .ok quantizer

/-! ### A graph without convolutions -/

/-- There is nothing to analyze. -/
theorem Settled.analyzeAll (h : Settled graph) (totalBits : ℕ) :
    analyzeAll graph totalBits = .ok (graph.nodes.map fun node => (node, none)) :=
  mapM_eq_ok_map fun node hnode => if_neg (h.operator_ne node hnode)

/-- **A walk over nodes that stay** notes quantizers and gives the nodes back. -/
theorem Walk.nodes_of_kept (walk : Walk)
    (h : ∀ node ∈ nodes, node.operator = .quantizeLinear →
      ∃ quantizer, Quantizer.ofNode? graph node = .ok quantizer) :
    ∃ quantizers, walk.nodes graph types totalBits (nodes.map fun node => (node, none))
      = .ok ({ walk with quantizers }, nodes) := by
  induction nodes generalizing walk with
  | nil => exact ⟨walk.quantizers, rfl⟩
  | cons node rest ih =>
    obtain ⟨next, hkeep⟩ : ∃ next, walk.keep graph node = .ok next :=
      Walk.exists_keep_iff.mpr (h node List.mem_cons_self)
    obtain ⟨noted, rfl⟩ := eq_with_of_keep hkeep
    obtain ⟨quantizers, hrest⟩ := ih { walk with quantizers := noted } fun other hother =>
      h other (List.mem_cons_of_mem _ hother)
    refine ⟨quantizers, ?_⟩
    rw [List.map_cons, Walk.nodes, Walk.node, hkeep]
    show (Walk.nodes _ _ _ _ _ >>= _) = _
    rw [hrest]
    rfl

/-- Where no constant was added and none is superseded, only the version is set. -/
theorem assemble_start (config : Config) (graph : Graph) (params : Params)
    (quantizers : List (String × Quantizer)) :
    assemble config graph { Walk.start graph params with quantizers } graph.nodes
      = { graph with opset := config.quantizedOpset } := by
  have hinputs : graph.inputs.filter (fun declaration => !List.contains [] declaration.name)
      = graph.inputs := List.filter_eq_self.mpr fun _ _ => rfl
  have hinitializers : graph.initializers.filter (fun name => !List.contains [] name)
      = graph.initializers := NameTable.ext (List.filter_eq_self.mpr fun _ _ => rfl)
  unfold assemble Walk.start Derived.empty
  dsimp only
  rw [hinputs, hinitializers, List.map_nil, List.append_nil]
  rfl

/-- **A conversion does nothing for a settled graph** but set its version. -/
theorem quantize_of_settled (hconfig : config.validate = .ok ()) (hgraph : graph.validate = .ok ())
    (h : Settled graph) :
    quantize config graph = .ok ⟨{ graph with opset := config.quantizedOpset }, [], 0⟩ := by
  obtain ⟨params, hparams⟩ := exists_make?_of_validate hconfig
  obtain ⟨quantizers, hnodes⟩ : ∃ quantizers, (Walk.start graph params).nodes graph
      (.ofConfig config) config.weightBits (graph.nodes.map fun node => (node, none))
        = .ok ({ Walk.start graph params with quantizers }, graph.nodes) :=
    Walk.nodes_of_kept _ h.quantizers
  have htarget : Graph.validate { graph with opset := config.quantizedOpset } = .ok () := hgraph
  unfold quantize convert
  simp only [bind_eq_ok_iff, mapError_eq_ok_iff]
  refine ⟨(), hconfig, _, h.analyzeAll _, params, hparams, _, hnodes, (), ?_, ?_⟩
  · rw [assemble_start]
    exact htarget
  · rw [assemble_start]
    rfl

/-! ### What a conversion gives -/

/-- A quantizer that stayed has parameters, since the walk has looked at it and its constants are
still there. -/
theorem exists_quantizer_of_kept (hconverted : Converted graph target last)
    (hold : node ∈ graph.nodes) (hnode : node ∈ target.nodes)
    (hkeep : walk.keep graph node = .ok walk') (hoperator : node.operator = .quantizeLinear) :
    ∃ quantizer, Quantizer.ofNode? target node = .ok quantizer := by
  obtain ⟨quantizer, hquantizer⟩ := Walk.exists_keep_iff.mp ⟨walk', hkeep⟩ hoperator
  have hsame : ∀ index name, node.input? index = some name →
      target.initializers.get? name = graph.initializers.get? name := fun index name hname =>
    hconverted.get?_eq hnode hname
      (mem_occurringNames_of_input? hconverted.source_checked hold hname)
  refine ⟨quantizer, ?_⟩
  rw [← hquantizer]
  unfold Quantizer.ofNode?
  split
  · next input output scale zeroPoint hinput houtput hscale hzero =>
    rw [Params.ofConstants?_congr (hsame 1 _ hscale) (hsame 2 _ hzero)]
  · rfl

/-- A quantizer that was put in has the parameters that were added with it. -/
theorem exists_quantizer_of_inserted
    (hcarried : conversion.Carried graph config target.initializers.get?)
    (hquantizer : conversion.quantizer = some node) :
    ∃ quantizer, Quantizer.ofNode? target node = .ok quantizer := by
  obtain ⟨input, hinput, hderived, hvalid, hconstants⟩ :=
    hcarried.quantizer (by rw [hquantizer]; rfl)
  obtain rfl := Option.some_inj.mp (hderived.symm.trans hquantizer)
  obtain ⟨hscale, hzero⟩ := input?_quantizer input conversion.report.input
  refine ⟨some (input, .derived input conversion.report.input), ?_⟩
  unfold Quantizer.ofNode?
  rw [node_derived (Graph.mem_inputs_of_input? hinput).2, hscale, hzero]
  show (Params.ofConstants? _ _ _ _ >>= _) = _
  rw [Params.ofConstants?_of_carriedBy hvalid hconstants]
  rfl

/-- **A conversion gives a settled graph.** -/
theorem settled_of_quantize (hgraph : graph.validate = .ok ()) (hfresh : Fresh graph)
    (h : quantize config graph = .ok report) : Settled report.graph := by
  obtain ⟨input, last, nodes, blocks, hinput, hsteps, -, -, hspliced, hconverted⟩ :=
    exists_steps h
  replace hconverted := hconverted hgraph hfresh
  have hstart : (Walk.start graph input).Dyadic :=
    ⟨(Params.make?_eq_ok_iff.mp hinput).1, fun _ _ hlookup => by cases hlookup⟩
  have hcarried : ∀ conversion ∈ conversions blocks,
      conversion.Carried graph config report.graph.initializers.get? :=
    fun conversion hconversion =>
      (carried_of_steps hstart hsteps conversion hconversion).mono hconverted.derived_eq
  constructor
  · intro node hnode
    rw [hspliced.nodes_eq] at hnode
    obtain ⟨block, hblock, hnode⟩ := List.mem_flatMap.mp hnode
    exact Block.operator_ne_conv (hspliced.wellFormed block hblock) hnode
  · intro node hnode hoperator
    have hmem := hnode
    rw [hspliced.nodes_eq] at hmem
    obtain ⟨block, hblock, hmem⟩ := List.mem_flatMap.mp hmem
    have hwell := hspliced.wellFormed block hblock
    cases block with
    | kept old =>
      obtain rfl := List.mem_singleton.mp hmem
      have hold : node ∈ graph.nodes := hspliced.sources_eq ▸ List.mem_map_of_mem hblock
      obtain ⟨front, back, hsplit⟩ := List.append_of_mem hblock
      obtain ⟨walk, walk', -, hstep⟩ := hsteps.at hsplit
      cases hstep with
      | keep _ hkeep => exact exists_quantizer_of_kept hconverted hold hnode hkeep hoperator
    | converted conversion =>
      -- the other two nodes are of other kinds
      have hshape : conversion.WellFormed := hwell
      simp only [Block.nodes, Conversion.nodes, List.mem_append, Option.mem_toList, List.mem_cons,
        List.not_mem_nil, or_false] at hmem
      rcases hmem with hquantizer | rfl | rfl
      · exact exists_quantizer_of_inserted (hcarried conversion (mem_conversions.mpr hblock))
          hquantizer
      · rw [hshape.convolution_operator] at hoperator
        cases hoperator
      · rw [hshape.dequantizer_operator] at hoperator
        cases hoperator

/-- **A second conversion changes nothing**: it succeeds, reports no layers and no new quantizers,
and gives the graph back. -/
theorem quantize_idempotent (hgraph : graph.validate = .ok ()) (hfresh : Fresh graph)
    (h : quantize config graph = .ok report) :
    quantize config report.graph = .ok ⟨report.graph, [], 0⟩ := by
  have hsettled := settled_of_quantize hgraph hfresh h
  obtain ⟨input, last, nodes, blocks, -, -, hreport, htarget, -, -⟩ := exists_steps h
  have hopset : report.graph.opset = config.quantizedOpset := by rw [hreport]; rfl
  rw [quantize_of_settled (validate_of_quantize h) htarget hsettled, ← hopset]

/-- Three convolutions with common weights and a quantizer of their own are converted once. -/
theorem quantize_idempotent_branches :
    branches.validate = .ok () ∧ Fresh branches ∧ ∃ report, quantize {} branches = .ok report ∧
      report.layers.length = 3 ∧ report.quantizeNodes = 1 ∧
      quantize {} report.graph = .ok ⟨report.graph, [], 0⟩ := by
  have hgraph : branches.validate = .ok () := by decide +kernel
  have hfresh : Fresh branches := by decide +kernel
  have hcounts : (quantize {} branches).toOption.map
      (fun report => (report.layers.length, report.quantizeNodes)) = some (3, 1) := by
    decide +kernel
  cases hreport : quantize {} branches with
  | error fault =>
    rw [hreport] at hcounts
    cases hcounts
  | ok report =>
    rw [hreport] at hcounts
    obtain ⟨hlayers, hcount⟩ := Prod.mk.inj (Option.some_inj.mp hcounts)
    exact ⟨hgraph, hfresh, report, rfl, hlayers, hcount,
      quantize_idempotent hgraph hfresh hreport⟩

end DyadicNet.Quantize
