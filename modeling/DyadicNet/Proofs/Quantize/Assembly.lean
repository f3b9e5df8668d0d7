import Mathlib
import DyadicNet.Proofs.Graph.Validation
import DyadicNet.Proofs.Quantize.Walk

/-!
# The graph that a conversion gives

The new graph has the constants of the old one without those that were superseded, and the constants
that were added.  The added names occur nowhere in the old graph, so for a name of the old graph
**nothing has changed unless the name was superseded**.  A superseded constant is not missed: the new
graph passes its check, so whatever one of its nodes reads is still there.

## Main Definitions

* `Converted` — what is known about the old graph, the new one and the walk between them.

## Main Statements

* `get?_assemble`, `dataInputs_assemble` — constants and inputs of the new graph;
* `converted_assemble` — a conversion that succeeds gives a converted graph;
* `Converted.get?_eq` — a node of the new graph reads an old name as before;
* `Walk.output?_getLast` — the last node of both graphs has the same result.
-/

namespace DyadicNet.Quantize

variable {graph target : Graph} {config : Config} {walk : Walk} {nodes before : List Node}
  {node : Node} {name : String}

/-! ### Names of a checked graph -/

theorem mem_occurringNames_of_external (h : name ∈ graph.externalNames) :
    name ∈ occurringNames graph :=
  List.mem_append_left _ h

theorem mem_occurringNames_of_constant (h : name ∈ graph.initializers.names) :
    name ∈ occurringNames graph :=
  mem_occurringNames_of_external (List.mem_append_right _ h)

theorem mem_occurringNames_of_output (hnode : node ∈ graph.nodes) (h : name ∈ node.outputs) :
    name ∈ occurringNames graph :=
  List.mem_append_right _ (List.mem_flatMap.mpr ⟨node, hnode, h⟩)

/-- Each node of a checked graph was checked, at a time when some names of the graph were defined. -/
theorem exists_checkedNode (h : graph.validate = .ok ()) (hnode : node ∈ graph.nodes) :
    ∃ defined next, Graph.CheckedNode defined next node ∧ defined ⊆ occurringNames graph ∧
      graph.externalNames ⊆ defined := by
  obtain ⟨front, rest, hsplit⟩ := List.append_of_mem hnode
  obtain ⟨final, hnodes, -⟩ := Graph.nodes_of_validate h
  rw [hsplit] at hnodes
  obtain ⟨defined, hfront, hnodes⟩ := Graph.checkNodes_append hnodes
  obtain ⟨next, hchecked, -⟩ := Graph.checkNodes_cons hnodes
  refine ⟨defined, next, hchecked, ?_, ?_⟩
  · intro name hname
    rcases (Graph.mem_of_checkNodes hfront name).mp hname with hexternal | hwritten
    · exact mem_occurringNames_of_external hexternal
    · obtain ⟨other, hother, hname⟩ := List.mem_flatMap.mp hwritten
      exact mem_occurringNames_of_output (hsplit ▸ List.mem_append_left _ hother) hname
  · intro name hname
    exact (Graph.mem_of_checkNodes hfront name).mpr (.inl hname)

theorem mem_occurringNames_of_input? (h : graph.validate = .ok ()) (hnode : node ∈ graph.nodes)
    {index : ℕ} (hname : node.input? index = some name) : name ∈ occurringNames graph := by
  obtain ⟨defined, next, hchecked, hsub, -⟩ := exists_checkedNode h hnode
  exact hsub (hchecked.read hname)

theorem not_external_of_output (h : graph.validate = .ok ()) (hnode : node ∈ graph.nodes)
    (hname : name ∈ node.outputs) : name ∉ graph.externalNames := by
  obtain ⟨defined, next, hchecked, -, hsub⟩ := exists_checkedNode h hnode
  exact fun hexternal => hchecked.writes name hname (hsub hexternal)

/-! ### Constants and inputs of the new graph -/

theorem get?_assemble (h : walk.derived.names.Nodup) (name : String) :
    (assemble config graph walk nodes).initializers.get? name
      = (walk.derived.get? name).or
          (if name ∈ walk.superseded then none else graph.initializers.get? name) := by
  unfold assemble
  dsimp only
  rw [NameTable.get?_foldl_insert h, NameTable.get?_filter]
  by_cases hname : name ∈ walk.superseded
  · simp [hname, Derived.get?_eq_lookup]
  · simp [hname, Derived.get?_eq_lookup]

/-- A name of the old graph stands for what it stood for, or for nothing. -/
theorem Walk.Invariant.get?_eq (h : Walk.Invariant graph before walk)
    (hname : name ∈ occurringNames graph) :
    (assemble config graph walk nodes).initializers.get? name
      = if name ∈ walk.superseded then none else graph.initializers.get? name := by
  have hnone : walk.derived.get? name = none :=
    Derived.get?_eq_none_iff.mpr fun hderived => h.fresh name hderived hname
  rw [get?_assemble h.nodup, hnone, Option.none_or]

/-- A declaration of the old graph that is still there belongs to a constant if it did. -/
theorem Walk.Invariant.isDataInput_eq (h : Walk.Invariant graph before walk)
    {declaration : Declaration} (hdeclaration : declaration ∈ graph.inputs) :
    (!(assemble config graph walk nodes).initializers.contains declaration.name
      && !walk.superseded.contains declaration.name)
      = !graph.initializers.contains declaration.name := by
  have hname : declaration.name ∈ occurringNames graph := mem_occurringNames_of_external
    (List.mem_append_left _ (List.mem_map_of_mem hdeclaration))
  unfold NameTable.contains
  rw [h.get?_eq hname]
  -- a superseded declaration belongs to a constant, so it was no data input before either
  by_cases hsuperseded : declaration.name ∈ walk.superseded
  · have hconstant := NameTable.isSome_get?_iff.mpr (h.superseded_mem _ hsuperseded)
    simp [hsuperseded, hconstant]
  · simp [hsuperseded]

/-- What was added is a constant. -/
theorem contains_of_added (h : walk.derived.names.Nodup) {entry : String × Tensor}
    (hentry : entry ∈ walk.derived.entries) :
    (assemble config graph walk nodes).initializers.contains entry.1 = true := by
  have hderived : (walk.derived.get? entry.1).isSome = true :=
    Derived.isSome_get?_iff.mpr (List.mem_map_of_mem hentry)
  unfold NameTable.contains
  rw [get?_assemble h, Option.isSome_or, hderived, Bool.true_or]

/-- The new graph has the data inputs of the old one. -/
theorem dataInputs_assemble (h : Walk.Invariant graph before walk) :
    (assemble config graph walk nodes).dataInputs = graph.dataInputs := by
  have hadded : (walk.derived.entries.map
      fun entry => Declaration.ofTensor entry.1 entry.2).filter (fun declaration =>
        !(assemble config graph walk nodes).initializers.contains declaration.name) = [] := by
    rw [List.filter_eq_nil_iff]
    intro declaration hdeclaration
    obtain ⟨entry, hentry, rfl⟩ := List.mem_map.mp hdeclaration
    show ¬(!(assemble config graph walk nodes).initializers.contains entry.1) = true
    rw [contains_of_added h.nodup hentry]
    exact Bool.false_ne_true
  unfold Graph.dataInputs
  show List.filter _ (graph.inputs.filter _ ++ _) = _
  rw [List.filter_append, List.filter_filter, hadded, List.append_nil]
  exact List.filter_congr fun declaration hdeclaration => h.isDataInput_eq hdeclaration

/-- A superseded constant is neither declared any more nor a constant. -/
theorem Walk.Invariant.not_external (h : Walk.Invariant graph before walk)
    (hsuperseded : name ∈ walk.superseded) :
    name ∉ (assemble config graph walk nodes).externalNames := by
  have hname := mem_occurringNames_of_constant (h.superseded_mem name hsuperseded)
  intro hexternal
  rcases List.mem_append.mp hexternal with hinput | hinitializer
  · obtain ⟨declaration, hdeclaration, rfl⟩ := List.mem_map.mp hinput
    rcases List.mem_append.mp hdeclaration with hold | hadded
    · simp [hsuperseded] at hold
    · obtain ⟨entry, hentry, heq⟩ := List.mem_map.mp hadded
      rw [← heq] at hname
      exact h.fresh _ (List.mem_map_of_mem hentry) hname
  · rw [← NameTable.isSome_get?_iff, h.get?_eq hname, if_pos hsuperseded] at hinitializer
    cases hinitializer

/-! ### Nodes of the new graph -/

namespace Walk

variable {walk' : Walk} {totalBits : ℕ} {weightType activationType : IntType}
  {tagged : List (Node × Option Analyzed)}

/-- The last of the nodes that stand for a node has the result of that node. -/
theorem exists_last_of_node {types : Types} {entry : Node × Option Analyzed}
    (htagged : Tagged graph totalBits entry)
    (h : walk.node graph types totalBits entry = .ok (walk', nodes)) :
    ∃ front last, nodes = front ++ [last] ∧ last.output? = entry.1.output? := by
  obtain ⟨node, tag⟩ := entry
  cases tag with
  | some analyzed =>
    obtain ⟨_, source, quantize, _, _, -, -, -, -, rfl⟩ := conv_eq_ok h
    refine ⟨quantize ++ [convolution node source], dequantizer node analyzed.output, by simp, ?_⟩
    exact (spec_of_analyzeConv htagged.2).output_eq.symm
  | none =>
    obtain ⟨kept, -, heq⟩ := map_eq_ok_iff.mp h
    obtain ⟨-, rfl⟩ := Prod.mk.inj heq
    exact ⟨[], node, rfl, rfl⟩

/-- The last node of a walk has the result of the last node that was walked over. -/
theorem output?_getLast {types : Types} (htagged : ∀ entry ∈ tagged, Tagged graph totalBits entry)
    (h : walk.nodes graph types totalBits tagged = .ok (walk', nodes)) :
    nodes.getLast?.bind Node.output? = (tagged.map (·.1)).getLast?.bind Node.output? := by
  -- the last node was given by the last step, whatever came before
  rcases List.eq_nil_or_concat' tagged with rfl | ⟨front, entry, rfl⟩
  · cases h
    rfl
  · obtain ⟨middle, here, after, -, hlast, rfl⟩ := nodes_append h
    obtain ⟨_, there, rest, hstep, hrest, rfl⟩ := nodes_cons hlast
    cases hrest
    obtain ⟨others, last, rfl, houtput⟩ :=
      exists_last_of_node (htagged entry (List.mem_append_right _ List.mem_cons_self)) hstep
    simp [houtput]

/-- The data of a convolution that is quantized for it gets a name that does not occur in the graph. -/
theorem Invariant.source_not_mem (hfresh : Fresh graph) (h : Invariant graph before walk)
    {after : List Node} (hsplit : graph.nodes = before ++ node :: after)
    (hnode : node.operator = .conv) {input : String} (hinput : node.input? 0 = some input)
    (hnew : walk.quantizers.lookup input = none) : input ++ "_quant" ∉ occurringNames graph := by
  refine hfresh before node after hsplit _ ?_
  exact quantizerNames_subset_introduced hnode hinput (Records.eq_none h.recorded_eq hnew)
    List.mem_cons_self

/-- So does the result of the quantized convolution. -/
theorem dequantName_not_mem (hfresh : Fresh graph) {after : List Node}
    (hsplit : graph.nodes = before ++ node :: after) (hnode : node.operator = .conv)
    {input : String} (hinput : node.input? 0 = some input) :
    dequantName node.label ∉ occurringNames graph := by
  refine hfresh before node after hsplit _ ?_
  exact layerNames_subset_introduced hnode hinput List.mem_cons_self

/-- A result of a node that stands for another one is a result of that one, or does not occur in the
graph. -/
theorem mem_outputs_of_node (hfresh : Fresh graph) (h : Invariant graph before walk)
    {entry : Node × Option Analyzed} {after : List Node}
    (hsplit : graph.nodes = before ++ entry.1 :: after) (htagged : Tagged graph totalBits entry)
    (hstep : walk.node graph ⟨.int weightType, .int activationType⟩ totalBits entry
      = .ok (walk', nodes)) (hnode : node ∈ nodes) (hname : name ∈ node.outputs) :
    name ∈ entry.1.outputs ∨ name ∉ occurringNames graph := by
  obtain ⟨original, tag⟩ := entry
  cases tag with
  | some analyzed =>
    have hspec := spec_of_analyzeConv htagged.2
    obtain ⟨_, source, quantize, _, _, hsource, -, -, -, rfl⟩ := conv_eq_ok hstep
    simp only [List.mem_append, List.mem_cons, List.not_mem_nil, or_false] at hnode
    rcases hnode with hquantize | rfl | rfl
    · right
      rcases source_eq_ok hsource with ⟨-, -, rfl⟩ | ⟨_, hnew, rfl, -, -, rfl⟩
      · cases hquantize
      · obtain rfl := List.mem_singleton.mp hquantize
        obtain rfl := List.mem_singleton.mp hname
        exact h.source_not_mem hfresh hsplit htagged.1 hspec.input_eq hnew
    · right
      obtain rfl := List.mem_singleton.mp hname
      exact dequantName_not_mem hfresh hsplit htagged.1 hspec.input_eq
    · left
      obtain rfl := List.mem_singleton.mp hname
      exact List.mem_of_mem_head? hspec.output_eq
  | none =>
    obtain ⟨kept, -, heq⟩ := map_eq_ok_iff.mp hstep
    obtain ⟨-, rfl⟩ := Prod.mk.inj heq
    obtain rfl := List.mem_singleton.mp hnode
    exact .inl hname

end Walk

/-! ### Conversions that succeed -/

/-- What is known about a graph, the graph that it was converted to, and the walk over its nodes. -/
structure Converted (graph target : Graph) (walk : Walk) : Prop where
  source_checked : graph.validate = .ok ()
  target_checked : target.validate = .ok ()
  /-- What was added is there. -/
  derived_eq : ∀ name tensor, walk.derived.get? name = some tensor →
    target.initializers.get? name = some tensor
  /-- What was there is there, unless it was superseded. -/
  kept_eq : ∀ name ∈ occurringNames graph, name ∉ walk.superseded →
    target.initializers.get? name = graph.initializers.get? name
  /-- What was superseded is gone. -/
  superseded_gone : ∀ name ∈ walk.superseded, name ∉ occurringNames target

namespace Converted

/-- A name of the old graph that a node of the new one reads stands for what it stood for. -/
theorem get?_eq (h : Converted graph target walk) (hnode : node ∈ target.nodes) {index : ℕ}
    (hinput : node.input? index = some name) (hname : name ∈ occurringNames graph) :
    target.initializers.get? name = graph.initializers.get? name := by
  refine h.kept_eq name hname ?_
  intro hsuperseded
  exact h.superseded_gone name hsuperseded
    (mem_occurringNames_of_input? h.target_checked hnode hinput)

end Converted

variable {walk' : Walk} {totalBits : ℕ} {weightType activationType : IntType}
  {tagged : List (Node × Option Analyzed)}

/-- A conversion that succeeds gives a converted graph. -/
theorem converted_assemble (hfresh : Fresh graph) (hgraph : graph.validate = .ok ())
    (hstart : Walk.Invariant graph [] walk)
    (htagged : ∀ entry ∈ tagged, Tagged graph totalBits entry)
    (hsplit : tagged.map (·.1) = graph.nodes)
    (hnodes : walk.nodes graph ⟨.int weightType, .int activationType⟩ totalBits tagged
      = .ok (walk', nodes))
    (htarget : (assemble config graph walk' nodes).validate = .ok ()) :
    Converted graph (assemble config graph walk' nodes) walk' := by
  have hall : graph.nodes = [] ++ (tagged.map (·.1) ++ []) := by
    rw [List.append_nil, List.nil_append, hsplit]
  obtain ⟨hinvariant, -⟩ := Walk.invariant_nodes hfresh hstart htagged hall hnodes
  refine ⟨hgraph, htarget, ?_, ?_, ?_⟩
  · intro name tensor hname
    rw [get?_assemble hinvariant.nodup, hname]
    rfl
  · intro name hname hkept
    rw [hinvariant.get?_eq hname, if_neg hkept]
  · intro name hsuperseded hmem
    rcases List.mem_append.mp hmem with hexternal | hwritten
    · exact hinvariant.not_external hsuperseded hexternal
    · -- it was a constant of the old graph, so no node of it has it as a result
      have hconstant := hinvariant.superseded_mem name hsuperseded
      obtain ⟨node, hnode, houtput⟩ := List.mem_flatMap.mp hwritten
      obtain ⟨front, entry, after, earlier, later, here, hfront, hentry, hearlier, hstep, hhere⟩ :=
        Walk.exists_node_of_mem hfresh hstart htagged hall hnodes hnode
      rcases Walk.mem_outputs_of_node hfresh hearlier hfront hentry hstep hhere houtput with
        hold | hnew
      · exact not_external_of_output hgraph
          (hfront ▸ List.mem_append_right _ List.mem_cons_self) hold
          (List.mem_append_right _ hconstant)
      · exact hnew (mem_occurringNames_of_constant hconstant)

end DyadicNet.Quantize
