import Mathlib
import DyadicNet.Proofs.Eval.Bindings
import DyadicNet.Proofs.Eval.Faults

/-!
# Where a value is missing

The check of a graph accepts a name as defined if it is declared, a constant, or the result of an
earlier node.  An operand is looked for among the values and then among the constants.  If the input
is the only name that a caller supplies and every node has the operands that its operator cannot do
without, then the two agree, and **every operand has a value when it is read**.

The result of the graph is looked for among the values only.  So a run **misses a value exactly if
it gets to its end and the first declared output is a constant**, which the check accepts as well.

## Main Definitions

* `Operator.needed`, `Node.Equipped` — the operands that a node cannot do without;
* `Eval.Interpreter.Available` — the names that an operand is found under.

## Main Statements

* `avoids_evalNode` — one node;
* `available_of_checkNodes` — what the check has defined before a node is there when it is evaluated;
* `avoids_foldlM_advance` — all nodes of a run;
* `run?_missingValue_iff` — the runs that miss a value.
-/

namespace DyadicNet

/-- How many of its first operands an operator cannot do without.  Operators that are not evaluated
are refused before their operands are looked at. -/
def Operator.needed : Operator → ℕ
  | .conv | .other _ => 0
  | .qlinearConv => 8
  | .quantizeLinear | .dequantizeLinear => 3
  | .pad | .maxPool | .globalAveragePool | .relu | .leakyRelu => 1

/-- A node has one result, and names the operands that its operator cannot do without. -/
structure Node.Equipped (node : Node) : Prop where
  outputs : node.outputs.length = 1
  inputs : ∀ index < node.operator.needed, (node.input? index).isSome

instance (node : Node) : Decidable node.Equipped :=
  decidable_of_iff (node.outputs.length = 1 ∧
      ∀ index < node.operator.needed, (node.input? index).isSome)
    ⟨fun ⟨houtputs, hinputs⟩ => ⟨houtputs, hinputs⟩, fun h => ⟨h.outputs, h.inputs⟩⟩

/-- The names of the results of such nodes are those of their first results. -/
theorem flatMap_outputs {nodes : List Node} (h : ∀ node ∈ nodes, node.Equipped) :
    nodes.flatMap Node.outputs = nodes.filterMap Node.output? := by
  induction nodes with
  | nil => rfl
  | cons node rest ih =>
    obtain ⟨name, hname⟩ := List.length_eq_one_iff.mp (h node List.mem_cons_self).outputs
    have houtput : node.output? = some name := by
      unfold Node.output?
      rw [hname]
      rfl
    rw [List.flatMap_cons, List.filterMap_cons_some houtput, hname,
      ih fun other hother => h other (List.mem_cons_of_mem _ hother)]
    rfl

namespace Eval

open Error (OfMissingValue)

variable {node : Node}

/-! ### Operators -/

theorem avoids_missing_ofGraph {α : Type} {x : Except Graph.Error α} :
    Avoids OfMissingValue (ofGraph x) :=
  avoids_mapError fun _ => id

/-- What does not fail for what it is applied to does not miss a value. -/
theorem Avoids.missing {α : Type} {x : Except Error α} (h : Avoids Error.OfOperands x) :
    Avoids OfMissingValue x :=
  h.mono fun _ => Error.OfMissingValue.ofOperands

/-- Nor does a check. -/
theorem Avoids.missing_of_unchecked {α : Type} {x : Except Error α} (h : Avoids Error.Unchecked x) :
    Avoids OfMissingValue x :=
  h.mono fun _ hmissing => hmissing.ofValues.unchecked

theorem avoids_elementwise (onReal : Binary64 → Binary64) (onInt : ℤ → ℤ) (x : Tensor) :
    Avoids OfMissingValue (elementwise onReal onInt x) := by
  unfold elementwise
  split
  · exact Avoids.missing (avoids_intTensor _ _ _)
  · exact Avoids.missing (avoids_realTensor _ _)

theorem avoids_maxPoolNode (x : Tensor) : Avoids OfMissingValue (maxPoolNode node x) := by
  unfold maxPoolNode
  refine avoids_missing_ofGraph.bind fun _ _ => avoids_missing_ofGraph.bind fun _ _ => ?_
  refine avoids_missing_ofGraph.bind fun _ _ => ?_
  refine (Avoids.missing_of_unchecked (avoids_ofShape? _)).bind fun _ _ => ?_
  split
  · exact (Avoids.missing_of_unchecked (Kernel.avoids_pad? _ _ _ _)).bind fun _ _ =>
      (Avoids.missing_of_unchecked (Kernel.avoids_maxPool? _ _ _ _ _)).bind fun _ _ =>
        Avoids.missing (avoids_intTensor _ _ _)
  · exact (Avoids.missing_of_unchecked (Kernel.avoids_pad? _ _ _ _)).bind fun _ _ =>
      (Avoids.missing_of_unchecked (Kernel.avoids_maxPool? _ _ _ _ _)).bind fun _ _ =>
        Avoids.missing (avoids_realTensor _ _)

theorem avoids_averagePoolNode (x : Tensor) : Avoids OfMissingValue (averagePoolNode x) := by
  unfold averagePoolNode
  refine (Avoids.missing_of_unchecked (avoids_ofShape? _)).bind fun _ _ => ?_
  split
  · exact Avoids.missing (avoids_intTensor _ _ _)
  · exact Avoids.missing (avoids_realTensor _ _)

namespace Interpreter

variable {I : Interpreter} {e : Environment} {graph : Graph} {config : Config} {input : Tensor}
  {declaration : Declaration} {done nodes : List Node} {name inputName : String}

theorem avoids_operand_of_isSome {index : ℕ} (h : (node.input? index).isSome) :
    Avoids OfMissingValue (operand node index) := by
  obtain ⟨name, hname⟩ := Option.isSome_iff_exists.mp h
  exact avoids_of_eq_ok (operand_eq_ok hname)

theorem avoids_params_of_isSome {scale zeroPoint : ℕ} (hscale : (node.input? scale).isSome)
    (hzeroPoint : (node.input? zeroPoint).isSome) :
    Avoids OfMissingValue (I.params node scale zeroPoint) :=
  avoids_params (fun _ => Error.OfMissingValue.ofValues) (avoids_operand_of_isSome hscale)
    (avoids_operand_of_isSome hzeroPoint)

theorem avoids_convolution (h : ∀ index < 8, (node.input? index).isSome) (x : Tensor) :
    Avoids OfMissingValue (I.convolution node x) :=
  (avoids_operands (fun _ => Error.OfMissingValue.ofValues)
    (fun index hindex => avoids_operand_of_isSome (h index hindex)) x).bind fun operands _ =>
      (Avoids.missing operands.avoids_result).bind fun _ _ => avoids_ok _ _

theorem avoids_quantize (h : ∀ index < 3, (node.input? index).isSome) (x : Tensor) :
    Avoids OfMissingValue (I.quantize node x) :=
  (avoids_params_of_isSome (h 1 (by decide)) (h 2 (by decide))).bind fun _ _ =>
    (avoids_quantizedType (fun _ => Error.OfMissingValue.ofValues)
      (avoids_operand_of_isSome (h 2 (by decide)))).bind fun _ _ =>
      Avoids.missing (avoids_quantizeTensor _ _ _ _)

theorem avoids_dequantize (h : ∀ index < 3, (node.input? index).isSome) (x : Tensor) :
    Avoids OfMissingValue (I.dequantize node x) :=
  (avoids_params_of_isSome (h 1 (by decide)) (h 2 (by decide))).bind fun _ _ =>
    Avoids.missing (avoids_dequantizeTensor _ _)

theorem avoids_padNode (x : Tensor) : Avoids OfMissingValue (I.padNode node x) := by
  unfold padNode
  rcases node.attributes.get? "mode" with _ | _ | _ | _ | _ | mode
  -- only a text can be a mode that is refused; in all other cases the rest is the same
  on_goal 6 => refine avoids_check ?_ ?_
  on_goal 6 => exact id
  all_goals
    refine (avoids_padding.mono fun _ => Error.OfMissingValue.ofValues).bind fun _ _ => ?_
    refine (Avoids.missing_of_unchecked (avoids_ofShape? _)).bind fun _ _ => ?_
    split
    · exact (Avoids.missing_of_unchecked (Kernel.avoids_pad? _ _ _ _)).bind fun _ _ =>
        Avoids.missing (avoids_intTensor _ _ _)
    · exact (Avoids.missing_of_unchecked (Kernel.avoids_pad? _ _ _ _)).bind fun _ _ =>
        Avoids.missing (avoids_realTensor _ _)

/-! ### Nodes -/

/-- An operand of this name is found. -/
def Available (interpreter : Interpreter) (environment : Environment) (name : String) : Prop :=
  name ∈ environment.values.map (·.1) ∨ name ∈ interpreter.graph.initializers.names

/-- An operand that is named, under a name that is there, has a value. -/
theorem avoids_value_of_available {index : ℕ} (h : (node.input? index).isSome)
    (havailable : ∀ name, node.input? index = some name → I.Available e name) :
    Avoids OfMissingValue (I.value e node index) := by
  obtain ⟨name, hname⟩ := Option.isSome_iff_exists.mp h
  have hfound : ((e.values.lookup name).or (I.graph.initializers.get? name)).isSome := by
    rw [Option.isSome_or, Bool.or_eq_true_iff]
    exact (havailable name hname).imp isSome_lookup_iff.mpr NameTable.isSome_get?_iff.mpr
  obtain ⟨tensor, htensor⟩ := Option.isSome_iff_exists.mp hfound
  exact avoids_of_eq_ok (value_eq_ok_iff.mpr ⟨name, hname, htensor⟩)

/-- **One node**: if it has the operands that it needs and the first of them is there, it does not
miss a value. -/
theorem avoids_evalNode (h : node.Equipped)
    (havailable : ∀ name, node.input? 0 = some name → I.Available e name) :
    Avoids OfMissingValue (I.evalNode e node) := by
  have hvalue : 0 < node.operator.needed → Avoids OfMissingValue (I.value e node 0) :=
    fun hneeded => avoids_value_of_available (h.inputs 0 hneeded) havailable
  have hinputs := h.inputs
  unfold evalNode
  cases hnode : node.operator with
  | conv => exact avoids_error id
  | other name => exact avoids_error id
  | qlinearConv =>
    rw [hnode] at hvalue hinputs
    refine (hvalue (by decide)).bind fun x _ => (avoids_convolution hinputs x).bind fun _ _ => ?_
    exact (Avoids.missing (avoids_activationFormat _)).bind fun _ _ => avoids_ok _ _
  | quantizeLinear =>
    rw [hnode] at hvalue hinputs
    exact (hvalue (by decide)).bind fun x _ => (avoids_quantize hinputs x).map _
  | dequantizeLinear =>
    rw [hnode] at hvalue hinputs
    exact (hvalue (by decide)).bind fun x _ => (avoids_dequantize hinputs x).map _
  | pad =>
    rw [hnode] at hvalue
    exact (hvalue (by decide)).bind fun x _ => (avoids_padNode x).map _
  | maxPool =>
    rw [hnode] at hvalue
    exact (hvalue (by decide)).bind fun x _ => (avoids_maxPoolNode x).map _
  | globalAveragePool =>
    rw [hnode] at hvalue
    exact (hvalue (by decide)).bind fun x _ => (avoids_averagePoolNode x).map _
  | relu =>
    rw [hnode] at hvalue
    exact (hvalue (by decide)).bind fun x _ => (avoids_elementwise _ _ x).map _
  | leakyRelu =>
    rw [hnode] at hvalue
    refine avoids_missing_ofGraph.bind fun _ _ => ?_
    exact (hvalue (by decide)).bind fun x _ => (avoids_elementwise _ _ x).map _

/-- So does the step that binds its value. -/
theorem avoids_advance (h : Avoids OfMissingValue (I.evalNode e node)) :
    Avoids OfMissingValue (I.advance e node) := by
  refine Avoids.map (h.bind fun value _ => ?_) _
  cases node.output? with
  | some name => exact avoids_ok _ _
  | none => exact avoids_error id

/-! ### Runs -/

/-- Where the input is all that a caller supplies, a declared name is that of the input or of a
constant. -/
theorem mem_externalNames_iff (hinputs : graph.dataInputs = [declaration]) :
    name ∈ graph.externalNames ↔ name = declaration.name ∨ name ∈ graph.initializers.names := by
  have hdata : ∀ other, other ∈ graph.inputs ∧ other.name ∉ graph.initializers.names ↔
      other = declaration := by
    intro other
    rw [← List.mem_singleton, ← hinputs, Graph.dataInputs, List.mem_filter]
    refine and_congr_right fun _ => ?_
    rw [Bool.not_eq_true', ← Bool.not_eq_true, NameTable.contains, NameTable.isSome_get?_iff]
  rw [Graph.externalNames, List.mem_append, List.mem_map]
  constructor
  · rintro (⟨other, hmem, rfl⟩ | hconstant)
    · by_cases hconstant : other.name ∈ graph.initializers.names
      · exact .inr hconstant
      · exact .inl (congrArg Declaration.name ((hdata other).mp ⟨hmem, hconstant⟩))
    · exact .inr hconstant
  · rintro (rfl | hconstant)
    · exact .inl ⟨declaration, ((hdata declaration).mpr rfl).1, rfl⟩
    · exact .inr hconstant

/-- **What the check has defined before a node is there when the node is evaluated.** -/
theorem available_of_checkNodes {defined : List String}
    (hinputs : I.graph.dataInputs = [declaration]) (hdone : ∀ node ∈ done, node.Equipped)
    (hchecked : done.foldlM Graph.checkNode I.graph.externalNames = .ok defined)
    (hrecorded : Recorded I input declaration.name done e) :
    name ∈ defined ↔ I.Available e name := by
  rw [Available, hrecorded.names_eq, List.mem_reverse, List.mem_cons,
    Graph.mem_of_checkNodes hchecked, mem_externalNames_iff hinputs, flatMap_outputs hdone]
  tauto

/-- **The nodes of a run** do not miss values. -/
theorem avoids_foldlM_advance (hgraph : I.graph.validate = .ok ())
    (hinputs : I.graph.dataInputs = [declaration])
    (hnodes : ∀ node ∈ I.graph.nodes, node.Equipped) (input : Tensor) :
    Avoids OfMissingValue
      (I.graph.nodes.foldlM I.advance ⟨[(declaration.name, input)], none⟩) := by
  have hinput : I.inputName? = .ok declaration.name :=
    inputName?_eq_ok_iff.mpr ⟨declaration, by rw [hinputs]; rfl, rfl⟩
  obtain ⟨final, hchecked, -⟩ := Graph.nodes_of_validate hgraph
  refine avoids_foldlM fun done node rest e hsplit hdone => ?_
  have hrecorded := recorded_of_reached hgraph hinput hsplit
    (reached_eq_ok_iff.mpr ⟨_, hinput, hdone⟩)
  rw [hsplit] at hchecked hnodes
  obtain ⟨defined, hdefined, hrest⟩ := Graph.checkNodes_append hchecked
  obtain ⟨_, hnode, -⟩ := Graph.checkNodes_cons hrest
  refine avoids_advance (avoids_evalNode (hnodes node (by simp)) fun name hname => ?_)
  exact (available_of_checkNodes hinputs (fun other hother => hnodes other (by simp [hother]))
    hdefined hrecorded).mp (hnode.read hname)

/-- At the end of a run the result is not there exactly if it is declared and a constant. -/
theorem lookup_resultName_eq_none_iff (hgraph : I.graph.validate = .ok ())
    (hinputs : I.graph.dataInputs = [declaration])
    (hnodes : ∀ node ∈ I.graph.nodes, node.Equipped)
    (hrun : I.reached input I.graph.nodes = .ok e) :
    e.values.lookup (I.resultName declaration.name) = none ↔
      ∃ result, I.graph.outputs.head? = some result ∧
        result.name = I.resultName declaration.name ∧
        I.resultName declaration.name ∈ I.graph.initializers.names := by
  have hinput : I.inputName? = .ok declaration.name :=
    inputName?_eq_ok_iff.mpr ⟨declaration, by rw [hinputs]; rfl, rfl⟩
  have hrecorded := recorded_of_reached hgraph hinput (List.append_nil _).symm hrun
  obtain ⟨_, -, hfold⟩ := reached_eq_ok_iff.mp hrun
  obtain ⟨final, hchecked, houtputs⟩ := Graph.nodes_of_validate hgraph
  have havailable {name : String} : name ∈ final ↔ I.Available e name :=
    available_of_checkNodes hinputs hnodes hchecked hrecorded
  -- a constant is neither the input nor written by a node
  have hconstant : ∀ name ∈ I.graph.initializers.names, name ∉ e.values.map (·.1) := by
    intro name hmem
    rw [hrecorded.names_eq, List.mem_reverse, List.mem_cons, not_or]
    refine ⟨?_, fun hbound => ?_⟩
    · rintro rfl
      have hdata : declaration ∈ I.graph.dataInputs := by rw [hinputs]; exact List.mem_cons_self
      have hcontains := (List.mem_filter.mp hdata).2
      rw [NameTable.contains, NameTable.isSome_get?_iff.mpr hmem] at hcontains
      cases hcontains
    · exact Graph.not_mem_of_checkNodes hchecked (boundNames_sub hbound)
        (List.mem_append_right _ hmem)
  have hname : ResultName I.graph declaration.name (I.resultName declaration.name) :=
    resultName_of_foldlM hfold
  rw [lookup_eq_none_iff]
  generalize I.resultName declaration.name = name at hname ⊢
  constructor
  · intro hmissing
    cases hname with
    | declared houtput =>
      rename_i result others
      have hdefined := houtputs result (by rw [houtput]; exact List.mem_cons_self)
      exact ⟨result, by rw [houtput]; rfl, rfl, (havailable.mp hdefined).resolve_left hmissing⟩
    | last houtput hsplit hresult =>
      refine absurd ?_ hmissing
      rw [hrecorded.names_eq, List.mem_reverse, hsplit]
      exact List.mem_cons_of_mem _ (List.mem_filterMap.mpr ⟨_, by simp, hresult⟩)
    | input houtput hsplit =>
      refine absurd ?_ hmissing
      rw [hrecorded.names_eq, List.mem_reverse]
      exact List.mem_cons_self
  · rintro ⟨result, -, -, hmem⟩
    exact hconstant name hmem

/-- **A run misses a value exactly if its result is a constant.**  The input is the only name that a
caller supplies, and every node has one result and the operands that its operator cannot do
without. -/
theorem run?_missingValue_iff (h : make? graph config = .ok I)
    (hinputs : graph.dataInputs = [declaration]) (hnodes : ∀ node ∈ graph.nodes, node.Equipped)
    (input : Tensor) (label name : String) :
    I.run? input = .error (.missingValue label name) ↔
      (∃ e, I.reached input graph.nodes = .ok e) ∧ label = graph.name ∧
        ∃ result, graph.outputs.head? = some result ∧ result.name = name ∧
          name ∈ graph.initializers.names := by
  obtain ⟨-, hgraph, rfl⟩ := make?_eq_ok_iff.mp h
  have hinput : inputName? ⟨graph, config⟩ = .ok declaration.name :=
    inputName?_eq_ok_iff.mpr ⟨declaration, by rw [hinputs]; rfl, rfl⟩
  have hreached : reached ⟨graph, config⟩ input graph.nodes
      = graph.nodes.foldlM (advance ⟨graph, config⟩) ⟨[(declaration.name, input)], none⟩ := by
    rw [reached, hinput, ok_bind]
  have havoids := avoids_foldlM_advance (I := ⟨graph, config⟩) hgraph hinputs hnodes input
  rw [run?_eq, hinput, ok_bind]
  dsimp only at havoids ⊢
  rw [← hreached] at havoids ⊢
  cases hrun : reached ⟨graph, config⟩ input graph.nodes with
  | error fault =>
    constructor
    · intro hfault
      cases hfault
      exact absurd trivial (havoids _ hrun)
    · rintro ⟨⟨e, he⟩, -⟩
      cases he
  | ok e =>
    have hlookup := lookup_resultName_eq_none_iff hgraph hinputs hnodes hrun
    rw [ok_bind]
    cases hresult : e.values.lookup (resultName ⟨graph, config⟩ declaration.name) with
    | some tensor =>
      rw [hresult] at hlookup
      constructor
      · intro hfault
        cases hfault
      · rintro ⟨-, -, result, hhead, rfl, hmem⟩
        refine absurd (hlookup.mpr ⟨result, hhead, ?_⟩) (by simp)
        have hname : resultName ⟨graph, config⟩ declaration.name = result.name := by
          unfold resultName
          dsimp only
          rw [hhead]
        rw [hname]
        exact ⟨rfl, hmem⟩
    | none =>
      obtain ⟨result, hhead, hname, hmem⟩ := hlookup.mp hresult
      rw [← hname] at hmem ⊢
      constructor
      · intro hfault
        cases hfault
        exact ⟨⟨e, rfl⟩, rfl, result, hhead, rfl, hmem⟩
      · rintro ⟨-, rfl, other, hother, rfl, -⟩
        rw [Option.some_inj.mp (hhead.symm.trans hother)]

/-- The branching graph declares the result of a node, so its runs do not miss values. -/
theorem run?_ne_missingValue_branching :
    ∃ I, make? (branching convolutionFirst) {} = .ok I ∧
      (branching convolutionFirst).dataInputs = [.ofName "x"] ∧
      (∀ node ∈ (branching convolutionFirst).nodes, node.Equipped) ∧
      ∀ label name, I.run? (.oneReal 4 (.ofInt (-1))) ≠ .error (.missingValue label name) := by
  have hmake : make? (branching convolutionFirst) {} = .ok ⟨branching convolutionFirst, {}⟩ :=
    make?_eq_ok_iff.mpr ⟨by decide +kernel, by decide +kernel, rfl⟩
  have hinputs : (branching convolutionFirst).dataInputs = [.ofName "x"] := by decide +kernel
  have hnodes : ∀ node ∈ (branching convolutionFirst).nodes, node.Equipped := by decide +kernel
  refine ⟨_, hmake, hinputs, hnodes, fun label name hfault => ?_⟩
  obtain ⟨-, -, result, hhead, rfl, hmem⟩ :=
    (run?_missingValue_iff hmake hinputs hnodes _ label name).mp hfault
  cases hhead
  exact absurd hmem (by decide +kernel)

/-- A rectifier of the input, next to a constant that is declared as the result. -/
def constantResult : Graph :=
  { name := "constant"
    opset := 11
    inputs := [.ofName "x"]
    outputs := [.ofName "w"]
    nodes := [.make .relu "r" ["x"] ["y"]]
    initializers := .ofList [("w", .oneReal 1 (.ofRat (1 / 2)))] }

/-- The check accepts a constant as the result, and the run does not find it. -/
theorem run?_missingValue_constantResult :
    ∃ I, make? constantResult {} = .ok I ∧ constantResult.dataInputs = [.ofName "x"] ∧
      (∀ node ∈ constantResult.nodes, node.Equipped) ∧
      I.run? (.oneReal 1 (.ofInt 1)) = .error (.missingValue "constant" "w") :=
  ⟨_, make?_eq_ok_iff.mpr ⟨by decide +kernel, by decide +kernel, rfl⟩, by decide +kernel,
    by decide +kernel, by decide +kernel⟩

end Interpreter

end Eval

end DyadicNet
