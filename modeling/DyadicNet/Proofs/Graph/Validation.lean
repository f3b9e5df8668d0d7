import Mathlib
import DyadicNet.Graph.Validation
import DyadicNet.Proofs.Except
import DyadicNet.Proofs.NameTable

/-!
# What a well-formed graph is

The check of a graph walks over the nodes with the names that are defined so far.  Taken apart, one
step says three things: **what a node reads is defined, what it writes is not, and afterwards it
is**.  Everything that is known about the names of a graph follows from these three by induction over
the nodes.

## Main Definitions

* `CheckedNode` — what the check of a node makes sure of.

## Main Statements

* `checkedNode_of_checkNode` — one step;
* `checkNodes_cons`, `checkNodes_append` — a walk in parts;
* `mem_of_checkNodes`, `nodes_of_validate` — what is defined at the end;
* `not_mem_outputs_of_read`, `eq_of_mem_outputs` — a name is written once, and before it is read.
-/

namespace DyadicNet.Graph

variable {defined defined' : List String} {node : Node}

/-- What the check of a node makes sure of, and the names that are defined after it. -/
structure CheckedNode (defined defined' : List String) (node : Node) : Prop where
  reads : ∀ name ∈ node.inputs, name ≠ "" → name ∈ defined
  writes : ∀ name ∈ node.outputs, name ∉ defined
  mem_iff : ∀ name, name ∈ defined' ↔ name ∈ defined ∨ name ∈ node.outputs

theorem reads_of_checkInputs {label : String} {names : List String} {u : Unit}
    (h : checkInputs defined label names = .ok u) :
    ∀ name ∈ names, name ≠ "" → name ∈ defined := by
  induction names with
  | nil => simp
  | cons first rest ih =>
    rw [checkInputs] at h
    split_ifs at h with hfirst
    intro name hname hne
    rcases List.mem_cons.mp hname with rfl | hrest
    · rcases Bool.or_eq_true_iff.mp hfirst with hempty | hdefined
      · exact absurd (String.isEmpty_iff.mp hempty) hne
      · exact List.contains_iff_mem.mp hdefined
    · exact ih h name hrest hne

theorem writes_of_defineOutputs {label : String} {names : List String}
    (h : defineOutputs label defined names = .ok defined') :
    (∀ name ∈ names, name ∉ defined) ∧
      ∀ name, name ∈ defined' ↔ name ∈ defined ∨ name ∈ names := by
  induction names generalizing defined with
  | nil =>
    cases h
    simp
  | cons first rest ih =>
    rw [defineOutputs] at h
    split_ifs at h with hfirst
    have hnew : first ∉ defined := by simpa using hfirst
    obtain ⟨hwrites, hmem⟩ := ih h
    constructor
    · intro name hname
      rcases List.mem_cons.mp hname with rfl | hrest
      · exact hnew
      · exact fun hdefined => hwrites name hrest (List.mem_cons_of_mem _ hdefined)
    · intro name
      rw [hmem, List.mem_cons, List.mem_cons]
      tauto

/-- One step of the check. -/
theorem checkedNode_of_checkNode (h : checkNode defined node = .ok defined') :
    CheckedNode defined defined' node := by
  unfold checkNode at h
  obtain ⟨⟨⟩, hreads, hwrites⟩ := bind_eq_ok_iff.mp h
  obtain ⟨hnew, hmem⟩ := writes_of_defineOutputs hwrites
  exact ⟨reads_of_checkInputs hreads, hnew, hmem⟩

theorem CheckedNode.mono (h : CheckedNode defined defined' node) {name : String}
    (hname : name ∈ defined) : name ∈ defined' :=
  (h.mem_iff name).mpr (.inl hname)

/-- An operand that is not left out has a name. -/
theorem mem_inputs_of_input? {index : ℕ} {name : String} (hname : node.input? index = some name) :
    name ∈ node.inputs ∧ name ≠ "" := by
  obtain ⟨hget, hne⟩ := Option.filter_eq_some_iff.mp hname
  refine ⟨List.mem_of_getElem? hget, ?_⟩
  rintro rfl
  simp at hne

/-- The first operand comes first. -/
theorem head?_of_input? {name : String} (hname : node.input? 0 = some name) :
    node.inputs.head? = some name := by
  rw [List.head?_eq_getElem?]
  exact (Option.filter_eq_some_iff.mp hname).1

theorem CheckedNode.read (h : CheckedNode defined defined' node) {index : ℕ} {name : String}
    (hname : node.input? index = some name) : name ∈ defined := by
  obtain ⟨hmem, hne⟩ := mem_inputs_of_input? hname
  exact h.reads name hmem hne

/-! ### Walks -/

/-- The check of a node and then of those after it. -/
theorem checkNodes_cons {rest : List Node} {final : List String}
    (h : (node :: rest).foldlM checkNode defined = .ok final) :
    ∃ next, CheckedNode defined next node ∧ rest.foldlM checkNode next = .ok final := by
  rw [List.foldlM_cons] at h
  obtain ⟨next, hnode, hrest⟩ := bind_eq_ok_iff.mp h
  exact ⟨next, checkedNode_of_checkNode hnode, hrest⟩

theorem checkNodes_append {front rest : List Node} {final : List String}
    (h : (front ++ rest).foldlM checkNode defined = .ok final) :
    ∃ next, front.foldlM checkNode defined = .ok next ∧ rest.foldlM checkNode next = .ok final := by
  rw [List.foldlM_append] at h
  exact bind_eq_ok_iff.mp h

/-- What a walk defines is what was defined and what the nodes write. -/
theorem mem_of_checkNodes {nodes : List Node} {final : List String}
    (h : nodes.foldlM checkNode defined = .ok final) (name : String) :
    name ∈ final ↔ name ∈ defined ∨ name ∈ nodes.flatMap Node.outputs := by
  induction nodes generalizing defined with
  | nil =>
    cases h
    simp
  | cons node rest ih =>
    obtain ⟨next, hnode, hrest⟩ := checkNodes_cons h
    rw [ih hrest, hnode.mem_iff, List.flatMap_cons, List.mem_append, or_assoc]

/-! ### Names are written once -/

/-- What a list of nodes writes is new. -/
theorem not_mem_of_checkNodes {nodes : List Node} {final : List String} {name : String}
    (h : nodes.foldlM checkNode defined = .ok final)
    (hname : name ∈ nodes.flatMap Node.outputs) : name ∉ defined := by
  induction nodes generalizing defined with
  | nil => cases hname
  | cons node rest ih =>
    obtain ⟨next, hnode, hrest⟩ := checkNodes_cons h
    rw [List.flatMap_cons, List.mem_append] at hname
    rcases hname with hhere | hlater
    · exact hnode.writes name hhere
    · exact fun hdefined => ih hrest hlater (hnode.mono hdefined)

/-- A node reads nothing that it writes itself or that is written after it. -/
theorem not_mem_outputs_of_read {after : List Node} {final : List String} {name : String}
    (h : (node :: after).foldlM checkNode defined = .ok final) {index : ℕ}
    (hname : node.input? index = some name) : name ∉ (node :: after).flatMap Node.outputs := by
  obtain ⟨next, hnode, -⟩ := checkNodes_cons h
  exact fun hmem => not_mem_of_checkNodes h hmem (hnode.read hname)

/-- What a node writes is not written again. -/
theorem not_mem_outputs_of_written {after : List Node} {final : List String} {name : String}
    (h : (node :: after).foldlM checkNode defined = .ok final)
    (hname : name ∈ node.outputs) : name ∉ after.flatMap Node.outputs := by
  obtain ⟨next, hnode, hrest⟩ := checkNodes_cons h
  exact fun hmem => not_mem_of_checkNodes hrest hmem ((hnode.mem_iff name).mpr (.inr hname))

/-- A name is written by one node only. -/
theorem eq_of_mem_outputs {nodes : List Node} {final : List String}
    (h : nodes.foldlM checkNode defined = .ok final) {m n : Node} (hm : m ∈ nodes) (hn : n ∈ nodes)
    {name : String} (hname : name ∈ m.outputs) (hname' : name ∈ n.outputs) : m = n := by
  induction nodes generalizing defined with
  | nil => cases hm
  | cons node rest ih =>
    have hlater : ∀ other ∈ rest, name ∈ other.outputs → name ∉ node.outputs := by
      intro other hother hwritten hhere
      exact not_mem_outputs_of_written h hhere (List.mem_flatMap.mpr ⟨other, hother, hwritten⟩)
    rcases List.mem_cons.mp hm with rfl | hmrest
    · rcases List.mem_cons.mp hn with rfl | hnrest
      · rfl
      · exact absurd hname (hlater n hnrest hname')
    · rcases List.mem_cons.mp hn with rfl | hnrest
      · exact absurd hname' (hlater m hmrest hname)
      · obtain ⟨next, -, hrest⟩ := checkNodes_cons h
        exact ih hrest hmrest hnrest

/-- The first results of the nodes have distinct names. -/
theorem nodup_output?_of_checkNodes {nodes : List Node} {final : List String}
    (h : nodes.foldlM checkNode defined = .ok final) : (nodes.filterMap Node.output?).Nodup := by
  induction nodes generalizing defined with
  | nil => exact List.nodup_nil
  | cons node rest ih =>
    obtain ⟨next, -, hrest⟩ := checkNodes_cons h
    cases houtput : node.output? with
    | none =>
      rw [List.filterMap_cons_none houtput]
      exact ih hrest
    | some name =>
      rw [List.filterMap_cons_some houtput, List.nodup_cons]
      refine ⟨?_, ih hrest⟩
      intro hmem
      obtain ⟨other, hother, hname⟩ := List.mem_filterMap.mp hmem
      exact not_mem_outputs_of_written h (List.mem_of_mem_head? houtput)
        (List.mem_flatMap.mpr ⟨other, hother, List.mem_of_mem_head? hname⟩)

/-- The outputs of a checked graph are defined. -/
theorem outputs_of_checkOutputs {declarations : List Declaration} {u : Unit}
    (h : checkOutputs defined declarations = .ok u) :
    ∀ declaration ∈ declarations, declaration.name ∈ defined := by
  induction declarations with
  | nil => simp
  | cons first rest ih =>
    rw [checkOutputs] at h
    split_ifs at h with hfirst
    intro declaration hmem
    rcases List.mem_cons.mp hmem with rfl | hrest
    · exact List.contains_iff_mem.mp hfirst
    · exact ih h declaration hrest

/-- The check of a graph: the walk over its nodes, and its outputs. -/
theorem nodes_of_validate {graph : Graph} (h : graph.validate = .ok ()) :
    ∃ final, graph.nodes.foldlM checkNode graph.externalNames = .ok final ∧
      ∀ declaration ∈ graph.outputs, declaration.name ∈ final := by
  unfold validate at h
  obtain ⟨final, hnodes, houtputs⟩ := bind_eq_ok_iff.mp h
  exact ⟨final, hnodes, outputs_of_checkOutputs houtputs⟩

end DyadicNet.Graph
