import Mathlib
import DyadicNet.Proofs.Graph.WellFormed

/-!
# The first fault of a graph

All faults of a graph can be listed without a walk: whether a name is a fault depends on its place
and on the names **before this place**, not on whether there was a fault earlier.  An operand is
looked up among the results of the nodes before its own, a result also among those before it in its
own node, and a declared output among all of them.

The check stops at a fault, and keeps a list of names that grows as it goes.  Up to the first fault
these are the names before the place it has come to, and after it nothing matters any more.

## Main Definitions

* `firstFault` — a computation behind a list of errors of which the first counts;
* `DefinedBefore` — the names before a node;
* `faults` — the faults of a graph in their order.

## Main Statements

* `checkNode_eq_firstFault`, `checkNodes_eq_firstFault` — one step, and the walk;
* `validate_eq_firstFault` — the check and the list;
* `validate_decides` — which graphs pass, and the error of those that do not.
-/

namespace DyadicNet

/-! ### Lists of errors -/

variable {ε α β : Type}

/-- The first of the errors, or the computation if there is none. -/
def firstFault (faults : List ε) (x : Except ε α) : Except ε α :=
  match faults with
  | [] => x
  | e :: _ => .error e

/-- Two lists one after the other. -/
theorem firstFault_append (front back : List ε) (x : Except ε α) :
    firstFault (front ++ back) x = firstFault front (firstFault back x) := by
  cases front <;> rfl

theorem firstFault_bind (faults : List ε) (x : Except ε α) (f : α → Except ε β) :
    (firstFault faults x >>= f) = firstFault faults (x >>= f) := by
  cases faults <;> rfl

theorem firstFault_eq_error_iff {faults : List ε} {a : α} {e : ε} :
    firstFault faults (.ok a) = .error e ↔ faults.head? = some e := by
  cases faults <;> simp [firstFault]

namespace Graph

variable {graph : Graph} {node : Node} {i : ℕ} {name : String}

/-! ### The faults -/

/-- A name is a declared input, a constant, or a result of a node before this one. -/
def DefinedBefore (graph : Graph) (i : ℕ) (name : String) : Prop :=
  name ∈ graph.externalNames ∨ ∃ node ∈ graph.nodes.take i, name ∈ node.outputs

instance (graph : Graph) (i : ℕ) (name : String) : Decidable (graph.DefinedBefore i name) :=
  inferInstanceAs (Decidable (_ ∨ _))

/-- The operands of a node that are not left out, and that nothing before it defines. -/
def operandFaults (graph : Graph) (i : ℕ) (node : Node) : List Error :=
  (node.inputs.filter fun name => name ≠ "" ∧ ¬graph.DefinedBefore i name).map
    (.unresolvedInput node.label)

/-- The results of a node that are defined before it, or earlier among its own results. -/
def resultFaults (graph : Graph) (i : ℕ) (node : Node) : List Error :=
  (node.outputs.zipIdx.filter fun (name, k) =>
    graph.DefinedBefore i name ∨ name ∈ node.outputs.take k).map
      fun (name, _) => .duplicateOutput node.label name

/-- The faults of a node: its operands come before its results. -/
def nodeFaults (graph : Graph) (i : ℕ) (node : Node) : List Error :=
  graph.operandFaults i node ++ graph.resultFaults i node

/-- The declared outputs that neither a declaration nor a constant nor a node defines. -/
def outputFaults (graph : Graph) : List Error :=
  (graph.outputs.filter fun declaration =>
    ¬graph.DefinedBefore graph.nodes.length declaration.name).map (.unresolvedOutput ·.name)

/-- All faults of a graph: those of the nodes one after the other, and those of the declared outputs
last. -/
def faults (graph : Graph) : List Error :=
  graph.nodes.zipIdx.flatMap (fun (node, i) => graph.nodeFaults i node) ++ graph.outputFaults

/-! ### The names before a place -/

/-- The names that the check keeps when it comes to a node. -/
def namesBefore (graph : Graph) (i : ℕ) : List String :=
  ((graph.nodes.take i).flatMap Node.outputs).reverse ++ graph.externalNames

theorem mem_namesBefore : name ∈ graph.namesBefore i ↔ graph.DefinedBefore i name := by
  unfold namesBefore DefinedBefore
  rw [List.mem_append, List.mem_reverse, List.mem_flatMap, or_comm]

/-- A node adds its results. -/
theorem namesBefore_succ (hnode : graph.nodes[i]? = some node) :
    graph.namesBefore (i + 1) = node.outputs.reverse ++ graph.namesBefore i := by
  unfold namesBefore
  rw [List.take_add_one, hnode, List.flatMap_append, List.reverse_append, List.append_assoc]
  simp

/-! ### One node -/

theorem checkInputs_eq_firstFault (label : String) (defined names : List String) :
    checkInputs defined label names = firstFault
      ((names.filter fun name => name ≠ "" ∧ name ∉ defined).map (Error.unresolvedInput label))
      (.ok ()) := by
  induction names with
  | nil => rfl
  | cons first rest ih =>
    have hcond : (first.isEmpty || defined.contains first) = true ↔
        ¬(first ≠ "" ∧ first ∉ defined) := by
      rw [Bool.or_eq_true, String.isEmpty_iff, List.contains_iff_mem]
      tauto
    rw [checkInputs]
    by_cases hfault : first ≠ "" ∧ first ∉ defined
    · rw [if_neg fun h => hcond.mp h hfault, List.filter_cons_of_pos (by simpa using hfault)]
      rfl
    · rw [if_pos (hcond.mpr hfault), List.filter_cons_of_neg (by simpa using hfault), ih]

/-- The results after some that have been seen already.  The places go on from those. -/
theorem defineOutputs_eq_firstFault (label : String) (defined seen names : List String) :
    defineOutputs label (seen.reverse ++ defined) names = firstFault
      (((names.zipIdx seen.length).filter fun (name, k) =>
        name ∈ defined ∨ name ∈ (seen ++ names).take k).map
          fun (name, _) => Error.duplicateOutput label name)
      (.ok ((seen ++ names).reverse ++ defined)) := by
  induction names generalizing seen with
  | nil =>
    rw [List.append_nil]
    rfl
  | cons first rest ih =>
    have htake : (seen ++ first :: rest).take seen.length = seen := List.take_left
    have hcond : (seen.reverse ++ defined).contains first = true ↔
        first ∈ defined ∨ first ∈ seen := by
      rw [List.contains_iff_mem, List.mem_append, List.mem_reverse, or_comm]
    rw [defineOutputs, List.zipIdx_cons]
    by_cases hfault : first ∈ defined ∨ first ∈ seen
    · rw [if_pos (hcond.mpr hfault),
        List.filter_cons_of_pos (by simpa only [htake, decide_eq_true_eq] using hfault)]
      rfl
    · rw [if_neg fun h => hfault (hcond.mp h),
        List.filter_cons_of_neg (by simpa only [htake, decide_eq_true_eq] using hfault)]
      have hrest := ih (seen ++ [first])
      rw [List.append_assoc, List.singleton_append, List.reverse_append,
        List.length_append] at hrest
      exact hrest

/-- **One step of the check**: its faults are those of the node, and without one the names go on to
the next node. -/
theorem checkNode_eq_firstFault (hnode : graph.nodes[i]? = some node) :
    checkNode (graph.namesBefore i) node
      = firstFault (graph.nodeFaults i node) (.ok (graph.namesBefore (i + 1))) := by
  have hresults := defineOutputs_eq_firstFault node.label (graph.namesBefore i) [] node.outputs
  rw [List.reverse_nil, List.nil_append, List.nil_append, List.length_nil,
    ← namesBefore_succ hnode] at hresults
  unfold checkNode nodeFaults operandFaults resultFaults
  rw [checkInputs_eq_firstFault, firstFault_bind, firstFault_append, ok_bind, hresults]
  simp only [mem_namesBefore]

/-! ### The graph -/

/-- **The walk over the nodes** from one of them on. -/
theorem checkNodes_eq_firstFault (rest : List Node) (hrest : graph.nodes.drop i = rest) :
    rest.foldlM checkNode (graph.namesBefore i) = firstFault
      ((rest.zipIdx i).flatMap fun (node, i) => graph.nodeFaults i node)
      (.ok (graph.namesBefore graph.nodes.length)) := by
  induction rest generalizing i with
  | nil =>
    have hall : graph.namesBefore i = graph.namesBefore graph.nodes.length := by
      unfold namesBefore
      rw [List.take_of_length_le (List.drop_eq_nil_iff.mp hrest), List.take_length]
    rw [hall]
    rfl
  | cons node rest ih =>
    have hnode : graph.nodes[i]? = some node := by
      rw [← List.head?_drop, hrest]
      rfl
    have hdrop : graph.nodes.drop (i + 1) = rest := by
      rw [← List.tail_drop, hrest]
      rfl
    rw [List.foldlM_cons, checkNode_eq_firstFault hnode, firstFault_bind, ok_bind, ih hdrop,
      List.zipIdx_cons, List.flatMap_cons, firstFault_append]

theorem checkOutputs_eq_firstFault (defined : List String) (declarations : List Declaration) :
    checkOutputs defined declarations = firstFault
      ((declarations.filter fun declaration => declaration.name ∉ defined).map
        (Error.unresolvedOutput ·.name))
      (.ok ()) := by
  induction declarations with
  | nil => rfl
  | cons first rest ih =>
    rw [checkOutputs]
    by_cases hdefined : first.name ∈ defined
    · rw [if_pos (List.contains_iff_mem.mpr hdefined),
        List.filter_cons_of_neg (by simpa using hdefined), ih]
    · rw [if_neg (by simpa using hdefined), List.filter_cons_of_pos (by simpa using hdefined)]
      rfl

/-- **The check finds the first fault of the list**, and passes a graph without any. -/
theorem validate_eq_firstFault (graph : Graph) :
    graph.validate = firstFault graph.faults (.ok ()) := by
  have hnodes := checkNodes_eq_firstFault (i := 0) graph.nodes List.drop_zero
  have hstart : graph.namesBefore 0 = graph.externalNames := by
    unfold namesBefore
    rw [List.take_zero, List.flatMap_nil, List.reverse_nil, List.nil_append]
  rw [hstart] at hnodes
  unfold validate faults outputFaults
  rw [hnodes, firstFault_bind, ok_bind, firstFault_append, checkOutputs_eq_firstFault]
  simp only [mem_namesBefore]

/-- A node that reads what it writes, and writes it twice, has two faults, the operand first. -/
example :
    let node : Node := ⟨.relu, "act", ["x"], ["x", "x"], .empty⟩
    ({ Graph.empty "" with nodes := [node] } : Graph).faults
      = [.unresolvedInput "act" "x", .duplicateOutput "act" "x"] := by decide +kernel

/-! ### What passes -/

/-- The references of a graph, each by its place. -/
theorem resolved_iff_definedBefore : graph.Resolved ↔
    (∀ (i : ℕ) node, graph.nodes[i]? = some node →
      ∀ name ∈ node.inputs, name ≠ "" → graph.DefinedBefore i name) ∧
    ∀ declaration ∈ graph.outputs, graph.DefinedBefore graph.nodes.length declaration.name := by
  have hmem : ∀ (i : ℕ) (name : String),
      name ∈ graph.externalNames ++ (graph.nodes.take i).flatMap Node.outputs ↔
        graph.DefinedBefore i name := by
    intro i name
    rw [List.mem_append, List.mem_flatMap, DefinedBefore]
  have hall := hmem graph.nodes.length
  rw [List.take_length] at hall
  constructor
  · rintro ⟨hreads, houtputs⟩
    rw [readsDefined_iff_getElem?] at hreads
    simp only [hmem] at hreads
    exact ⟨hreads, fun declaration hdeclaration => (hall _).mp (houtputs declaration hdeclaration)⟩
  · rintro ⟨hreads, houtputs⟩
    refine ⟨readsDefined_iff_getElem?.mpr ?_,
      fun declaration hdeclaration => (hall _).mpr (houtputs declaration hdeclaration)⟩
    simpa only [hmem] using hreads

/-- **The check decides whether a graph is well formed, and names its first fault.**  The graphs
that pass are those in which every operand that is not left out is a declared input, a constant or a
result of an earlier node; the results of all nodes are distinct names, and neither declared inputs
nor constants; and every declared output is one of these names.  A graph that does not pass fails
with the first of its faults: by nodes, in each node the operands before the results, and the
declared outputs last. -/
theorem validate_decides (graph : Graph) :
    (graph.validate = .ok () ↔
      (∀ (i : ℕ) node, graph.nodes[i]? = some node →
        ∀ name ∈ node.inputs, name ≠ "" → graph.DefinedBefore i name) ∧
      ((graph.nodes.flatMap Node.outputs).Nodup ∧
        ∀ name ∈ graph.nodes.flatMap Node.outputs, name ∉ graph.externalNames) ∧
      ∀ declaration ∈ graph.outputs, graph.DefinedBefore graph.nodes.length declaration.name) ∧
    ∀ error, graph.validate = .error error ↔ graph.faults.head? = some error := by
  constructor
  · rw [validate_eq_ok_iff, resolved_iff_definedBefore]
    constructor
    · rintro ⟨⟨hreads, houtputs⟩, hnew, hnodup⟩
      exact ⟨hreads, ⟨hnodup, hnew⟩, houtputs⟩
    · rintro ⟨hreads, ⟨hnodup, hnew⟩, houtputs⟩
      exact ⟨⟨hreads, houtputs⟩, hnew, hnodup⟩
  · intro error
    rw [validate_eq_firstFault, firstFault_eq_error_iff]

end Graph

end DyadicNet
