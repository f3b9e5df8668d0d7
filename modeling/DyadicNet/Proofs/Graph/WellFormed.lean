import Mathlib
import DyadicNet.Proofs.Graph.Validation

/-!
# Well-formedness in words

The check of a graph goes over the nodes once and stops at the first fault.  What it looks for can be
said without the walk, in two conditions that have nothing to do with each other: **every name that
is read or declared as an output is defined**, and **no name is written twice**.  A graph passes its
check exactly if both hold, and a graph with the first condition can fail for the second one only.

## Main Definitions

* `ReadsDefined` — that nodes read what is defined before them;
* `Resolved` — that every reference of a graph is to a defined name;
* `WritesOnce` — that no node writes a name that is there already;
* `Error.OfReference` — the errors about references.

## Main Statements

* `readsDefined_append`, `readsDefined_iff_getElem?` — lists of nodes in parts and by places;
* `validate_eq_ok_iff` — the graphs that pass their check;
* `avoids_validate` — the faults of a graph whose references are to defined names.
-/

namespace DyadicNet.Graph

variable {graph : Graph} {defined defined' : List String} {node : Node} {nodes rest : List Node}
  {name : String}

/-! ### References -/

/-- Each node reads names that are defined: given ones, and results of the nodes before it. -/
def ReadsDefined : List String → List Node → Prop
  | _, [] => True
  | defined, node :: rest =>
    (∀ name ∈ node.inputs, name ≠ "" → name ∈ defined) ∧ ReadsDefined (defined ++ node.outputs) rest

/-- What is read stays defined when more is. -/
theorem ReadsDefined.mono (h : ReadsDefined defined nodes) (hsub : defined ⊆ defined') :
    ReadsDefined defined' nodes := by
  induction nodes generalizing defined defined' with
  | nil => trivial
  | cons node rest ih =>
    refine ⟨fun name hname hne => hsub (h.1 name hname hne), ih h.2 ?_⟩
    exact List.append_subset.mpr ⟨List.Subset.trans hsub (List.subset_append_left _ _),
      List.subset_append_right _ _⟩

theorem readsDefined_append :
    ReadsDefined defined (nodes ++ rest) ↔
      ReadsDefined defined nodes ∧ ReadsDefined (defined ++ nodes.flatMap Node.outputs) rest := by
  induction nodes generalizing defined with
  | nil => simp [ReadsDefined]
  | cons node nodes ih =>
    rw [List.cons_append, ReadsDefined, ReadsDefined, ih, List.flatMap_cons, List.append_assoc,
      and_assoc]

/-- Each node reads what is defined before its place. -/
theorem readsDefined_iff_getElem? :
    ReadsDefined defined nodes ↔ ∀ (i : ℕ) node, nodes[i]? = some node →
      ∀ name ∈ node.inputs, name ≠ "" →
        name ∈ defined ++ (nodes.take i).flatMap Node.outputs := by
  constructor
  · intro h i node hnode
    have hsplit : nodes = nodes.take i ++ node :: nodes.drop (i + 1) := by
      obtain ⟨hi, rfl⟩ := List.getElem?_eq_some_iff.mp hnode
      rw [List.cons_getElem_drop_succ, List.take_append_drop]
    rw [hsplit, readsDefined_append] at h
    exact h.2.1
  · intro h
    induction nodes generalizing defined with
    | nil => trivial
    | cons node rest ih =>
      refine ⟨fun name hname hne => by simpa using h 0 node rfl name hname hne, ih ?_⟩
      intro i later hlater name hname hne
      have hmem := h (i + 1) later hlater name hname hne
      rwa [List.take_succ_cons, List.flatMap_cons, ← List.append_assoc] at hmem

/-- Whatever a node of the list reads is defined in the end. -/
theorem ReadsDefined.mem (h : ReadsDefined defined nodes) (hnode : node ∈ nodes)
    (hname : name ∈ node.inputs) (hne : name ≠ "") :
    name ∈ defined ++ nodes.flatMap Node.outputs := by
  obtain ⟨front, back, rfl⟩ := List.append_of_mem hnode
  have hread := (readsDefined_append.mp h).2.1 name hname hne
  rw [List.flatMap_append, ← List.append_assoc]
  exact List.mem_append_left _ hread

/-- Every name that a node reads, and every output of the graph, is defined. -/
structure Resolved (graph : Graph) : Prop where
  reads : ReadsDefined graph.externalNames graph.nodes
  outputs : ∀ declaration ∈ graph.outputs,
    declaration.name ∈ graph.externalNames ++ graph.nodes.flatMap Node.outputs

/-! ### Results -/

/-- No node writes a name that is declared or a constant, or that was written before. -/
structure WritesOnce (graph : Graph) : Prop where
  new : ∀ name ∈ graph.nodes.flatMap Node.outputs, name ∉ graph.externalNames
  nodup : (graph.nodes.flatMap Node.outputs).Nodup

theorem WritesOnce.nodup_outputs (h : graph.WritesOnce) (hnode : node ∈ graph.nodes) :
    node.outputs.Nodup :=
  (List.nodup_flatMap.mp h.nodup).1 node hnode

/-- What is written once is no further result if it is the first. -/
theorem output?_ne_of_mem_tail (h : node.outputs.Nodup) (hname : name ∈ node.outputs.tail) :
    node.output? ≠ some name := by
  unfold Node.output?
  cases houtputs : node.outputs with
  | nil => nofun
  | cons first rest =>
    rw [houtputs, List.nodup_cons] at h
    rw [houtputs] at hname
    rintro ⟨⟩
    exact h.1 hname

/-! ### The check of a node -/

theorem checkInputs_eq_ok_iff {label : String} {names : List String} :
    checkInputs defined label names = .ok () ↔ ∀ name ∈ names, name ≠ "" → name ∈ defined := by
  refine ⟨reads_of_checkInputs, ?_⟩
  induction names with
  | nil => exact fun _ => rfl
  | cons first rest ih =>
    intro h
    have hfirst : (first.isEmpty || defined.contains first) = true := by
      rw [Bool.or_eq_true, String.isEmpty_iff, List.contains_iff_mem]
      exact or_iff_not_imp_left.mpr (h first List.mem_cons_self)
    rw [checkInputs, if_pos hfirst]
    exact ih fun name hname => h name (List.mem_cons_of_mem _ hname)

/-- New names, each of them once, can be defined. -/
theorem exists_defineOutputs (label : String) {names : List String}
    (hnew : ∀ name ∈ names, name ∉ defined) (hnodup : names.Nodup) :
    ∃ next, defineOutputs label defined names = .ok next := by
  induction names generalizing defined with
  | nil => exact ⟨defined, rfl⟩
  | cons first rest ih =>
    rw [List.nodup_cons] at hnodup
    have hfirst : ¬defined.contains first = true := by
      rw [List.contains_iff_mem]
      exact hnew first List.mem_cons_self
    rw [defineOutputs, if_neg hfirst]
    refine ih ?_ hnodup.2
    intro name hname hmem
    rcases List.mem_cons.mp hmem with rfl | hold
    · exact hnodup.1 hname
    · exact hnew name (List.mem_cons_of_mem _ hname) hold

/-- What one node writes is distinct. -/
theorem nodup_of_defineOutputs {label : String} {names : List String}
    (h : defineOutputs label defined names = .ok defined') : names.Nodup := by
  induction names generalizing defined with
  | nil => exact List.nodup_nil
  | cons first rest ih =>
    rw [defineOutputs] at h
    split_ifs at h
    refine List.nodup_cons.mpr ⟨fun hmem => ?_, ih h⟩
    exact (writes_of_defineOutputs h).1 first hmem List.mem_cons_self

/-! ### Walks -/

theorem readsDefined_of_checkNodes {final : List String}
    (h : nodes.foldlM checkNode defined = .ok final) : ReadsDefined defined nodes := by
  induction nodes generalizing defined with
  | nil => trivial
  | cons node rest ih =>
    obtain ⟨next, hnode, hrest⟩ := checkNodes_cons h
    refine ⟨hnode.reads, (ih hrest).mono ?_⟩
    intro name hname
    exact List.mem_append.mpr ((hnode.mem_iff name).mp hname)

theorem nodup_of_checkNodes {final : List String}
    (h : nodes.foldlM checkNode defined = .ok final) : (nodes.flatMap Node.outputs).Nodup := by
  induction nodes generalizing defined with
  | nil => exact List.nodup_nil
  | cons node rest ih =>
    have hwritten : ∀ name ∈ node.outputs, name ∉ rest.flatMap Node.outputs :=
      fun name hname => not_mem_outputs_of_written h hname
    rw [List.foldlM_cons] at h
    obtain ⟨next, hnode, hrest⟩ := bind_eq_ok_iff.mp h
    unfold checkNode at hnode
    obtain ⟨⟨⟩, -, hdefine⟩ := bind_eq_ok_iff.mp hnode
    rw [List.flatMap_cons, List.nodup_append]
    refine ⟨nodup_of_defineOutputs hdefine, ih hrest, ?_⟩
    intro name hname other hother heq
    exact hwritten name hname (heq ▸ hother)

/-- Nodes that read what is defined and write new names pass the check. -/
theorem exists_checkNodes (hreads : ReadsDefined defined nodes)
    (hnew : ∀ name ∈ nodes.flatMap Node.outputs, name ∉ defined)
    (hnodup : (nodes.flatMap Node.outputs).Nodup) :
    ∃ final, nodes.foldlM checkNode defined = .ok final := by
  induction nodes generalizing defined with
  | nil => exact ⟨defined, rfl⟩
  | cons node rest ih =>
    rw [List.flatMap_cons] at hnew hnodup
    obtain ⟨hhere, hlater, hdisjoint⟩ := List.nodup_append.mp hnodup
    obtain ⟨next, hdefine⟩ := exists_defineOutputs node.label
      (fun name hname => hnew name (List.mem_append_left _ hname)) hhere
    have hmem := (writes_of_defineOutputs hdefine).2
    have hcheck : checkNode defined node = .ok next := by
      unfold checkNode
      rw [checkInputs_eq_ok_iff.mpr hreads.1]
      exact hdefine
    rw [List.foldlM_cons, hcheck]
    refine ih (hreads.2.mono fun name hname => ?_) ?_ hlater
    · exact (hmem name).mpr (List.mem_append.mp hname)
    · intro name hname hdefined
      rcases (hmem name).mp hdefined with hold | hwritten
      · exact hnew name (List.mem_append_right _ hname) hold
      · exact hdisjoint name hwritten name hname rfl

theorem checkOutputs_eq_ok_iff {declarations : List Declaration} :
    checkOutputs defined declarations = .ok () ↔
      ∀ declaration ∈ declarations, declaration.name ∈ defined := by
  refine ⟨outputs_of_checkOutputs, ?_⟩
  induction declarations with
  | nil => exact fun _ => rfl
  | cons first rest ih =>
    intro h
    rw [checkOutputs, if_pos (List.contains_iff_mem.mpr (h first List.mem_cons_self))]
    exact ih fun declaration hmem => h declaration (List.mem_cons_of_mem _ hmem)

/-- **The graphs that pass their check** are those in which every reference is to a defined name and
every name is written once. -/
theorem validate_eq_ok_iff : graph.validate = .ok () ↔ graph.Resolved ∧ graph.WritesOnce := by
  constructor
  · intro h
    obtain ⟨final, hnodes, houtputs⟩ := nodes_of_validate h
    have hmem := mem_of_checkNodes hnodes
    refine ⟨⟨readsDefined_of_checkNodes hnodes, ?_⟩,
      ⟨fun name hname => not_mem_of_checkNodes hnodes hname, nodup_of_checkNodes hnodes⟩⟩
    intro declaration hdeclaration
    exact List.mem_append.mpr ((hmem _).mp (houtputs declaration hdeclaration))
  · rintro ⟨hresolved, hwrites⟩
    obtain ⟨final, hnodes⟩ := exists_checkNodes hresolved.reads hwrites.new hwrites.nodup
    unfold validate
    rw [hnodes]
    refine checkOutputs_eq_ok_iff.mpr fun declaration hdeclaration => ?_
    exact (mem_of_checkNodes hnodes _).mpr
      (List.mem_append.mp (hresolved.outputs declaration hdeclaration))

/-! ### Faults of another kind -/

/-- A name is read or declared as an output that nothing defines. -/
def Error.OfReference : Error → Prop
  | .unresolvedInput _ _ => True
  | .unresolvedOutput _ => True
  | _ => False

theorem avoids_defineOutputs (label : String) (defined names : List String) :
    Avoids Error.OfReference (defineOutputs label defined names) := by
  induction names generalizing defined with
  | nil => exact avoids_ok _ _
  | cons first rest ih =>
    rw [defineOutputs]
    split
    · exact avoids_error id
    · exact ih _

theorem avoids_checkNodes (h : ReadsDefined defined nodes) :
    Avoids Error.OfReference (nodes.foldlM checkNode defined) := by
  induction nodes generalizing defined with
  | nil => exact avoids_ok _ _
  | cons node rest ih =>
    have hcheck : checkNode defined node = defineOutputs node.label defined node.outputs := by
      unfold checkNode
      rw [checkInputs_eq_ok_iff.mpr h.1]
      rfl
    rw [List.foldlM_cons, hcheck]
    refine (avoids_defineOutputs _ _ _).bind fun next hnext => ih (h.2.mono fun name hname => ?_)
    exact ((writes_of_defineOutputs hnext).2 name).mpr (List.mem_append.mp hname)

/-- **A graph whose references are to defined names can only fail for names that it writes twice.** -/
theorem avoids_validate (h : graph.Resolved) : Avoids Error.OfReference graph.validate := by
  unfold validate
  refine (avoids_checkNodes h.reads).bind fun final hfinal => ?_
  refine avoids_of_eq_ok (checkOutputs_eq_ok_iff.mpr fun declaration hdeclaration => ?_)
  exact (mem_of_checkNodes hfinal _).mpr (List.mem_append.mp (h.outputs declaration hdeclaration))

end DyadicNet.Graph
