import Mathlib
import DyadicNet.Proofs.Eval.Reordering

/-!
# What a run has bound

A run binds one name for each of its nodes, and a graph that passes its check never writes a name
twice.  So between two nodes the environment is **a record of everything so far**: the input and the
value of each node before, each under its own name and none of them replaced.  The one thing that is
replaced is the format for leaky rectifiers, which is always that of the last quantized convolution.

The trace of a run and its result are read off the same record.

## Main Definitions

* `Recorded` — what an environment holds after some nodes;
* `LastFormat` — the format that the last quantized convolution leaves behind;
* `Traced` — what the entries of a trace are;
* `ResultName`, `Returned` — the name of the result, and the tensor under it.

## Main Statements

* `recorded_of_reached` — the environment in which a node is evaluated;
* `lastFormat_of_foldlM` — the format in which it is evaluated;
* `steps_eq_ok` — the trace along a run;
* `run?_recorded` — all of it, for the runs of an interpreter.
-/

namespace DyadicNet.Eval.Interpreter

variable {I : Interpreter} {graph : Graph} {config : Config} {input : Tensor} {e f : Environment}
  {node : Node} {done nodes : List Node} {name inputName : String}

/-! ### Values -/

/-- The bindings after a list of nodes: new ones before the old ones, which are all still there. -/
theorem values_of_foldlM (h : nodes.foldlM I.advance e = .ok f) :
    e.values <:+ f.values ∧
      f.values.map (·.1) = (boundNames nodes).reverse ++ e.values.map (·.1) := by
  induction nodes generalizing e with
  | nil =>
    cases h
    exact ⟨List.suffix_refl _, rfl⟩
  | cons node rest ih =>
    rw [List.foldlM_cons] at h
    obtain ⟨middle, hnode, hrest⟩ := bind_eq_ok_iff.mp h
    obtain ⟨result, y, houtput, -, rfl⟩ := advance_eq_ok hnode
    obtain ⟨hsuffix, hnames⟩ := ih hrest
    refine ⟨(List.suffix_cons _ _).trans hsuffix, ?_⟩
    rw [hnames]
    simp [boundNames, houtput]

/-- Where a node was evaluated on the way, and what it has bound. -/
theorem exists_value_of_foldlM {front back : List Node}
    (h : (front ++ node :: back).foldlM I.advance e = .ok f) :
    ∃ middle result y, front.foldlM I.advance e = .ok middle ∧ node.output? = some result ∧
      Prod.fst <$> I.evalNode middle node = .ok y ∧ (result, y) ∈ f.values := by
  rw [List.foldlM_append] at h
  obtain ⟨middle, hfront, h⟩ := bind_eq_ok_iff.mp h
  rw [List.foldlM_cons] at h
  obtain ⟨next, hnode, hback⟩ := bind_eq_ok_iff.mp h
  obtain ⟨result, y, houtput, heval, rfl⟩ := advance_eq_ok hnode
  exact ⟨middle, result, y, hfront, houtput, heval,
    (values_of_foldlM hback).1.subset List.mem_cons_self⟩

/-- A run up to some node gets past the nodes before it. -/
theorem reached_eq_ok_iff : I.reached input done = .ok e ↔
    ∃ inputName, I.inputName? = .ok inputName ∧
      done.foldlM I.advance ⟨[(inputName, input)], none⟩ = .ok e := by
  unfold reached
  exact bind_eq_ok_iff

theorem inputName?_eq_ok_iff : I.inputName? = .ok inputName ↔
    ∃ declaration, I.graph.dataInputs.head? = some declaration ∧ declaration.name = inputName := by
  unfold inputName?
  cases I.graph.dataInputs.head? with
  | none => simp
  | some declaration => simp

/-- The name of the input is declared. -/
theorem inputName_mem_externalNames (h : I.inputName? = .ok inputName) :
    inputName ∈ I.graph.externalNames := by
  obtain ⟨declaration, hhead, rfl⟩ := inputName?_eq_ok_iff.mp h
  have hmem : declaration ∈ I.graph.inputs := List.mem_of_mem_filter (List.mem_of_mem_head? hhead)
  exact List.mem_append_left _ (List.mem_map_of_mem hmem)

/-- The names that a run of a checked graph binds are distinct. -/
theorem nodup_bound (hgraph : I.graph.validate = .ok ()) (hinput : I.inputName? = .ok inputName)
    (hnodes : I.graph.nodes = done ++ nodes) : (inputName :: boundNames done).Nodup := by
  obtain ⟨final, hchecked, -⟩ := Graph.nodes_of_validate hgraph
  rw [hnodes] at hchecked
  obtain ⟨defined, hdone, -⟩ := Graph.checkNodes_append hchecked
  refine List.nodup_cons.mpr ⟨fun hmem => ?_, Graph.nodup_output?_of_checkNodes hdone⟩
  exact Graph.not_mem_of_checkNodes hdone (boundNames_sub hmem) (inputName_mem_externalNames hinput)

/-- **What an environment holds after some nodes**: the input and the value of each node, as it was
when the node was evaluated. -/
structure Recorded (interpreter : Interpreter) (input : Tensor) (inputName : String)
    (done : List Node) (environment : Environment) : Prop where
  /-- There is a binding for the input and one for each node, and no other. -/
  names_eq : environment.values.map (·.1)
    = (inputName :: done.filterMap Node.output?).reverse
  nodup : (environment.values.map (·.1)).Nodup
  input_eq : environment.values.lookup inputName = some input
  node_eq : ∀ front node back, done = front ++ node :: back →
    ∃ earlier name y, interpreter.reached input front = .ok earlier ∧ node.output? = some name ∧
      Prod.fst <$> interpreter.evalNode earlier node = .ok y ∧
      environment.values.lookup name = some y
  /-- Whatever an earlier node found bound is bound to the same tensor. -/
  kept : ∀ front back earlier, done = front ++ back → interpreter.reached input front = .ok earlier →
    ∀ name y, earlier.values.lookup name = some y → environment.values.lookup name = some y

/-- A name that is bound once is found with its value. -/
private theorem lookup_of_suffix {values bindings : List (String × Tensor)} {y : Tensor}
    (hnodup : (values.map (·.1)).Nodup) (hsuffix : bindings <:+ values)
    (h : bindings.lookup name = some y) : values.lookup name = some y := by
  obtain ⟨front, back, hsplit, -⟩ := List.lookup_eq_some_iff.mp h
  refine lookup_of_mem hnodup (hsuffix.subset ?_)
  rw [hsplit]
  exact List.mem_append_right _ List.mem_cons_self

/-- **The environment in which a node is evaluated** records everything before the node. -/
theorem recorded_of_reached (hgraph : I.graph.validate = .ok ())
    (hinput : I.inputName? = .ok inputName) (hnodes : I.graph.nodes = done ++ nodes)
    (h : I.reached input done = .ok e) : Recorded I input inputName done e := by
  have hreached : ∀ {front : List Node} {earlier : Environment},
      I.reached input front = .ok earlier ↔
        front.foldlM I.advance ⟨[(inputName, input)], none⟩ = .ok earlier := by
    intro front earlier
    rw [reached_eq_ok_iff, hinput]
    simp
  have hrun := hreached.mp h
  obtain ⟨hsuffix, hnames⟩ := values_of_foldlM hrun
  have hnames : e.values.map (·.1) = (inputName :: boundNames done).reverse := by
    rw [hnames, List.reverse_cons]
    rfl
  have hnodup : (e.values.map (·.1)).Nodup := by
    rw [hnames, List.nodup_reverse]
    exact nodup_bound hgraph hinput hnodes
  refine ⟨hnames, hnodup, ?_, ?_, ?_⟩
  · exact lookup_of_suffix hnodup hsuffix List.lookup_cons_self
  · rintro front node back rfl
    obtain ⟨earlier, result, y, hfront, houtput, heval, hmem⟩ := exists_value_of_foldlM hrun
    exact ⟨earlier, result, y, hreached.mpr hfront, houtput, heval, lookup_of_mem hnodup hmem⟩
  · rintro front back earlier rfl hearlier name y hlookup
    rw [List.foldlM_append, hreached.mp hearlier] at hrun
    exact lookup_of_suffix hnodup (values_of_foldlM hrun).1 hlookup

/-! ### Formats -/

/-- The format that the last quantized convolution of a list of nodes leaves behind, and none if
there is no such node. -/
inductive LastFormat (interpreter : Interpreter) : List Node → Option FixedPoint.Format → Prop
  | none {nodes : List Node} (h : ∀ node ∈ nodes, node.operator ≠ .qlinearConv) :
      LastFormat interpreter nodes none
  | last {front back : List Node} {node : Node} {weights : Quantize.Params}
      {format : FixedPoint.Format} (hnode : node.operator = .qlinearConv)
      (hback : ∀ other ∈ back, other.operator ≠ .qlinearConv)
      (hweights : interpreter.params node 4 5 = .ok weights)
      (hformat : interpreter.activationFormat weights = .ok format) :
      LastFormat interpreter (front ++ node :: back) (some format)

/-- Once there has been a quantized convolution there is a format. -/
theorem LastFormat.isSome {format : Option FixedPoint.Format} (h : LastFormat I nodes format)
    (hmem : node ∈ nodes) (hnode : node.operator = .qlinearConv) : format.isSome := by
  cases h with
  | none hnone => exact absurd hnode (hnone node hmem)
  | last => rfl

/-- A node that is no quantized convolution leaves the format as it is. -/
theorem LastFormat.concat_of_ne {format : Option FixedPoint.Format} (h : LastFormat I done format)
    (hnode : node.operator ≠ .qlinearConv) : LastFormat I (done ++ [node]) format := by
  have hconcat : ∀ {others : List Node}, (∀ other ∈ others, other.operator ≠ .qlinearConv) →
      ∀ other ∈ others ++ [node], other.operator ≠ .qlinearConv := by
    intro others hothers other hother
    rcases List.mem_append.mp hother with hold | hnew
    · exact hothers other hold
    · exact List.mem_singleton.mp hnew ▸ hnode
  cases h with
  | none hnone => exact .none (hconcat hnone)
  | last hlast hback hweights hformat =>
    rw [List.append_assoc, List.cons_append]
    exact .last hlast (hconcat hback) hweights hformat

/-- A quantized convolution that has a value leaves its format behind. -/
theorem exists_format_of_evalNode {y : Tensor} {format : Option FixedPoint.Format}
    (hnode : node.operator = .qlinearConv) (h : I.evalNode e node = .ok (y, format)) :
    ∃ weights left, I.params node 4 5 = .ok weights ∧ I.activationFormat weights = .ok left ∧
      format = some left := by
  unfold evalNode at h
  rw [hnode] at h
  simp only [bind_eq_ok_iff, Prod.exists, Except.ok.injEq, Prod.mk.injEq] at h
  obtain ⟨x, -, _, weights, hconvolution, left, hleft, -, rfl⟩ := h
  exact ⟨weights, left, weightParams_of_convolution hconvolution, hleft, rfl⟩

/-- **One node**: the format after it is that of the last quantized convolution up to it. -/
theorem lastFormat_of_advance (hdone : LastFormat I done e.leakyFormat)
    (h : I.advance e node = .ok f) : LastFormat I (done ++ [node]) f.leakyFormat := by
  obtain ⟨_, y, -, heval, rfl⟩ := advance_eq_ok h
  by_cases hnode : node.operator = .qlinearConv
  · obtain ⟨⟨_, format⟩, hvalue, rfl⟩ := map_eq_ok_iff.mp heval
    obtain ⟨weights, left, hweights, hleft, rfl⟩ := exists_format_of_evalNode hnode hvalue
    rw [← leakyFormat_of_evalNode hvalue]
    exact .last hnode (fun _ hother => absurd hother List.not_mem_nil) hweights hleft
  · show LastFormat I _ (I.leave e.leakyFormat node)
    rw [leave, if_neg hnode]
    exact hdone.concat_of_ne hnode

/-- **The format in which a node is evaluated** is that of the last quantized convolution before
it. -/
theorem lastFormat_of_foldlM (hdone : LastFormat I done e.leakyFormat)
    (h : nodes.foldlM I.advance e = .ok f) : LastFormat I (done ++ nodes) f.leakyFormat := by
  induction nodes generalizing done e with
  | nil =>
    cases h
    rwa [List.append_nil]
  | cons node rest ih =>
    rw [List.foldlM_cons] at h
    obtain ⟨middle, hnode, hrest⟩ := bind_eq_ok_iff.mp h
    rw [List.append_cons]
    exact ih (lastFormat_of_advance hdone hnode) hrest

/-! ### Traces -/

/-- **What a trace holds**: for each node, in the order of the nodes, its label and its value. -/
structure Traced (interpreter : Interpreter) (input : Tensor) (values : List (String × Tensor)) :
    Prop where
  labels_eq : values.map (·.1) = interpreter.graph.nodes.map Node.label
  value_eq : ∀ front node back, interpreter.graph.nodes = front ++ node :: back →
    ∃ environment y, interpreter.reached input front = .ok environment ∧
      Prod.fst <$> interpreter.evalNode environment node = .ok y ∧
      values[front.length]? = some (node.label, y)

/-- What is traced for a node is its value. -/
theorem value_of_step {y : Tensor} (h : I.step e node = .ok (f, y)) :
    Prod.fst <$> I.evalNode e node = .ok y := by
  obtain ⟨⟨z, format⟩, heval, hbind⟩ := bind_eq_ok_iff.mp h
  refine map_eq_ok_iff.mpr ⟨_, heval, ?_⟩
  cases houtput : node.output? with
  | none =>
    rw [houtput] at hbind
    cases hbind
  | some name =>
    rw [houtput] at hbind
    exact (Prod.mk.inj (Except.ok.inj hbind)).2

/-- The trace along a list of nodes. -/
theorem steps_eq_ok {values : List (String × Tensor)} (h : I.steps e nodes = .ok (f, values)) :
    nodes.foldlM I.advance e = .ok f ∧ values.map (·.1) = nodes.map Node.label ∧
      ∀ front node back, nodes = front ++ node :: back →
        ∃ environment y, front.foldlM I.advance e = .ok environment ∧
          Prod.fst <$> I.evalNode environment node = .ok y ∧
          values[front.length]? = some (node.label, y) := by
  refine ⟨by rw [← fst_steps, h]; rfl, ?_⟩
  induction nodes generalizing e values with
  | nil =>
    cases h
    exact ⟨rfl, by simp⟩
  | cons first rest ih =>
    rw [steps] at h
    simp only [bind_eq_ok_iff, Prod.exists, Except.ok.injEq, Prod.mk.injEq] at h
    obtain ⟨middle, y, hstep, last, later, hrest, rfl, rfl⟩ := h
    have hadvance : I.advance e first = .ok middle := map_eq_ok_iff.mpr ⟨_, hstep, rfl⟩
    obtain ⟨hlabels, hvalues⟩ := ih hrest
    refine ⟨by rw [List.map_cons, List.map_cons, hlabels], ?_⟩
    intro front node back hsplit
    cases front with
    | nil =>
      obtain ⟨rfl, -⟩ := List.cons.inj hsplit
      exact ⟨e, y, rfl, value_of_step hstep, rfl⟩
    | cons other front =>
      obtain ⟨rfl, htail⟩ := List.cons.inj hsplit
      obtain ⟨environment, z, hfront, heval, hget⟩ := hvalues front node back htail
      refine ⟨environment, z, ?_, heval, hget⟩
      rw [List.foldlM_cons, hadvance]
      exact hfront

/-! ### Results -/

/-- The name of the result of a graph: that of the first declared output, else the first result of
the last node, else the name of the input. -/
inductive ResultName (graph : Graph) (inputName : String) : String → Prop
  | declared {declaration : Declaration} {others : List Declaration}
      (h : graph.outputs = declaration :: others) : ResultName graph inputName declaration.name
  | last {front : List Node} {node : Node} {name : String} (h : graph.outputs = [])
      (hnodes : graph.nodes = front ++ [node]) (houtput : node.output? = some name) :
      ResultName graph inputName name
  | input (h : graph.outputs = []) (hnodes : graph.nodes = []) :
      ResultName graph inputName inputName

/-- **What a run returns**: the input if the result has its name, else the traced value of the one
node whose first result has it. -/
inductive Returned (graph : Graph) (input : Tensor) (inputName : String)
    (values : List (String × Tensor)) (name : String) : Tensor → Prop
  | input (h : name = inputName) : Returned graph input inputName values name input
  | node {front back : List Node} {node : Node} {y : Tensor} (h : name ≠ inputName)
      (hnodes : graph.nodes = front ++ node :: back) (houtput : node.output? = some name)
      (hunique : ∀ other ∈ front ++ back, other.output? ≠ some name)
      (hvalue : values[front.length]? = some (node.label, y)) :
      Returned graph input inputName values name y

/-- A run that gets past its nodes has a result name. -/
theorem resultName_of_foldlM (h : I.graph.nodes.foldlM I.advance e = .ok f) :
    ResultName I.graph inputName (I.resultName inputName) := by
  unfold resultName
  cases houtputs : I.graph.outputs with
  | cons declaration others => exact .declared houtputs
  | nil =>
    rcases List.eq_nil_or_concat' I.graph.nodes with hnodes | ⟨front, last, hnodes⟩
    · rw [hnodes]
      exact .input houtputs hnodes
    · rw [hnodes] at h ⊢
      obtain ⟨_, result, _, -, houtput, -⟩ := exists_value_of_foldlM h
      simp only [List.head?_nil, List.getLast?_append, List.getLast?_singleton, Option.some_or,
        Option.bind_some, houtput, Option.getD_some]
      exact .last houtputs hnodes houtput

/-- What is bound under a name at the end of a run is what the trace has for it. -/
theorem returned_of_recorded {values : List (String × Tensor)} {y : Tensor}
    (hrecorded : Recorded I input inputName I.graph.nodes e) (htraced : Traced I input values)
    (h : e.values.lookup name = some y) : Returned I.graph input inputName values name y := by
  by_cases hinput : name = inputName
  · subst hinput
    obtain rfl := Option.some_inj.mp (h.symm.trans hrecorded.input_eq)
    exact .input rfl
  have hmem : name ∈ e.values.map (·.1) := isSome_lookup_iff.mp (by rw [h]; rfl)
  rw [hrecorded.names_eq, List.mem_reverse, List.mem_cons] at hmem
  obtain ⟨node, hnode, houtput⟩ := List.mem_filterMap.mp (hmem.resolve_left hinput)
  obtain ⟨front, back, hsplit⟩ := List.append_of_mem hnode
  obtain ⟨earlier, result, z, hearlier, houtput', heval, hlookup⟩ :=
    hrecorded.node_eq front node back hsplit
  obtain rfl := Option.some_inj.mp (houtput.symm.trans houtput')
  obtain rfl := Option.some_inj.mp (h.symm.trans hlookup)
  obtain ⟨environment, w, henvironment, heval', hget⟩ := htraced.value_eq front node back hsplit
  -- the trace and the environment have seen the same evaluation
  obtain rfl := Except.ok.inj (hearlier.symm.trans henvironment)
  obtain rfl := Except.ok.inj (heval.symm.trans heval')
  refine .node hinput hsplit houtput ?_ hget
  have hnodup := hrecorded.nodup
  rw [hrecorded.names_eq, List.nodup_reverse, List.nodup_cons, hsplit, List.filterMap_append,
    List.filterMap_cons_some houtput] at hnodup
  have hother := (List.nodup_middle.mp hnodup.2).notMem
  intro other hmem hsame
  refine hother ?_
  rw [← List.filterMap_append]
  exact List.mem_filterMap.mpr ⟨other, hmem, hsame⟩

/-- **A run records what it binds.**  Whenever a node is evaluated, the environment binds the first
data input and the first results of the nodes before, each of them to the tensor it was bound to
first, and the format for leaky rectifiers is that of the last quantized convolution before.  A run
that succeeds has a trace, with one entry for each node, and its result is the input or one of the
entries. -/
theorem run?_recorded (h : make? graph config = .ok I) (input : Tensor) :
    (∀ done node rest e, graph.nodes = done ++ node :: rest → I.reached input done = .ok e →
      ∃ declaration, graph.dataInputs.head? = some declaration ∧
        Recorded I input declaration.name done e ∧ LastFormat I done e.leakyFormat) ∧
    ∀ y, I.run? input = .ok y → ∃ declaration values name,
      graph.dataInputs.head? = some declaration ∧ I.trace? input = .ok values ∧
      Traced I input values ∧ ResultName graph declaration.name name ∧
      Returned graph input declaration.name values name y := by
  obtain ⟨-, hgraph, rfl⟩ := make?_eq_ok_iff.mp h
  constructor
  · intro done node rest e hnodes hreached
    obtain ⟨inputName, hinput, hrun⟩ := reached_eq_ok_iff.mp hreached
    obtain ⟨declaration, hhead, rfl⟩ := inputName?_eq_ok_iff.mp hinput
    have hformat : LastFormat ⟨graph, config⟩ ([] ++ done) e.leakyFormat :=
      lastFormat_of_foldlM (.none fun _ hmem => absurd hmem List.not_mem_nil) hrun
    exact ⟨declaration, hhead, recorded_of_reached hgraph hinput hnodes hreached, hformat⟩
  · intro y hrun
    obtain ⟨⟨_, values⟩, hexecute, rfl⟩ := map_eq_ok_iff.mp hrun
    have htrace : trace? ⟨graph, config⟩ input = .ok values := map_eq_ok_iff.mpr ⟨_, hexecute, rfl⟩
    obtain ⟨inputName, hinput, hexecute⟩ := bind_eq_ok_iff.mp hexecute
    obtain ⟨⟨e, _⟩, hsteps, hresult⟩ := bind_eq_ok_iff.mp hexecute
    obtain ⟨declaration, hhead, rfl⟩ := inputName?_eq_ok_iff.mp hinput
    cases hlookup : e.values.lookup (resultName ⟨graph, config⟩ declaration.name) with
    | none =>
      dsimp only at hresult
      rw [hlookup] at hresult
      cases hresult
    | some result =>
      dsimp only at hresult
      rw [hlookup] at hresult
      cases hresult
      obtain ⟨hfold, hlabels, hvalues⟩ := steps_eq_ok hsteps
      have htraced : Traced ⟨graph, config⟩ input values := by
        refine ⟨hlabels, fun front node back hsplit => ?_⟩
        obtain ⟨environment, z, hfront, heval, hget⟩ := hvalues front node back hsplit
        exact ⟨environment, z, reached_eq_ok_iff.mpr ⟨_, hinput, hfront⟩, heval, hget⟩
      have hrecorded := recorded_of_reached hgraph hinput (List.append_nil _).symm
        (reached_eq_ok_iff.mpr ⟨_, hinput, hfold⟩)
      exact ⟨declaration, values, _, hhead, htrace, htraced, resultName_of_foldlM hfold,
        returned_of_recorded hrecorded htraced hlookup⟩

/-- Between the convolution and the leaky rectifier the input and two values are bound, the last of
them is the first result of the convolution, and the run has a result. -/
theorem run?_recorded_branching :
    ∃ I e y, make? (branching convolutionFirst) {} = .ok I ∧
      I.reached (.oneReal 4 (.ofInt (-1))) [branchQuantizer, branchConvolution] = .ok e ∧
      Recorded I (.oneReal 4 (.ofInt (-1))) "x" [branchQuantizer, branchConvolution] e ∧
      e.values.map (·.1) = ["yq", "xq", "x"] ∧
      LastFormat I [branchQuantizer, branchConvolution] e.leakyFormat ∧ e.leakyFormat.isSome ∧
      I.run? (.oneReal 4 (.ofInt (-1))) = .ok y ∧ ∃ values,
        I.trace? (.oneReal 4 (.ofInt (-1))) = .ok values ∧
        Traced I (.oneReal 4 (.ofInt (-1))) values ∧
        values.map (·.1) = ["q", "c", "l", "r"] ∧
        Returned (branching convolutionFirst) (.oneReal 4 (.ofInt (-1))) "x" values "y" y := by
  have hmake : make? (branching convolutionFirst) {} = .ok ⟨branching convolutionFirst, {}⟩ :=
    make?_eq_ok_iff.mpr ⟨by decide +kernel, by decide +kernel, rfl⟩
  obtain ⟨hbound, hresult⟩ := run?_recorded hmake (.oneReal 4 (.ofInt (-1)))
  obtain ⟨e, he⟩ := exists_of_isOk (x := reached ⟨branching convolutionFirst, {}⟩
    (.oneReal 4 (.ofInt (-1))) [branchQuantizer, branchConvolution]) (by decide +kernel)
  obtain ⟨y, hy⟩ := exists_of_isOk (x := run? ⟨branching convolutionFirst, {}⟩
    (.oneReal 4 (.ofInt (-1)))) (by decide +kernel)
  obtain ⟨_, hhead, hrecorded, hformat⟩ := hbound _ branchLeaky [branchRelu] e rfl he
  cases hhead
  obtain ⟨_, values, name, hhead, htrace, htraced, hname, hreturned⟩ := hresult y hy
  cases hhead
  cases hname with
  | declared h =>
    cases h
    exact ⟨_, e, y, hmake, he, hrecorded, hrecorded.names_eq, hformat,
      hformat.isSome (List.mem_cons_of_mem _ List.mem_cons_self) rfl, hy, values, htrace, htraced,
      htraced.labels_eq, hreturned⟩
  | last h => cases h
  | input h => cases h

end DyadicNet.Eval.Interpreter
