import Mathlib
import DyadicNet.Proofs.Eval.Agreement
import DyadicNet.Proofs.Graph.Validation

/-!
# The order of the nodes

A graph that passes its check says for each node which names it reads, and no name is written
twice.  So the values of a run are a solution of equations, one for each node, and **every order in
which the nodes can be evaluated solves the same equations**.

One thing does not go through names: the format in which leaky rectifiers round.  It is left behind
by the last quantized convolution *in the order of the nodes*, whether the rectifier has anything to
do with that convolution or not.  Two orders give the same result as long as each rectifier that
reads real numbers finds the same format in both; integers are rounded without it.

## Main Definitions

* `Interpreter.leftFormat` — the format that a list of nodes leaves behind;
* `Interpreter.reached` — the environment of a run after some of its nodes;
* `KeepsFormats` — that another order leaves the rectifiers their formats.

## Main Statements

* `Interpreter.leakyFormat_of_evalNode` — the format after a node;
* `Interpreter.evalNode_format` — what does not depend on the format;
* `Interpreter.foldlM_advance_perm` — another order of the same nodes binds the same values;
* `run?_perm` — runs of a graph and of the same graph with its nodes in another order;
* `run?_ne_swapped` — why the formats matter.
-/

namespace DyadicNet

namespace Eval.Interpreter

variable {I : Interpreter} {e f : Environment} {node : Node} {nodes : List Node} {name : String}

/-! ### The format for leaky rectifiers -/

/-- The format after a node: that of a quantized convolution, which follows from the constants of
its weights, and the one before any other node. -/
def leave (interpreter : Interpreter) (format : Option FixedPoint.Format) (node : Node) :
    Option FixedPoint.Format :=
  if node.operator = .qlinearConv then
    (interpreter.params node 4 5 >>= interpreter.activationFormat).toOption
  else format

/-- The format that a list of nodes leaves behind: that of the last quantized convolution. -/
def leftFormat (interpreter : Interpreter) (nodes : List Node) : Option FixedPoint.Format :=
  nodes.foldl interpreter.leave none

theorem weightParams_of_convolution {x y : Tensor} {weights : Quantize.Params}
    (h : I.convolution node x = .ok (y, weights)) : I.params node 4 5 = .ok weights := by
  unfold convolution Interpreter.operands at h
  simp only [bind_eq_ok_iff, Except.ok.injEq, Prod.mk.injEq] at h
  obtain ⟨_, ⟨_, -, _, hweights, _, -, _, -, _, -, _, -, _, -, _, -, _, -, _, -, _, -, _, -, _, -,
    _, -, _, -, _, -, rfl⟩, _, -, -, rfl⟩ := h
  exact hweights

/-- A node that passes the format on has the value that is computed from its data. -/
theorem fst_map_unchanged (data : Except Error Tensor) (compute : Tensor → Except Error Tensor)
    (format : Option FixedPoint.Format) :
    Prod.fst <$> (data >>= fun x => (fun y => (y, format)) <$> compute x) = data >>= compute := by
  cases data with
  | error fault => rfl
  | ok x => exact fst_map_pair (compute x) format

theorem snd_of_unchanged {computed : Except Error Tensor} {y : Tensor}
    {format format' : Option FixedPoint.Format}
    (h : (fun y => (y, format)) <$> computed = .ok (y, format')) : format' = format := by
  obtain ⟨_, -, heq⟩ := map_eq_ok_iff.mp h
  exact (Prod.mk.inj heq).2.symm

/-- The format after a node that has a value. -/
theorem leakyFormat_of_evalNode {y : Tensor} {format : Option FixedPoint.Format}
    (h : I.evalNode e node = .ok (y, format)) : format = I.leave e.leakyFormat node := by
  unfold evalNode at h
  unfold leave
  cases hoperator : node.operator with
  | qlinearConv =>
    rw [hoperator] at h
    simp only [bind_eq_ok_iff, Prod.exists, Except.ok.injEq, Prod.mk.injEq] at h
    obtain ⟨x, -, _, weights, hconvolution, left, hleft, rfl, rfl⟩ := h
    rw [if_pos rfl, weightParams_of_convolution hconvolution]
    show some left = (I.activationFormat weights).toOption
    rw [hleft]
    rfl
  | conv | other =>
    rw [hoperator] at h
    cases h
  | leakyRelu =>
    rw [hoperator] at h
    obtain ⟨given, -, h⟩ := bind_eq_ok_iff.mp h
    obtain ⟨x, -, h⟩ := bind_eq_ok_iff.mp h
    exact snd_of_unchanged h
  | quantizeLinear | dequantizeLinear | pad | maxPool | globalAveragePool | relu =>
    rw [hoperator] at h
    obtain ⟨x, -, h⟩ := bind_eq_ok_iff.mp h
    exact snd_of_unchanged h

/-- Integers are rounded without a format. -/
theorem elementwise_leakyRectify {x : Tensor} (hx : x.isInteger = true) (slope : Binary64)
    (format format' : Option FixedPoint.Format) (onInt : ℤ → ℤ) :
    elementwise (leakyRectify slope format) onInt x
      = elementwise (leakyRectify slope format') onInt x := by
  unfold elementwise
  cases helements : x.elements with
  | ints type values => rfl
  | reals values =>
    unfold Tensor.isInteger Tensor.dtype at hx
    rw [helements] at hx
    cases hx

/-- **The value of a node does not depend on the format**, unless it is a leaky rectifier that reads
real numbers. -/
theorem evalNode_format {values : List (String × Tensor)}
    {format format' : Option FixedPoint.Format} (h : node.operator = .leakyRelu → ∀ x, I.value ⟨values, format⟩ node 0 = .ok x →
      x.isInteger = false → format = format') :
    Prod.fst <$> I.evalNode ⟨values, format⟩ node
      = Prod.fst <$> I.evalNode ⟨values, format'⟩ node := by
  have hvalue : I.value ⟨values, format'⟩ node 0 = I.value ⟨values, format⟩ node 0 := rfl
  unfold evalNode
  rw [hvalue]
  cases hoperator : node.operator with
  | conv | other | qlinearConv => rfl
  | leakyRelu =>
    dsimp only
    cases ofGraph (node.real? "alpha") with
    | error fault => rfl
    | ok given =>
      show Prod.fst <$> (I.value _ node 0 >>= _) = Prod.fst <$> (I.value _ node 0 >>= _)
      rw [fst_map_unchanged, fst_map_unchanged]
      refine bind_congr_ok fun x hx => ?_
      cases hinteger : x.isInteger with
      | true => exact elementwise_leakyRectify hinteger _ format format' _
      | false => rw [h hoperator x hx hinteger]
  | quantizeLinear | dequantizeLinear | pad | maxPool | globalAveragePool | relu =>
    dsimp only
    rw [fst_map_unchanged, fst_map_unchanged]

/-! ### Steps -/

/-- The name that each node binds. -/
def boundNames (nodes : List Node) : List String :=
  nodes.filterMap Node.output?

theorem boundNames_sub : boundNames nodes ⊆ nodes.flatMap Node.outputs := by
  intro name hname
  obtain ⟨node, hnode, houtput⟩ := List.mem_filterMap.mp hname
  exact List.mem_flatMap.mpr ⟨node, hnode, List.mem_of_mem_head? houtput⟩

/-- What a step that succeeds does. -/
theorem advance_eq_ok (h : I.advance e node = .ok f) :
    ∃ name y, node.output? = some name ∧ Prod.fst <$> I.evalNode e node = .ok y ∧
      f = ⟨(name, y) :: e.values, I.leave e.leakyFormat node⟩ := by
  unfold advance step at h
  obtain ⟨⟨_, _⟩, hstep, rfl⟩ := map_eq_ok_iff.mp h
  obtain ⟨⟨y, format⟩, heval, hbind⟩ := bind_eq_ok_iff.mp hstep
  cases houtput : node.output? with
  | none =>
    rw [houtput] at hbind
    cases hbind
  | some name =>
    rw [houtput] at hbind
    cases hbind
    refine ⟨name, _, rfl, congrArg (Prod.fst <$> ·) heval, ?_⟩
    rw [leakyFormat_of_evalNode heval]

/-- A node that has a value and a name for it can be stepped over. -/
theorem advance_of_value {y : Tensor} (houtput : node.output? = some name)
    (h : Prod.fst <$> I.evalNode e node = .ok y) :
    I.advance e node = .ok ⟨(name, y) :: e.values, I.leave e.leakyFormat node⟩ := by
  obtain ⟨⟨_, format⟩, heval, rfl⟩ := map_eq_ok_iff.mp h
  rw [advance_eq houtput, heval, leakyFormat_of_evalNode heval]
  rfl

/-- The format after a list of nodes. -/
theorem leakyFormat_of_foldlM (h : nodes.foldlM I.advance e = .ok f) :
    f.leakyFormat = nodes.foldl I.leave e.leakyFormat := by
  induction nodes generalizing e with
  | nil =>
    cases h
    rfl
  | cons node rest ih =>
    rw [List.foldlM_cons] at h
    obtain ⟨middle, hnode, hrest⟩ := bind_eq_ok_iff.mp h
    obtain ⟨_, _, -, -, rfl⟩ := advance_eq_ok hnode
    rw [ih hrest, List.foldl_cons]

/-- A list of nodes changes no name but those that it binds. -/
theorem lookup_of_foldlM (h : nodes.foldlM I.advance e = .ok f) (hname : name ∉ boundNames nodes) :
    f.values.lookup name = e.values.lookup name := by
  induction nodes generalizing e with
  | nil =>
    cases h
    rfl
  | cons node rest ih =>
    rw [List.foldlM_cons] at h
    obtain ⟨middle, hnode, hrest⟩ := bind_eq_ok_iff.mp h
    obtain ⟨result, y, houtput, -, rfl⟩ := advance_eq_ok hnode
    rw [boundNames, List.filterMap_cons_some houtput, List.mem_cons, not_or] at hname
    rw [ih hrest hname.2, lookup_cons_of_ne hname.1]

/-! ### Another order -/

/-- A node that reads the same values as in another run, and rounds as there, has the same value. -/
theorem value_eq_of_agree (hlookup : ∀ index name, node.input? index = some name →
      e.values.lookup name = f.values.lookup name)
    (hformat : node.operator = .leakyRelu → ∀ x, I.value e node 0 = .ok x →
      x.isInteger = false → e.leakyFormat = f.leakyFormat) :
    Prod.fst <$> I.evalNode e node = Prod.fst <$> I.evalNode f node := by
  have hsame : SameOperands I I ⟨e.values, f.leakyFormat⟩ f node :=
    ⟨rfl, rfl, hlookup, fun _ _ _ => rfl⟩
  rw [← hsame.evalNode_eq]
  exact evalNode_format hformat

variable {first second : List Node} {start : Environment}
  {defined defined' final final' : List String}

/-- **The equation of a node**: where it was evaluated it read what stands under the names of its
operands at the end, and its value stands under its own name. -/
theorem exists_step_of_mem (hchecked : first.foldlM Graph.checkNode defined = .ok final)
    (hrun : first.foldlM I.advance start = .ok f) (hnode : node ∈ first) :
    ∃ before after e result y, first = before ++ node :: after ∧
      before.foldlM I.advance start = .ok e ∧ node.output? = some result ∧
      Prod.fst <$> I.evalNode e node = .ok y ∧ f.values.lookup result = some y ∧
      ∀ index name, node.input? index = some name →
        e.values.lookup name = f.values.lookup name := by
  obtain ⟨before, after, rfl⟩ := List.append_of_mem hnode
  obtain ⟨reached, -, hchecked⟩ := Graph.checkNodes_append hchecked
  rw [List.foldlM_append] at hrun
  obtain ⟨e, hbefore, hlater⟩ := bind_eq_ok_iff.mp hrun
  have hstep := hlater
  rw [List.foldlM_cons] at hstep
  obtain ⟨middle, hadvance, hafter⟩ := bind_eq_ok_iff.mp hstep
  obtain ⟨result, y, houtput, heval, rfl⟩ := advance_eq_ok hadvance
  refine ⟨before, after, e, result, y, rfl, hbefore, houtput, heval, ?_, ?_⟩
  · have hwritten := Graph.not_mem_outputs_of_written hchecked (List.mem_of_mem_head? houtput)
    rw [lookup_of_foldlM hafter fun hmem => hwritten (boundNames_sub hmem), List.lookup_cons_self]
  · intro index name hname
    have hread := Graph.not_mem_outputs_of_read hchecked hname
    exact (lookup_of_foldlM hlater fun hmem => hread (boundNames_sub hmem)).symm

/-- **Another order of the same nodes binds the same values**, if each leaky rectifier that reads
real numbers finds the same format in both orders. -/
theorem foldlM_advance_perm (hperm : second.Perm first)
    (hfirst : first.foldlM Graph.checkNode defined = .ok final)
    (hsecond : second.foldlM Graph.checkNode defined' = .ok final')
    (hformat : ∀ before node after before' after' e e', first = before ++ node :: after →
      second = before' ++ node :: after' → node.operator = .leakyRelu →
      before.foldlM I.advance start = .ok e → before'.foldlM I.advance start = .ok e' →
      I.value e node 0 = I.value e' node 0 →
      ∀ x, I.value e node 0 = .ok x → x.isInteger = false → e.leakyFormat = e'.leakyFormat)
    (hrun : first.foldlM I.advance start = .ok f) :
    ∃ g, second.foldlM I.advance start = .ok g ∧
      ∀ name, g.values.lookup name = f.values.lookup name := by
  -- along the second order, the names that are not bound later have their final values
  suffices hsuffix : ∀ rest before' e', second = before' ++ rest →
      before'.foldlM I.advance start = .ok e' →
      (∀ name ∉ boundNames rest, e'.values.lookup name = f.values.lookup name) →
      ∃ g, rest.foldlM I.advance e' = .ok g ∧
        ∀ name, g.values.lookup name = f.values.lookup name by
    refine hsuffix second [] start rfl rfl fun name hname => ?_
    rw [lookup_of_foldlM hrun fun hmem => hname ?_]
    exact (hperm.filterMap _).mem_iff.mpr hmem
  intro rest
  induction rest with
  | nil => exact fun before' e' _ _ hagree => ⟨e', rfl, fun name => hagree name List.not_mem_nil⟩
  | cons node rest ih =>
    intro before' e' hsplit' hbefore' hagree
    have hnode : node ∈ first :=
      hperm.mem_iff.mp (hsplit' ▸ List.mem_append_right _ List.mem_cons_self)
    obtain ⟨before, after, e, result, y, hsplit, hbefore, houtput, heval, hresult, hreads⟩ :=
      exists_step_of_mem hfirst hrun hnode
    rw [hsplit'] at hsecond
    obtain ⟨reached, -, hchecked⟩ := Graph.checkNodes_append hsecond
    have hlookup : ∀ index name, node.input? index = some name →
        e'.values.lookup name = e.values.lookup name := by
      intro index name hname
      have hread := Graph.not_mem_outputs_of_read hchecked hname
      rw [hagree name fun hmem => hread (boundNames_sub hmem), hreads index name hname]
    have hvalue : I.value e node 0 = I.value e' node 0 := by
      unfold Interpreter.value
      refine bind_congr_ok fun name hname => ?_
      rw [hlookup 0 name (operand_eq_ok_iff.mp hname)]
    have hsame : Prod.fst <$> I.evalNode e' node = .ok y := by
      rw [← heval]
      refine value_eq_of_agree hlookup fun hleaky x hx hreal => ?_
      rw [← hvalue] at hx
      exact (hformat before node after before' rest e e' hsplit hsplit' hleaky hbefore hbefore'
        hvalue x hx hreal).symm
    have hadvance := advance_of_value houtput hsame
    rw [List.foldlM_cons, hadvance]
    refine ih (before' ++ [node]) _ (by rw [hsplit', List.append_cons]) ?_ ?_
    · rw [List.foldlM_append, hbefore']
      show (I.advance e' node >>= pure) = _
      rw [hadvance]
      rfl
    · intro name hname
      by_cases heq : name = result
      · rw [heq, List.lookup_cons_self, hresult]
      · rw [lookup_cons_of_ne heq]
        refine hagree name ?_
        rw [boundNames, List.filterMap_cons_some houtput, List.mem_cons, not_or]
        exact ⟨heq, hname⟩

/-- Runs do not depend on the nodes that a graph has besides those that are run. -/
theorem advance_with_nodes (graph : Graph) (config : Config) (nodes : List Node) :
    advance ⟨{ graph with nodes }, config⟩ = advance ⟨graph, config⟩ := by
  funext e node
  have hsame : SameOperands ⟨{ graph with nodes }, config⟩ ⟨graph, config⟩ e e node :=
    ⟨rfl, rfl, fun _ _ _ => rfl, fun _ _ _ => rfl⟩
  unfold advance step
  rw [hsame.evalNode_eq]

/-- The environment of a run after some nodes. -/
def reached (interpreter : Interpreter) (input : Tensor) (nodes : List Node) :
    Except Error Environment := do
  let inputName ← interpreter.inputName?
  nodes.foldlM interpreter.advance ⟨[(inputName, input)], none⟩

/-- A node of a run reads real numbers, after the given ones. -/
def ReadsReals (interpreter : Interpreter) (input : Tensor) (before : List Node) (node : Node) :
    Prop :=
  ∃ environment x, interpreter.reached input before = .ok environment ∧
    interpreter.value environment node 0 = .ok x ∧ x.isInteger = false

end Interpreter

open Interpreter

/-- In another order of the nodes, each leaky rectifier that reads real numbers comes after a
quantized convolution that leaves the same format as in the graph, or after none in both. -/
def KeepsFormats (interpreter : Interpreter) (input : Tensor) (nodes : List Node) : Prop :=
  ∀ before node after before' after', interpreter.graph.nodes = before ++ node :: after →
    nodes = before' ++ node :: after' → node.operator = .leakyRelu →
    interpreter.ReadsReals input before node →
    interpreter.leftFormat before = interpreter.leftFormat before'

variable {graph : Graph} {config : Config} {nodes : List Node} {inputName : String} {input : Tensor}

/-- Both orders get past all of their nodes, with the same values, or neither does. -/
theorem agree_foldlM_advance (hgraph : graph.validate = .ok ())
    (hnodes : { graph with nodes : Graph }.validate = .ok ()) (hperm : nodes.Perm graph.nodes)
    (hname : inputName? ⟨graph, config⟩ = .ok inputName)
    (hformats : KeepsFormats ⟨graph, config⟩ input nodes) :
    Agree (fun e f : Environment => ∀ name, e.values.lookup name = f.values.lookup name)
      (graph.nodes.foldlM (advance ⟨graph, config⟩) ⟨[(inputName, input)], none⟩)
      (nodes.foldlM (advance ⟨graph, config⟩) ⟨[(inputName, input)], none⟩) := by
  obtain ⟨final, hfirst, -⟩ := Graph.nodes_of_validate hgraph
  obtain ⟨final', hsecond, -⟩ := Graph.nodes_of_validate hnodes
  set start : Environment := ⟨[(inputName, input)], none⟩
  -- the condition is on the first order; what is read there is read in the second one, too
  have hsame : ∀ before node after before' after' e e', graph.nodes = before ++ node :: after →
      nodes = before' ++ node :: after' → node.operator = .leakyRelu →
      before.foldlM (advance ⟨graph, config⟩) start = .ok e →
      before'.foldlM (advance ⟨graph, config⟩) start = .ok e' →
      ∀ x, value ⟨graph, config⟩ e node 0 = .ok x → x.isInteger = false →
      e.leakyFormat = e'.leakyFormat := by
    intro before node after before' after' e e' hsplit hsplit' hleaky he he' x hx hreal
    rw [leakyFormat_of_foldlM he, leakyFormat_of_foldlM he']
    have hreached : reached ⟨graph, config⟩ input before = .ok e := by
      rw [reached, hname]
      exact he
    exact hformats before node after before' after' hsplit hsplit' hleaky
      ⟨e, x, hreached, hx, hreal⟩
  cases hrun : graph.nodes.foldlM (advance ⟨graph, config⟩) start with
  | ok f =>
    obtain ⟨g, hg, hlookup⟩ := foldlM_advance_perm hperm hfirst hsecond
      (fun before node after before' after' e e' hsplit hsplit' hleaky he he' _ =>
        hsame before node after before' after' e e' hsplit hsplit' hleaky he he') hrun
    rw [hg]
    exact .ok fun name => (hlookup name).symm
  | error fault =>
    cases hrun' : nodes.foldlM (advance ⟨graph, config⟩) start with
    | error fault' => exact .error _ _
    | ok g =>
      obtain ⟨f, hf, -⟩ := foldlM_advance_perm hperm.symm hsecond hfirst
        (fun before node after before' after' e e' hsplit hsplit' hleaky he he' hvalue x hx hreal =>
          (hsame before' node after' before after e' e hsplit' hsplit hleaky he' he x
            (hvalue ▸ hx) hreal).symm) hrun'
      rw [hrun] at hf
      cases hf

/-- **The order of the nodes does not matter** to a run of a graph that declares an output, as long
as each leaky rectifier that reads real numbers finds the same format: with its nodes in another
order that passes the check, the graph gives the same tensor, or fails in both orders. -/
theorem run?_perm {I J : Interpreter} (hI : make? graph config = .ok I)
    (hJ : make? { graph with nodes } config = .ok J) (hperm : nodes.Perm graph.nodes)
    (houtput : graph.outputs ≠ []) (hformats : KeepsFormats I input nodes) :
    (J.run? input).toOption = (I.run? input).toOption := by
  obtain ⟨-, hgraph, rfl⟩ := make?_eq_ok_iff.mp hI
  obtain ⟨-, hnodes, rfl⟩ := make?_eq_ok_iff.mp hJ
  have hinput : inputName? ⟨{ graph with nodes }, config⟩ = inputName? ⟨graph, config⟩ := rfl
  have hresult : ∀ name, resultName ⟨{ graph with nodes }, config⟩ name
      = resultName ⟨graph, config⟩ name := by
    intro name
    obtain ⟨declaration, others, hdeclared⟩ := List.exists_cons_of_ne_nil houtput
    unfold resultName
    dsimp only
    rw [hdeclared]
    rfl
  suffices hagree : Agree (· = ·) (run? ⟨graph, config⟩ input)
      (run? ⟨{ graph with nodes }, config⟩ input) from hagree.toOption_eq.symm
  rw [run?_eq, run?_eq, hinput, advance_with_nodes]
  cases hname : inputName? ⟨graph, config⟩ with
  | error fault => exact .error _ _
  | ok inputName =>
    show Agree _ (graph.nodes.foldlM _ _ >>= _) (nodes.foldlM _ _ >>= _)
    refine (agree_foldlM_advance hgraph hnodes hperm hname hformats).bind ?_
    intro e f hlookup
    rw [hresult, hlookup]
    cases f.values.lookup (resultName ⟨graph, config⟩ inputName) with
    | none => exact .error _ _
    | some tensor => exact .ok rfl

/-- Whether an order keeps the formats can be seen without a run, unless it depends on which
rectifiers read real numbers. -/
theorem keepsFormats_of_leftFormat {I : Interpreter}
    (h : ∀ (i : Fin I.graph.nodes.length) (j : Fin nodes.length), I.graph.nodes[i] = nodes[j] →
      I.graph.nodes[i].operator = .leakyRelu →
      I.leftFormat (I.graph.nodes.take i) = I.leftFormat (nodes.take j)) (input : Tensor) :
    KeepsFormats I input nodes := by
  intro before node after before' after' hsplit hsplit' hleaky _
  have hi : before.length < I.graph.nodes.length := by simp [hsplit]
  have hj : before'.length < nodes.length := by simp [hsplit']
  have hnode : I.graph.nodes[before.length] = node := by simp [hsplit]
  have hnode' : nodes[before'.length] = node := by simp [hsplit']
  have hformat : I.leftFormat (I.graph.nodes.take before.length)
      = I.leftFormat (nodes.take before'.length) :=
    h ⟨before.length, hi⟩ ⟨before'.length, hj⟩ (hnode.trans hnode'.symm) (hnode ▸ hleaky)
  rwa [hsplit, hsplit', List.take_left, List.take_left] at hformat

/-! ### A branching graph -/

/-- The input, quantized at scale one. -/
def branchQuantizer : Node :=
  .make .quantizeLinear "q" ["x", "s", "z"] ["xq"]

/-- A convolution of the quantized input, with all scales one. -/
def branchConvolution : Node :=
  .make .qlinearConv "c" ["xq", "s", "z", "w", "s", "z", "s", "z"] ["yq"]

/-- A leaky rectifier that reads the input itself. -/
def branchLeaky : Node :=
  .make .leakyRelu "l" ["x"] ["y"]

/-- Another rectifier of the input. -/
def branchRelu : Node :=
  .make .relu "r" ["x"] ["r"]

/-- The graph of these nodes in a given order.  The weights have scale one, so what the convolution
leaves behind is a format of integers. -/
def branching (nodes : List Node) : Graph :=
  { name := "branching"
    opset := 11
    inputs := [.ofName "x"]
    outputs := [.ofName "y"]
    nodes
    initializers :=
      .ofList [("s", .scalarReal (.ofInt 1)), ("z", .zeroPoint),
        ("w", ⟨[1, 1, 1, 1], .ints .i8 #[1], rfl, by decide +kernel⟩)] }

/-- The order in which the rectifiers come last. -/
def convolutionFirst : List Node :=
  [branchQuantizer, branchConvolution, branchLeaky, branchRelu]

/-- Whatever does not read a format may be moved: with the other rectifier in front, minus one
eighth is still rounded to an integer. -/
theorem run?_perm_branching :
    ∃ I J, make? (branching convolutionFirst) {} = .ok I ∧
      make? (branching [branchRelu, branchQuantizer, branchConvolution, branchLeaky]) {} = .ok J ∧
      [branchRelu, branchQuantizer, branchConvolution, branchLeaky].Perm convolutionFirst ∧
      KeepsFormats I (.oneReal 4 (.ofInt (-1)))
        [branchRelu, branchQuantizer, branchConvolution, branchLeaky] ∧
      (J.run? (.oneReal 4 (.ofInt (-1)))).toOption = some (.oneReal 4 (.zero true)) := by
  have hconfig : Config.validate {} = .ok () := by decide +kernel
  have hI : make? (branching convolutionFirst) {} = .ok ⟨branching convolutionFirst, {}⟩ :=
    make?_eq_ok_iff.mpr ⟨hconfig, by decide +kernel, rfl⟩
  have hJ : make? (branching [branchRelu, branchQuantizer, branchConvolution, branchLeaky]) {} = .ok
      ⟨branching [branchRelu, branchQuantizer, branchConvolution, branchLeaky], {}⟩ :=
    make?_eq_ok_iff.mpr ⟨hconfig, by decide +kernel, rfl⟩
  have hperm : [branchRelu, branchQuantizer, branchConvolution, branchLeaky].Perm
      convolutionFirst := by decide +kernel
  have hformats : KeepsFormats ⟨branching convolutionFirst, {}⟩ (.oneReal 4 (.ofInt (-1)))
      [branchRelu, branchQuantizer, branchConvolution, branchLeaky] :=
    keepsFormats_of_leftFormat (by decide +kernel) _
  refine ⟨_, _, hI, hJ, hperm, hformats, ?_⟩
  rw [run?_perm hI hJ hperm (by decide) hformats]
  decide +kernel

/-- The format goes with the order: after the convolution minus one eighth is rounded to an
integer, and before it it is not. -/
theorem run?_ne_swapped :
    ∃ I J, make? (branching convolutionFirst) {} = .ok I ∧
      make? (branching [branchQuantizer, branchLeaky, branchConvolution, branchRelu]) {} = .ok J ∧
      [branchQuantizer, branchLeaky, branchConvolution, branchRelu].Perm convolutionFirst ∧
      (branching convolutionFirst).outputs ≠ [] ∧
      (I.run? (.oneReal 4 (.ofInt (-1)))).toOption = some (.oneReal 4 (.zero true)) ∧
      (J.run? (.oneReal 4 (.ofInt (-1)))).toOption = some (.oneReal 4 (.ofRat (-1 / 8))) ∧
      Tensor.oneReal 4 (.zero true) ≠ .oneReal 4 (.ofRat (-1 / 8)) := by
  have hconfig : Config.validate {} = .ok () := by decide +kernel
  exact ⟨_, _, make?_eq_ok_iff.mpr ⟨hconfig, by decide +kernel, rfl⟩,
    make?_eq_ok_iff.mpr ⟨hconfig, by decide +kernel, rfl⟩, by decide +kernel, by decide,
    by decide +kernel, by decide +kernel, by decide +kernel⟩

end Eval

end DyadicNet
