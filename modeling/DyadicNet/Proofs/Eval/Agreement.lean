import Mathlib
import DyadicNet.Eval.Interpreter
import DyadicNet.Proofs.Eval.Quantized
import DyadicNet.Proofs.Except

/-!
# What the evaluation of a node depends on

A node is evaluated in an environment and against the constants of a graph.  Of both it sees only
**what stands under the names of its operands**: with the same values and constants there, the same
settings and the same format for leaky rectifiers, a node has the same value in another environment
and another graph, and fails in the same way.

The operators themselves see even less.  Of the node they are given they read the attributes, and its
names only for the wording of an error; nodes with the same attributes have the same successes.

## Main Definitions

* `Interpreter.SameOperands` — that a node sees the same in two evaluations;
* `Interpreter.advance` — the environment after a node.

## Main Statements

* `checkKernel_congr`, `quantizeTensor_congr`, `dequantizeTensor_congr` — operators under other
  names;
* `Interpreter.SameOperands.evalNode_eq` — a node that sees the same does the same;
* `Interpreter.run?_eq` — a run as a fold over the nodes.
-/

namespace DyadicNet

/-! ### Operators under other names -/

namespace Node

variable {m n : Node}

theorem ints?_congr (h : m.attributes = n.attributes) {name : String} {values : Option (List ℤ)} :
    m.ints? name = .ok values ↔ n.ints? name = .ok values := by
  unfold ints?
  rw [h]
  cases n.attributes.get? name with
  | none => rfl
  | some setting =>
    cases setting with
    | int value => rfl
    | ints given => rfl
    | real value => exact ⟨nofun, nofun⟩
    | reals given => exact ⟨nofun, nofun⟩
    | text value => exact ⟨nofun, nofun⟩

theorem pair?_congr (h : m.attributes = n.attributes) {name : String} {pair : Option Extents} :
    m.pair? name = .ok pair ↔ n.pair? name = .ok pair := by
  unfold pair?
  simp only [bind_eq_ok_iff, ints?_congr h]
  refine exists_congr fun given => and_congr_right fun _ => ?_
  cases given with
  | none => rfl
  | some values =>
    rcases values with _ | ⟨a, _ | ⟨b, _ | ⟨c, rest⟩⟩⟩
    · exact ⟨nofun, nofun⟩
    · dsimp only
      split_ifs
      · rfl
      · exact ⟨nofun, nofun⟩
    · dsimp only
      split_ifs
      · rfl
      · exact ⟨nofun, nofun⟩
    · exact ⟨nofun, nofun⟩

theorem strides?_congr (h : m.attributes = n.attributes) {stride : Extents} :
    m.strides? = .ok stride ↔ n.strides? = .ok stride := by
  unfold strides?
  simp only [bind_eq_ok_iff, pair?_congr h]

theorem pads?_congr (h : m.attributes = n.attributes) {padding : Padding} :
    m.pads? = .ok padding ↔ n.pads? = .ok padding := by
  unfold pads?
  simp only [bind_eq_ok_iff, ints?_congr h]
  refine exists_congr fun given => and_congr_right fun _ => ?_
  cases given with
  | none => rfl
  | some values =>
    dsimp only
    rw [mapError_eq_ok_iff, mapError_eq_ok_iff]

end Node

namespace Eval

variable {m n : Node}

theorem checkKernel_congr (h : m.attributes = n.attributes) {ws : Nchw} {u : Unit} :
    checkKernel m ws = .ok u ↔ checkKernel n ws = .ok u := by
  unfold checkKernel ofGraph
  simp only [bind_eq_ok_iff, mapError_eq_ok_iff, Node.ints?_congr h]
  refine exists_congr fun given => and_congr_right fun _ => ?_
  cases given with
  | none => rfl
  | some declared =>
    dsimp only
    split_ifs
    · exact ⟨nofun, nofun⟩
    · rfl

theorem quantizeTensor_congr (m n : Node) {scale : Binary64} {type : IntType} {bits : ℕ}
    {x y : Tensor} :
    quantizeTensor m scale type bits x = .ok y ↔ quantizeTensor n scale type bits x = .ok y := by
  have hvalue : ∀ v k, quantizeValue m scale bits v = .ok k ↔ quantizeValue n scale bits v = .ok k := by
    intro v k
    unfold quantizeValue
    split_ifs
    · rfl
    · exact ⟨nofun, nofun⟩
  unfold quantizeTensor
  simp only [bind_eq_ok_iff, mapM_eq_ok_congr hvalue]

theorem dequantizeTensor_congr (m n : Node) {scale : Binary64} {x y : Tensor} :
    dequantizeTensor m scale x = .ok y ↔ dequantizeTensor n scale x = .ok y := by
  unfold dequantizeTensor
  simp only [bind_eq_ok_iff, integers_eq_ok_iff]

end Eval

/-! ### Operands -/

theorem Quantize.Params.ofConstants?_congr {g h : Graph} {scaleName zeroPointName : String}
    (hscale : g.initializers.get? scaleName = h.initializers.get? scaleName)
    (hzero : g.initializers.get? zeroPointName = h.initializers.get? zeroPointName)
    (node : String) :
    ofConstants? g node scaleName zeroPointName = ofConstants? h node scaleName zeroPointName := by
  unfold ofConstants? Graph.scalar? Graph.constant?
  rw [hscale, hzero]

namespace Eval.Interpreter

variable {I J : Interpreter} {e f : Environment} {node : Node}

theorem operand_eq_ok_iff {index : ℕ} {name : String} :
    operand node index = .ok name ↔ node.input? index = some name := by
  unfold operand
  cases node.input? index with
  | none => exact ⟨nofun, nofun⟩
  | some given => simp

theorem operand_eq_ok {i : ℕ} {name : String} (h : node.input? i = some name) : operand node i = .ok name :=
  operand_eq_ok_iff.mpr h

theorem value_eq_ok_iff {i : ℕ} {x : Tensor} :
    I.value e node i = .ok x ↔ ∃ name, node.input? i = some name ∧
      (e.values.lookup name).or (I.graph.initializers.get? name) = some x := by
  unfold Interpreter.value
  simp only [bind_eq_ok_iff, operand_eq_ok_iff]
  refine exists_congr fun name => and_congr_right fun _ => ?_
  cases (e.values.lookup name).or (I.graph.initializers.get? name) with
  | none => exact ⟨nofun, nofun⟩
  | some tensor => simp

theorem constant_eq_ok {name : String} {tensor : Tensor}
    (h : I.graph.initializers.get? name = some tensor) :
    I.constant node name = .ok tensor := by
  unfold Interpreter.constant Graph.constant?
  rw [h]
  rfl

theorem params_eq_ok_iff {i j : ℕ} {params : Quantize.Params} :
    I.params node i j = .ok params ↔ ∃ scaleName, node.input? i = some scaleName ∧
      ∃ zeroPointName, node.input? j = some zeroPointName ∧
        Quantize.Params.ofConstants? I.graph node.label scaleName zeroPointName = .ok params := by
  unfold Interpreter.params
  simp only [bind_eq_ok_iff, operand_eq_ok_iff, mapError_eq_ok_iff]

/-- A node sees the same in two evaluations. -/
structure SameOperands (I J : Interpreter) (e f : Environment) (node : Node) : Prop where
  config_eq : I.config = J.config
  leakyFormat_eq : e.leakyFormat = f.leakyFormat
  lookup_eq : ∀ index name, node.input? index = some name →
    e.values.lookup name = f.values.lookup name
  get?_eq : ∀ index name, node.input? index = some name →
    I.graph.initializers.get? name = J.graph.initializers.get? name

namespace SameOperands

variable (h : SameOperands I J e f node)
include h

theorem value_eq (index : ℕ) : I.value e node index = J.value f node index := by
  unfold value
  apply bind_congr_ok
  intro name hname
  have hinput := operand_eq_ok_iff.mp hname
  rw [h.lookup_eq index name hinput, h.get?_eq index name hinput]

theorem constant_eq {index : ℕ} {name : String} (hname : node.input? index = some name) :
    I.constant node name = J.constant node name := by
  unfold constant Graph.constant?
  rw [h.get?_eq index name hname]

theorem params_eq (scale zeroPoint : ℕ) :
    I.params node scale zeroPoint = J.params node scale zeroPoint := by
  unfold Interpreter.params
  apply bind_congr_ok
  intro scaleName hscale
  apply bind_congr_ok
  intro zeroPointName hzero
  rw [Quantize.Params.ofConstants?_congr (h.get?_eq _ _ (operand_eq_ok_iff.mp hscale))
    (h.get?_eq _ _ (operand_eq_ok_iff.mp hzero))]

theorem quantizedType_eq (zeroPoint : ℕ) :
    I.quantizedType node zeroPoint = J.quantizedType node zeroPoint := by
  unfold quantizedType
  rw [h.config_eq]
  apply bind_congr_ok
  intro name hname
  rw [h.constant_eq (operand_eq_ok_iff.mp hname)]

theorem bias_eq (channels : ℕ) : I.bias node channels = J.bias node channels := by
  unfold Interpreter.bias
  cases hname : node.input? 8 with
  | none => rfl
  | some name =>
    dsimp only
    rw [h.constant_eq hname]

theorem operands_eq (x : Tensor) : I.operands node x = J.operands node x := by
  unfold Interpreter.operands
  rw [h.params_eq, h.params_eq, h.params_eq, h.quantizedType_eq]
  -- up to the name of the weights both sides are the same
  iterate 5 refine bind_congr_ok fun _ _ => ?_
  apply bind_congr_ok
  intro weightName hname
  rw [h.constant_eq (operand_eq_ok_iff.mp hname)]
  iterate 3 refine bind_congr_ok fun _ _ => ?_
  rw [h.bias_eq]

theorem convolution_eq (x : Tensor) : I.convolution node x = J.convolution node x := by
  unfold convolution
  rw [h.operands_eq]

theorem activationFormat_eq (weights : Quantize.Params) :
    I.activationFormat weights = J.activationFormat weights := by
  unfold activationFormat
  rw [h.config_eq]

theorem quantize_eq (x : Tensor) : I.quantize node x = J.quantize node x := by
  unfold quantize
  rw [h.params_eq, h.quantizedType_eq]

theorem dequantize_eq (x : Tensor) : I.dequantize node x = J.dequantize node x := by
  unfold dequantize
  rw [h.params_eq]

theorem padNode_eq (x : Tensor) : I.padNode node x = J.padNode node x := by
  have hpadding : I.padding node = J.padding node := by
    unfold Interpreter.padding
    cases hname : node.input? 1 with
    | none => rfl
    | some name =>
      dsimp only
      rw [h.constant_eq hname]
  unfold padNode
  rw [hpadding]

/-- A node that sees the same does the same. -/
theorem evalNode_eq : I.evalNode e node = J.evalNode f node := by
  unfold evalNode
  rw [h.leakyFormat_eq, h.config_eq]
  cases node.operator with
  | qlinearConv =>
    simp only [h.value_eq, h.convolution_eq, h.activationFormat_eq]
  | quantizeLinear => simp only [h.value_eq, h.quantize_eq]
  | dequantizeLinear => simp only [h.value_eq, h.dequantize_eq]
  | pad => simp only [h.value_eq, h.padNode_eq]
  | maxPool => simp only [h.value_eq]
  | globalAveragePool => simp only [h.value_eq]
  | relu => simp only [h.value_eq]
  | leakyRelu => simp only [h.value_eq]
  | conv => rfl
  | other name => rfl

end SameOperands

/-! ### Runs -/

/-- An interpreter is a graph and a configuration that have passed their checks. -/
theorem make?_eq_ok_iff {graph : Graph} {config : Config} :
    make? graph config = .ok I ↔
      config.validate = .ok () ∧ graph.validate = .ok () ∧ I = ⟨graph, config⟩ := by
  unfold make? ofGraph
  simp only [bind_eq_ok_iff, mapError_eq_ok_iff, Except.ok.injEq]
  constructor
  · rintro ⟨⟨⟩, hconfig, ⟨⟩, hgraph, rfl⟩
    exact ⟨hconfig, hgraph, rfl⟩
  · rintro ⟨hconfig, hgraph, rfl⟩
    exact ⟨(), hconfig, (), hgraph, rfl⟩

variable {result : String}

/-- The environment after a node. -/
def advance (interpreter : Interpreter) (environment : Environment) (node : Node) :
    Except Error Environment :=
  Prod.fst <$> interpreter.step environment node

/-- The value of a node is bound to the name of its first result. -/
theorem advance_eq (h : node.output? = some result) :
    I.advance e node
      = I.evalNode e node >>= fun value => .ok ⟨(result, value.1) :: e.values, value.2⟩ := by
  unfold advance step
  rw [h]
  cases I.evalNode e node with
  | error fault => rfl
  | ok value => rfl

/-- A node that reads a value does not get anywhere without it. -/
theorem advance_ne_ok (hoperator : node.operator = .qlinearConv) (h : node.input? 0 = none) :
    I.advance e node ≠ .ok f := by
  unfold advance step evalNode Interpreter.value operand
  rw [hoperator, h]
  nofun

/-- A run gets past all of its nodes or fails. -/
theorem foldlM_advance_ne_ok {nodes : List Node} (hnode : node ∈ nodes)
    (h : ∀ e f, I.advance e node ≠ .ok f) : ∀ e f, nodes.foldlM I.advance e ≠ .ok f := by
  induction nodes with
  | nil => cases hnode
  | cons first rest ih =>
    intro e f hok
    rw [List.foldlM_cons] at hok
    obtain ⟨middle, hfirst, hrest⟩ := bind_eq_ok_iff.mp hok
    rcases List.mem_cons.mp hnode with rfl | hlater
    · exact h e middle hfirst
    · exact ih hlater middle f hrest

/-- The environment after a list of nodes. -/
theorem fst_steps (I : Interpreter) (e : Environment) (nodes : List Node) :
    Prod.fst <$> I.steps e nodes = nodes.foldlM I.advance e := by
  induction nodes generalizing e with
  | nil => rfl
  | cons node rest ih =>
    rw [List.foldlM_cons, steps, advance]
    cases I.step e node with
    | error fault => rfl
    | ok value =>
      show Prod.fst <$> (I.steps value.1 rest >>= fun r => .ok (r.1, _)) = _
      show _ = rest.foldlM I.advance value.1
      rw [← ih]
      cases I.steps value.1 rest with
      | error fault => rfl
      | ok last => rfl

/-- A run is over its nodes, and then one name is looked up. -/
theorem run?_eq (I : Interpreter) (input : Tensor) :
    I.run? input
      = I.inputName? >>= fun inputName =>
        I.graph.nodes.foldlM I.advance ⟨[(inputName, input)], none⟩ >>= fun environment =>
        match environment.values.lookup (I.resultName inputName) with
        | some result => .ok result
        | none => .error (.missingValue I.graph.name (I.resultName inputName)) := by
  unfold run? execute?
  cases I.inputName? with
  | error fault => rfl
  | ok inputName =>
    show Prod.fst <$> (I.steps _ I.graph.nodes >>= _) = (I.graph.nodes.foldlM I.advance _ >>= _)
    rw [← fst_steps]
    cases I.steps ⟨[(inputName, input)], none⟩ I.graph.nodes with
    | error fault => rfl
    | ok last =>
      show Prod.fst <$> (match last.1.values.lookup (I.resultName inputName) with
        | some result => _ | none => _) = match last.1.values.lookup _ with
        | some result => _ | none => _
      cases last.1.values.lookup (I.resultName inputName) with
      | none => rfl
      | some tensor => rfl

end Eval.Interpreter

end DyadicNet
