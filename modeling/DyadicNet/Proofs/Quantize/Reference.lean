import DyadicNet.Eval.Interpreter
import DyadicNet.Quantize.Conversion

/-!
# What a graph means once its layers are quantized

A conversion replaces nodes, adds constants and drops others.  What the result is meant to compute
can be said **without the new graph**: walk over the nodes of the old one, and evaluate a convolution
by quantizing its data, convolving the integers with the weights of its layer, and turning the result
back into real numbers.  Every other node is evaluated as it is.

A tensor is quantized once.  Either the graph does it itself, by a node that is evaluated before the
convolution, or the first convolution that reads the tensor does it.

## Main Definitions

* `Reference.State` — the values so far, and the quantized tensors with their parameters;
* `Reference.conv`, `Reference.keep` — the meaning of a node;
* `Reference.run?` — the meaning of a graph;
* `recorded` — the name under which each tensor is quantized;
* `Fresh`, `InputsFresh` — that the names which a conversion introduces do not occur in the graph,
  or not among its data inputs;
* `ReadsNamed` — that the quantizers of a graph that a conversion uses have a name for their result.
-/

namespace DyadicNet.Quantize

open Eval (Interpreter Operands)

/-! ### The meaning of a graph -/

namespace Reference

/-- A quantized tensor and what its integers stand for. -/
structure Quantized where
  tensor : Tensor
  params : Params

/-- What is known between two nodes. -/
structure State where
  environment : Eval.Environment
  /-- The tensors that have been quantized. -/
  quantized : List (String × Quantized)

variable (interpreter : Interpreter)

/-- The type of the integers of activations. -/
def activationType : IntType :=
  .forBits interpreter.config.activationBits

/-- The width to which activations are clamped. -/
def activationWidth : Nat :=
  min interpreter.config.activationBits (activationType interpreter).bits

/-- The quantized data of a convolution: what has been recorded for the tensor, or else the tensor
quantized under the given parameters, which is recorded. -/
def source (state : State) (node : Node) (params : Params) :
    Except Eval.Error (State × Quantized) := do
  let name ← Interpreter.operand node 0
  match state.quantized.lookup name with
  | some quantized => .ok (state, quantized)
  | none => do
    let x ← interpreter.value state.environment node 0
    let tensor ←
      Eval.quantizeTensor node params.scale (activationType interpreter)
        (activationWidth interpreter) x
    .ok ({ state with quantized := state.quantized ++ [(name, ⟨tensor, params⟩)] },
      ⟨tensor, params⟩)

/-- What the quantized convolution of a layer is computed from.  The attributes are those of the
convolution that it stands for. -/
def operands (node : Node) (layer : Layer) (data : Quantized) (output : Params) :
    Except Eval.Error Operands := do
  let values ← Eval.integers node data.tensor
  let weights ← Eval.integers node layer.weights
  let weightShape ← Eval.Nchw.ofShape? layer.weights.shape
  let bias ← Eval.integers node layer.bias
  Eval.checkKernel node weightShape
  let dataShape ← Eval.Nchw.ofShape? data.tensor.shape
  let padding ← Eval.ofGraph node.pads?
  let (padded, paddedShape) ← Eval.Kernel.pad? dataShape padding 0 values
  Eval.checkShifts node
    (.ofExponents data.params.exponent layer.params.exponent output.exponent)
  let stride ← Eval.ofGraph node.strides?
  .ok
    { data := values
      dataShape
      dataParams := data.params
      weights
      weightShape
      weightParams := layer.params
      bias
      outputParams := output
      type := activationType interpreter
      bits := activationWidth interpreter
      padding
      padded
      paddedShape
      stride }

/-- The quantized convolution of a layer, and the way back to real numbers.  It leaves behind the
format in which leaky rectifiers after it round. -/
def layer (state : State) (node : Node) (analyzed : Analyzed) (data : Quantized) (output : Params) :
    Except Eval.Error State := do
  let operands ← operands interpreter node analyzed.layer data output
  let y ← operands.result
  let leakyFormat ← interpreter.activationFormat analyzed.layer.params
  let real ← Eval.dequantizeTensor node output.scale y
  .ok
    { state with
      environment := ⟨(analyzed.output, real) :: state.environment.values, some leakyFormat⟩ }

/-- The meaning of a convolution under the parameters that are reported for it. -/
def conv (state : State) (node : Node) (report : LayerReport) : Except Eval.Error State := do
  let analyzed ←
    (analyzeConv interpreter.graph interpreter.config.weightBits node).mapError .quantize
  let (state, data) ← source interpreter state node report.input
  layer interpreter state node analyzed data report.output

/-- The meaning of any other node.  What a quantizer gives is recorded for the tensor that it reads,
unless that tensor has been quantized before. -/
def keep (state : State) (node : Node) : Except Eval.Error State := do
  let (environment, y) ← interpreter.step state.environment node
  if node.operator = .quantizeLinear then
    let name ← Interpreter.operand node 0
    let params ← interpreter.params node 1 2
    if (state.quantized.lookup name).isSome then .ok { state with environment }
    else .ok ⟨environment, state.quantized ++ [(name, ⟨y, params⟩)]⟩
  else .ok { state with environment }

/-- The state after a list of nodes; the reports are those of its convolutions. -/
def steps : State → List LayerReport → List Node → Except Eval.Error State
  | state, _, [] => .ok state
  | state, reports, node :: rest =>
    if node.operator = .conv then
      match reports with
      | report :: reports => do steps (← conv interpreter state node report) reports rest
      | [] => .error (.floatConvolution node.label)
    else do steps (← keep interpreter state node) reports rest

/-- The meaning of a graph for an input. -/
def run? (reports : List LayerReport) (input : Tensor) : Except Eval.Error Tensor := do
  let inputName ← interpreter.inputName?
  let start : State := ⟨⟨[(inputName, input)], none⟩, []⟩
  let state ← steps interpreter start reports interpreter.graph.nodes
  let name := interpreter.resultName inputName
  match state.environment.values.lookup name with
  | some result => .ok result
  | none => .error (.missingValue interpreter.graph.name name)

end Reference

/-! ### Names -/

/-- The names of a graph: its inputs, its constants and the results of its nodes. -/
def occurringNames (graph : Graph) : List String :=
  graph.externalNames ++ graph.nodes.flatMap Node.outputs

/-- The names under which tensors are quantized, after one more node.  A convolution quantizes its
data under a derived name; a quantizer that has everything one needs does so under the name of its
result.  The first one counts. -/
def record (names : List (String × String)) (node : Node) : List (String × String) :=
  let add (input output : String) :=
    if (names.lookup input).isSome then names else names ++ [(input, output)]
  match node.operator, node.input? 0, node.output?, node.input? 1, node.input? 2 with
  | .conv, some input, _, _, _ => add input (input ++ "_quant")
  | .quantizeLinear, some input, some output, some _, some _ => add input output
  | _, _, _, _, _ => names

/-- The names under which tensors are quantized, after a list of nodes. -/
def recorded (nodes : List Node) : List (String × String) :=
  nodes.foldl record []

/-- The names that the quantizer of a tensor introduces. -/
def quantizerNames (input : String) : List String :=
  let output := input ++ "_quant"
  [output, Derived.scaleName output, Derived.zeroPointName output]

/-- The names of the constants of a layer. -/
def layerNames (label : String) : List String :=
  let weights := label ++ "_quant_weights"
  let output := label ++ "_quant"
  let result := Walk.dequantName label
  [weights, Derived.scaleName weights, Derived.zeroPointName weights, Derived.scaleName output,
    Derived.zeroPointName output, label ++ "_quant_bias", Derived.scaleName result,
    Derived.zeroPointName result]

/-- The names that a convolution introduces, when tensors are quantized under the given names. -/
def introduced (names : List (String × String)) (node : Node) : List String :=
  match node.operator, node.input? 0 with
  | .conv, some input =>
    (if (names.lookup input).isSome then [] else quantizerNames input)
      ++ (Walk.dequantName node.label :: layerNames node.label)
  | _, _ => []

/-- No name that a conversion introduces occurs in the graph. -/
def Fresh (graph : Graph) : Prop :=
  ∀ before node after, graph.nodes = before ++ node :: after →
    ∀ name ∈ introduced (recorded before) node, name ∉ occurringNames graph

/-- No data input of the graph has a name that a conversion introduces. -/
def InputsFresh (graph : Graph) : Prop :=
  ∀ before node after, graph.nodes = before ++ node :: after →
    ∀ name ∈ introduced (recorded before) node, name ∉ graph.dataInputs.map (·.name)

/-- No convolution reads data that is quantized without a name.  A name that is left out is empty, so
what stands under it cannot be an operand. -/
def ReadsNamed (graph : Graph) : Prop :=
  ∀ before node after, graph.nodes = before ++ node :: after → node.operator = .conv →
    ∀ input ∈ node.input? 0, (recorded before).lookup input ≠ some ""

/-- The places in a list are its splits into what comes before, an element and what comes after. -/
theorem forall_split_iff {α : Type} {l : List α} {P : List α → α → Prop} :
    (∀ before a after, l = before ++ a :: after → P before a) ↔
      ∀ i : Fin l.length, P (l.take i) l[i] := by
  constructor
  · intro h i
    refine h (l.take i) l[i] (l.drop (i + 1)) ?_
    rw [Fin.getElem_fin, List.getElem_cons_drop, List.take_append_drop]
  · rintro h before a after rfl
    have hi : before.length < (before ++ a :: after).length := by simp
    have := h ⟨before.length, hi⟩
    simpa using this

instance (graph : Graph) : Decidable (Fresh graph) :=
  decidable_of_iff _ forall_split_iff.symm

instance (graph : Graph) : Decidable (InputsFresh graph) :=
  decidable_of_iff _ forall_split_iff.symm

instance (graph : Graph) : Decidable (ReadsNamed graph) :=
  decidable_of_iff _ forall_split_iff.symm

end DyadicNet.Quantize
