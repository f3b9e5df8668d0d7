import DyadicNet.Config
import DyadicNet.Graph.Validation
import DyadicNet.Quantize.Analysis
import DyadicNet.Quantize.Derived

/-!
# From real convolutions to quantized ones

The conversion replaces every convolution by three nodes: one that quantizes its data, the quantized
convolution, and one that turns the result back into real numbers under the name of the
convolution's output.  A tensor is quantized once, by whichever node does it first; a quantizer that
the graph has already is used like one that was put in.

First all convolutions are analyzed; the analysis reads the graph as it is.  Then the nodes are
walked in their order, because **the output scale of each layer is the input scale of the next**.

## Main definitions

* `Analyzed` — a convolution with its layer;
* `Walk` — what is known between two nodes; `Walk.node` — the nodes that stand for one node;
* `Report` — the new graph and a summary of every layer;
* `convert`, `quantize` — the whole, without and with a check of the configuration.
-/

namespace DyadicNet.Quantize

/-! ### Analysis -/

/-- A convolution that can be quantized. -/
structure Analyzed where
  /-- The name of its data. -/
  input : String
  /-- The name of its weights. -/
  weights : String
  /-- The name of its bias. -/
  bias : String
  /-- The name of its result. -/
  output : String
  layer : Layer

/-- What a lookup gives, or the fault of a node. -/
def orFault {α : Type} (node : Node) (fault : NodeFault) : Option α → Except Error α
  | some a => .ok a
  | none => .error (.malformedNode node.label fault)

/-- The constant that a convolution needs. -/
def constant? (graph : Graph) (node : Node) (name : String) : Except Error Tensor :=
  match graph.initializers.get? name with
  | some tensor => .ok tensor
  | none => .error (.missingInitializer node.label name)

/-- The layer of a convolution.  The operands are looked at in their order, then the result, then
the constants. -/
def analyzeConv (graph : Graph) (totalBits : Nat) (node : Node) : Except Error Analyzed := do
  let input ← orFault node .missingData (node.input? 0)
  let weights ← orFault node .missingWeights (node.input? 1)
  let bias ← orFault node .missingBias (node.input? 2)
  let output ← orFault node .missingOutput node.output?
  let weightTensor ← constant? graph node weights
  let biasTensor ← constant? graph node bias
  let layer ← analyze node.label weightTensor biasTensor totalBits
  .ok { input, weights, bias, output, layer }

/-- Each node, with its layer if it is a convolution. -/
def analyzeAll (graph : Graph) (totalBits : Nat) : Except Error (List (Node × Option Analyzed)) :=
  graph.nodes.mapM fun node =>
    if node.operator = .conv then
      (analyzeConv graph totalBits node).map fun analyzed => (node, some analyzed)
    else .ok (node, none)

/-! ### Quantizers -/

/-- A quantized tensor that convolutions can read. -/
structure Quantizer where
  /-- The name of the quantized tensor. -/
  output : String
  /-- The name of its scale. -/
  scale : String
  /-- The name of its zero point. -/
  zeroPoint : String
  params : Params

namespace Quantizer

/-- The quantizer that the conversion puts in for a tensor. -/
def derived (input : String) (params : Params) : Quantizer :=
  let output := input ++ "_quant"
  ⟨output, Derived.scaleName output, Derived.zeroPointName output, params⟩

/-- The node of a quantizer that reads the given tensor. -/
def node (quantizer : Quantizer) (input : String) : Node :=
  .make .quantizeLinear quantizer.output [input, quantizer.scale, quantizer.zeroPoint]
    [quantizer.output]

/-- The quantizer that a node of the graph is, with the tensor that it reads, if the node has all
that one needs. -/
def ofNode? (graph : Graph) (node : Node) : Except Error (Option (String × Quantizer)) :=
  match node.input? 0, node.output?, node.input? 1, node.input? 2 with
  | some input, some output, some scale, some zeroPoint => do
    let params ← Params.ofConstants? graph node.label scale zeroPoint
    .ok (some (input, ⟨output, scale, zeroPoint, params⟩))
  | _, _, _, _ => .ok none

end Quantizer

/-! ### The walk over the nodes -/

/-- A summary of a converted convolution. -/
structure LayerReport where
  /-- What the convolution was called. -/
  node : String
  format : FixedPoint.Format
  input : Params
  output : Params
  stats : Stats
deriving DecidableEq

/-- What is known between two nodes of the walk. -/
structure Walk where
  /-- The constants added so far. -/
  derived : Derived
  /-- The quantizer of each tensor that has one. -/
  quantizers : List (String × Quantizer)
  /-- The parameters of the last layer's output, or those of the network's input. -/
  propagated : Params
  /-- The names of the constants that are not needed any more. -/
  superseded : List String
  /-- The layers so far. -/
  layers : List LayerReport
  /-- How many quantizers were put in. -/
  quantizeNodes : Nat

/-- The element types of a quantized graph. -/
structure Types where
  weight : DType
  activation : DType

namespace Walk

/-- The names of the operands of the quantized convolution called `label`. -/
def operandNames (label : String) (source : Quantizer) : List String :=
  let weights := label ++ "_quant_weights"
  let output := label ++ "_quant"
  [source.output, source.scale, source.zeroPoint, weights, Derived.scaleName weights,
    Derived.zeroPointName weights, Derived.scaleName output, Derived.zeroPointName output,
    label ++ "_quant_bias"]

/-- The name of the integers that the quantized convolution called `label` gives. -/
def dequantName (label : String) : String :=
  label ++ "_dequant"

/-- The quantized convolution that stands for a node. -/
def convolution (node : Node) (source : Quantizer) : Node :=
  { operator := .qlinearConv
    name := node.label ++ "_qconv"
    inputs := operandNames node.label source
    outputs := [dequantName node.label]
    attributes := node.attributes }

/-- The node that turns the result of the quantized convolution back into real numbers. -/
def dequantizer (node : Node) (output : String) : Node :=
  let name := dequantName node.label
  .make .dequantizeLinear name [name, Derived.scaleName name, Derived.zeroPointName name] [output]

/-- The quantizer of a tensor, and the node that has to be put in for it if it is new. -/
def source (types : Types) (walk : Walk) (label input : String) :
    Except Error (Walk × Quantizer × List Node) :=
  match walk.quantizers.lookup input with
  | some quantizer => .ok (walk, quantizer, [])
  | none => do
    let quantizer := Quantizer.derived input walk.propagated
    let derived ←
      walk.derived.addParams? label quantizer.output quantizer.params types.activation
    .ok
      ({ walk with
          derived
          quantizers := walk.quantizers ++ [(input, quantizer)]
          quantizeNodes := walk.quantizeNodes + 1 },
        quantizer, [quantizer.node input])

/-- The constants of a layer added to those so far. -/
def addLayer (types : Types) (derived : Derived) (label : String) (layer : Layer)
    (output : Params) : Except Error Derived := do
  let weights := label ++ "_quant_weights"
  let derived ← derived.add? label weights layer.weights
  let derived ← derived.addParams? label weights layer.params types.weight
  let derived ← derived.addParams? label (label ++ "_quant") output types.activation
  let derived ← derived.add? label (label ++ "_quant_bias") layer.bias
  derived.addParams? label (dequantName label) output types.activation

/-- The nodes that stand for a convolution. -/
def conv (types : Types) (totalBits : Nat) (walk : Walk) (node : Node) (analyzed : Analyzed) :
    Except Error (Walk × List Node) := do
  let label := node.label
  let (walk, source, quantize) ← walk.source types label analyzed.input
  let stats := analyzed.layer.stats
  let output ← propagateScale? label source.params stats.meanAbsValue totalBits
  let derived ← addLayer types walk.derived label analyzed.layer output
  let report : LayerReport :=
    { node := label, format := analyzed.layer.format, input := source.params, output, stats }
  .ok
    ({ walk with
        derived
        propagated := output
        superseded := analyzed.weights :: analyzed.bias :: walk.superseded
        layers := walk.layers ++ [report] },
      quantize ++ [convolution node source, dequantizer node analyzed.output])

/-- The walk after a node that stays.  A quantizer is noted for the tensor that it reads, unless
that tensor has one. -/
def keep (graph : Graph) (walk : Walk) (node : Node) : Except Error Walk := do
  if node.operator = .quantizeLinear then
    match ← Quantizer.ofNode? graph node with
    | some (input, quantizer) =>
      if (walk.quantizers.lookup input).isSome then .ok walk
      else .ok { walk with quantizers := walk.quantizers ++ [(input, quantizer)] }
    | none => .ok walk
  else .ok walk

/-- The nodes that stand for a node, and the walk after it. -/
def node (graph : Graph) (types : Types) (totalBits : Nat) (walk : Walk) :
    Node × Option Analyzed → Except Error (Walk × List Node)
  | (node, some analyzed) => walk.conv types totalBits node analyzed
  | (node, none) => (walk.keep graph node).map fun walk => (walk, [node])

/-- The nodes that stand for a list of nodes, and the walk after them. -/
def nodes (graph : Graph) (types : Types) (totalBits : Nat) :
    Walk → List (Node × Option Analyzed) → Except Error (Walk × List Node)
  | walk, [] => .ok (walk, [])
  | walk, tagged :: rest => do
    let (walk, here) ← walk.node graph types totalBits tagged
    let (walk, after) ← nodes graph types totalBits walk rest
    .ok (walk, here ++ after)

end Walk

/-! ### The quantized graph -/

/-- The result of a conversion. -/
structure Report where
  graph : Graph
  /-- The converted convolutions in their order. -/
  layers : List LayerReport
  /-- How many quantizers were put in. -/
  quantizeNodes : Nat

/-- The graph with new nodes, without the constants that are not needed any more, and with the
constants that were added; those are declared as inputs after the other inputs. -/
def assemble (config : Config) (graph : Graph) (walk : Walk) (nodes : List Node) : Graph :=
  let superseded := fun name => walk.superseded.contains name
  let added := walk.derived.entries
  { name := graph.name
    opset := config.quantizedOpset
    inputs :=
      graph.inputs.filter (fun declaration => !superseded declaration.name)
        ++ added.map fun (name, tensor) => Declaration.ofTensor name tensor
    outputs := graph.outputs
    nodes
    initializers :=
      added.foldl (fun table (name, tensor) => table.insert name tensor)
        (graph.initializers.filter fun name => !superseded name) }

/-- The quantized form of a graph, under a configuration that makes sense. -/
def convert (config : Config) (graph : Graph) : Except Error Report := do
  let types : Types :=
    ⟨.int (.forBits config.weightBits), .int (.forBits config.activationBits)⟩
  let tagged ← analyzeAll graph config.weightBits
  let input ← Params.make? config.inputScale 0
  let start : Walk :=
    { derived := .empty graph.initializers.names
      quantizers := []
      propagated := input
      superseded := []
      layers := []
      quantizeNodes := 0 }
  let (walk, nodes) ← start.nodes graph types config.weightBits tagged
  let quantized := assemble config graph walk nodes
  quantized.validate.mapError .graph
  .ok ⟨quantized, walk.layers, walk.quantizeNodes⟩

/-- The quantized form of a graph; the configuration is checked first. -/
def quantize (config : Config) (graph : Graph) : Except Error Report := do
  config.validate.mapError .graph
  convert config graph

end DyadicNet.Quantize
