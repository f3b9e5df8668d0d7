import DyadicNet.Graph.Basic

/-!
# Well-formed graphs

In a well-formed graph **every name is written once and before it is read**: an operand is a
declared input, a constant or a result of an earlier node, a result is none of these, and a graph
output is one of them.

`Graph.validate` finds the first fault: nodes come in their order, in each node the operands before
the results, and the graph outputs last.
-/

namespace DyadicNet.Graph

/-- The names that are defined before the first node. -/
def externalNames (graph : Graph) : List String :=
  graph.inputs.map (·.name) ++ graph.initializers.names

/-- The first operand that is not defined, as an error. -/
def checkInputs (defined : List String) (label : String) : List String → Except Error Unit
  | [] => .ok ()
  | name :: rest =>
    if name.isEmpty || defined.contains name then checkInputs defined label rest
    else .error (.unresolvedInput label name)

/-- The names that are defined after the results, which have to be new ones. -/
def defineOutputs (label : String) : List String → List String → Except Error (List String)
  | defined, [] => .ok defined
  | defined, name :: rest =>
    if defined.contains name then .error (.duplicateOutput label name)
    else defineOutputs label (name :: defined) rest

/-- The names that are defined after a node. -/
def checkNode (defined : List String) (node : Node) : Except Error (List String) := do
  checkInputs defined node.label node.inputs
  defineOutputs node.label defined node.outputs

/-- The first graph output that is not defined, as an error. -/
def checkOutputs (defined : List String) : List Declaration → Except Error Unit
  | [] => .ok ()
  | declaration :: rest =>
    if defined.contains declaration.name then checkOutputs defined rest
    else .error (.unresolvedOutput declaration.name)

/-- Whether a graph is well formed; if it is not, the first fault. -/
def validate (graph : Graph) : Except Error Unit := do
  let defined ← graph.nodes.foldlM checkNode graph.externalNames
  checkOutputs defined graph.outputs

end DyadicNet.Graph
