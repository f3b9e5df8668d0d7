import DyadicNet.Graph.Basic
import DyadicNet.Json.Schema

/-!
# Stored graphs

A graph is stored as an indented JSON text.  What is absent is left out, tables are in the order of
their names, and reading fills in defaults for everything but the nodes.

* `Graph.toText` — the stored form;
* `Graph.ofText?` — the graph that a text stores;
* `Node.toJson`, `Node.ofJson` — the same for one node.
-/

namespace DyadicNet

/-- A reader of a text. -/
private def textual {ε : Type} : Json → Except (Json.Failure ε) String :=
  Json.scalar Json.toText?

/-- A reader of a list of texts. -/
private def textuals {ε : Type} : Json → Except (Json.Failure ε) (List String) :=
  Json.list textual

/-- The stored form of a table. -/
def NameTable.toJson {α : Type} (write : α → Json) (table : NameTable α) : Json :=
  .ofMembers (table.entries.map fun entry => (entry.1, write entry.2))

/-! ### Declarations -/

namespace Declaration

/-- The stored form of a declaration. -/
def toJson (declaration : Declaration) : Json :=
  .ofMembers
    (("name", .ofText declaration.name)
      :: ((declaration.dtype.map fun dtype => ("dtype", dtype.toJson)).toList
        ++ (declaration.shape.map fun shape =>
          ("shape", Json.ofList (shape.map Json.ofNat))).toList))

/-- The fields of a stored declaration. -/
def fields {ε : Type} : List (Json.Field ε Declaration) :=
  [.needed "name" textual fun v draft => { draft with name := v },
    .defaulted "dtype" (Json.optional DType.ofJson) fun v draft => { draft with dtype := v },
    .defaulted "shape" (Json.optional Tensor.extents) fun v draft => { draft with shape := v }]

/-- The declaration that a JSON value stores. -/
def ofJson {ε : Type} : Json → Except (Json.Failure ε) Declaration :=
  Json.record fields (.ofName "")

end Declaration

/-! ### Nodes -/

namespace Node

/-- The stored form of a node. -/
def toJson (node : Node) : Json :=
  let attributes :=
    if node.attributes.isEmpty then []
    else [("attributes", node.attributes.toJson Attribute.toJson)]
  .ofMembers
    ([("op_type", .ofText node.operator.name), ("name", .ofText node.name),
      ("inputs", .ofList (node.inputs.map Json.ofText)),
      ("outputs", .ofList (node.outputs.map Json.ofText))] ++ attributes)

/-- The fields of a stored node. -/
def fields [Json.TextLayer] {ε : Type} : List (Json.Field ε Node) :=
  [.needed "op_type" textual fun v draft => { draft with operator := .ofName v },
    .defaulted "name" textual fun v draft => { draft with name := v },
    .needed "inputs" textuals fun v draft => { draft with inputs := v },
    .needed "outputs" textuals fun v draft => { draft with outputs := v },
    .defaulted "attributes" (Json.table Attribute.ofJson)
      fun v draft => { draft with attributes := v }]

/-- The node that a JSON value stores. -/
def ofJson [Json.TextLayer] {ε : Type} : Json → Except (Json.Failure ε) Node :=
  Json.record fields (.make (.other "") "" [] [])

end Node

/-! ### Graphs -/

namespace Graph

/-- The stored form of a graph, as a JSON value. -/
def toJson (graph : Graph) : Json :=
  .ofMembers
    [("name", .ofText graph.name), ("opset_version", .ofInt graph.opset),
      ("inputs", .ofList (graph.inputs.map Declaration.toJson)),
      ("outputs", .ofList (graph.outputs.map Declaration.toJson)),
      ("nodes", .ofList (graph.nodes.map Node.toJson)),
      ("initializers", graph.initializers.toJson Tensor.toJson)]

/-- The fields of a stored graph. -/
def fields [Json.TextLayer] : List (Json.Field Tensor.Error Graph) :=
  [.defaulted "name" textual fun v draft => { draft with name := v },
    .defaulted "opset_version" (Json.scalar (Json.toInt? (signedMin 64) (signedMax 64)))
      fun v draft => { draft with opset := v },
    .defaulted "inputs" (Json.list Declaration.ofJson) fun v draft => { draft with inputs := v },
    .defaulted "outputs" (Json.list Declaration.ofJson) fun v draft => { draft with outputs := v },
    .needed "nodes" (Json.list Node.ofJson) fun v draft => { draft with nodes := v },
    .defaulted "initializers" (Json.table Tensor.ofJson)
      fun v draft => { draft with initializers := v }]

/-- The graph that a JSON value stores. -/
def ofJson [Json.TextLayer] : Json → Except (Json.Failure Tensor.Error) Graph :=
  Json.record fields (.empty "")

/-- The stored form of a graph. -/
def toText [Json.TextLayer] (graph : Graph) : String :=
  Json.TextLayer.pretty graph.toJson

/-- The graph that a text stores. -/
def ofText? [Json.TextLayer] (text : String) : Except Error Graph :=
  (Json.decode ofJson text).mapError .json

end Graph

end DyadicNet
