import DyadicNet.Graph.Basic

/-!
# Equality of values

Two graphs that are equal by value have the same parts, and their real numbers compare as equal:
zeros of either sign are equal, and a graph that holds *not a number* differs even from itself.

* `NameTable.same` — equality of tables, given an equality of values;
* `Attribute.sameValues`, `Node.sameValues`, `Graph.sameValues` — equality of the parts.
-/

namespace DyadicNet

/-- Whether two tables have the same names, with values that are the same. -/
def NameTable.same {α : Type} (sameValue : α → α → Bool) (s t : NameTable α) : Bool :=
  s.names == t.names && (s.entries.zip t.entries).all fun (a, b) => sameValue a.2 b.2

/-- Whether two attributes have the same kind and value. -/
def Attribute.sameValues : Attribute → Attribute → Bool
  | .real x, .real y => x.eq y
  | .reals xs, .reals ys => xs.length == ys.length && (xs.zip ys).all fun (x, y) => x.eq y
  | a, b => a == b

/-- Whether two nodes have the same operator, names and attributes. -/
def Node.sameValues (m n : Node) : Bool :=
  m.operator == n.operator && m.name == n.name && m.inputs == n.inputs && m.outputs == n.outputs
    && m.attributes.same Attribute.sameValues n.attributes

/-- Whether two graphs have the same declarations, nodes and constants. -/
def Graph.sameValues (g h : Graph) : Bool :=
  g.name == h.name && g.opset == h.opset && g.inputs == h.inputs && g.outputs == h.outputs
    && g.nodes.length == h.nodes.length && (g.nodes.zip h.nodes).all (fun (m, n) => m.sameValues n)
    && g.initializers.same Tensor.sameValues h.initializers

end DyadicNet
