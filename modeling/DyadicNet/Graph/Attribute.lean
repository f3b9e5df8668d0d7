import DyadicNet.Tensor.Stored
import DyadicNet.Text.Quoted

/-!
# Attributes

Nodes carry settings: a number, a list of numbers or a text each.  In a file an attribute is just
the JSON value; its kind is **the first one that the value fits**.

* `Attribute` — the type;
* `Attribute.shown` — the form in messages;
* `Attribute.toJson`, `Attribute.ofJson` — the stored form.
-/

namespace DyadicNet

/-- The value of an attribute. -/
inductive Attribute where
  | int (value : Int)
  | real (value : Binary64)
  | ints (values : List Int)
  | reals (values : List Binary64)
  | text (value : String)
deriving DecidableEq

namespace Attribute

/-- The form of an attribute in messages: its kind, and its value between parentheses. -/
def shown : Attribute → String
  | .int value => s!"Int({value})"
  | .real value =>
    let value := Layout.marked.text value
    s!"Float({value})"
  | .ints values =>
    let values := listing values
    s!"Ints({values})"
  | .reals values =>
    let values := bracketed (values.map Layout.marked.text)
    s!"Floats({values})"
  | .text value =>
    let value := Quoted.text value
    s!"String({value})"

/-- The stored form of an attribute. -/
def toJson : Attribute → Json
  | .int value => .ofInt value
  | .real value => .ofReal value
  | .ints values => .ofList (values.map Json.ofInt)
  | .reals values => .ofList (values.map Json.ofReal)
  | .text value => .ofText value

/-- What reading gives, without the reason why it failed. -/
private def reading? {α : Type} (result : Except (Json.Failure Empty) α) : Option α :=
  result.toOption

/-- The attribute that a JSON value stores: the first kind that fits. -/
def ofJson? [Json.TextLayer] (j : Json) : Option Attribute :=
  ((j.toInt? (signedMin 64) (signedMax 64)).map .int)
    |>.or (j.toReal?.map .real)
    |>.or ((reading? (Tensor.integers j)).map .ints)
    |>.or ((reading? (Tensor.numbers j)).map .reals)
    |>.or (j.toText?.map .text)

/-- A reader of attributes. -/
def ofJson [Json.TextLayer] {ε : Type} : Json → Except (Json.Failure ε) Attribute :=
  Json.scalar ofJson?

end Attribute

end DyadicNet
