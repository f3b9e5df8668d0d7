import DyadicNet.Quantize.Params

/-!
# Tensors that a conversion adds

A conversion adds constants under names that it derives from the names of nodes and tensors.  A
derived name must not hide a constant of the graph, and **one name stands for one tensor**: a name
may be added again only with an equal tensor.  An addition that fails changes nothing.

The constants are kept in the order of their addition.  A table says for each name where its constant
is, and it is part of the type that the table is right.

* `Derived` — the constants added so far; `Derived.get?` — the one under a name;
* `Derived.register` — adding a constant, or not, on behalf of a node;
* `Derived.add?`, `Derived.addParams?` — the constants with one more, and with the two of parameters.
-/

namespace DyadicNet.Quantize

/-- Constants to be added to a graph. -/
structure Derived where
  /-- The names that are taken by constants of the graph. -/
  reserved : List String
  /-- The added constants in the order of their first addition. -/
  entries : List (String × Tensor)
  /-- Where the constant of a name is among the entries. -/
  places : NameTable Nat
  places_eq : ∀ name, places.get? name = entries.findIdx? (·.1 == name)

namespace Derived

/-- No constants. -/
def empty (reserved : List String) : Derived :=
  ⟨reserved, [], .empty, fun _ => rfl⟩

/-- The tensor that was added under a name. -/
def get? (derived : Derived) (name : String) : Option Tensor :=
  (derived.places.get? name).bind fun place => derived.entries[place]?.map (·.2)

/-- A name without a place has it at the end, as soon as its constant is there. -/
theorem places_insert {entries : List (String × Tensor)} {places : NameTable Nat} {name : String}
    (h : ∀ key, places.get? key = entries.findIdx? (·.1 == key)) (hnew : places.get? name = none)
    (tensor : Tensor) (key : String) :
    (places.insert name entries.length).get? key
      = (entries ++ [(name, tensor)]).findIdx? (·.1 == key) := by
  rw [NameTable.get?_insert, List.findIdx?_append, ← h key]
  by_cases hkey : key = name
  · simp [hkey, hnew]
  · simp [hkey, Ne.symm hkey]

/-- The constants with one at the end, unless there is one of its name. -/
def put (derived : Derived) (name : String) (tensor : Tensor) : Derived :=
  if hnew : derived.places.get? name = none then
    { derived with
      entries := derived.entries ++ [(name, tensor)]
      places := derived.places.insert name derived.entries.length
      places_eq := places_insert derived.places_eq hnew tensor }
  else derived

/-- Whether a constant must not be added: its name stands for another tensor. -/
def conflicts (derived : Derived) (name : String) (tensor : Tensor) : Bool :=
  match derived.get? name with
  | some previous => !previous.sameValues tensor
  | none => derived.reserved.contains name

/-- Adds a constant on behalf of a node, or refuses it before anything is changed. -/
def register (node name : String) (tensor : Tensor) : ExceptT Error (StateM Derived) Unit := do
  let derived ← get
  if derived.conflicts name tensor then throw (.malformedNode node (.nameInUse name))
  set (derived.put name tensor)

/-- The constants after an addition that succeeds. -/
def add? (derived : Derived) (node name : String) (tensor : Tensor) : Except Error Derived :=
  match ((register node name tensor).run.run derived).run with
  | (.ok (), derived) => .ok derived
  | (.error error, _) => .error error

/-- The name of the scale that belongs to a name. -/
def scaleName (name : String) : String :=
  name ++ "_scale"

/-- The name of the zero point that belongs to a name. -/
def zeroPointName (name : String) : String :=
  name ++ "_zero_point"

/-- The constants with those that carry parameters. -/
def addParams? (derived : Derived) (node name : String) (params : Params) (dtype : DType) :
    Except Error Derived := do
  let (scale, zeroPoint) ← params.toTensors? dtype
  let derived ← derived.add? node (scaleName name) scale
  derived.add? node (zeroPointName name) zeroPoint

end Derived

end DyadicNet.Quantize
