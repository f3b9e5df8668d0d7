import DyadicNet.Tensor.Basic

/-!
# Stored tensors

A tensor is stored as its shape, the name of its element type, and the elements under the name of
their kind.  Reading checks what the type demands: a text that describes no tensor is refused with
the reason.

* `Tensor.toJson` — the stored form;
* `Tensor.ofJson` — the tensor that a JSON value stores.
-/

namespace DyadicNet.Tensor

/-- The stored form of the elements. -/
def elementsToJson : Elements → Json
  | .reals values => .ofMembers [("float", .ofList (values.toList.map Json.ofReal))]
  | .ints _ values => .ofMembers [("int", .ofList (values.toList.map Json.ofInt))]

/-- The stored form of a tensor. -/
def toJson (tensor : Tensor) : Json :=
  .ofMembers
    [("shape", .ofList (tensor.shape.map Json.ofNat)), ("dtype", tensor.dtype.toJson),
      ("data", elementsToJson tensor.elements)]

/-- Elements before their type is known. -/
inductive RawElements where
  | reals (values : List Binary64)
  | ints (values : List Int)

/-- The parts of a stored tensor, before they are known to be one. -/
structure Draft where
  shape : List Nat
  dtype : DType
  elements : RawElements

variable {ε : Type}

/-- A reader of extents. -/
def extents : Json → Except (Json.Failure ε) (List Nat) :=
  Json.list (Json.scalar (Json.toNat? 64))

/-- A reader of 64-bit integers. -/
def integers : Json → Except (Json.Failure ε) (List Int) :=
  Json.list (Json.scalar (Json.toInt? (signedMin 64) (signedMax 64)))

/-- A reader of real numbers. -/
def numbers [Json.TextLayer] : Json → Except (Json.Failure ε) (List Binary64) :=
  Json.list (Json.scalar Json.toReal?)

/-- A reader of elements under the name of their kind. -/
def elementsOfJson [Json.TextLayer] : Json → Except (Json.Failure ε) RawElements
  | .object [("float", j)] true => RawElements.reals <$> numbers j
  | .object [("int", j)] true => RawElements.ints <$> integers j
  | _ => .error .malformed

/-- The fields of a stored tensor. -/
def fields [Json.TextLayer] : List (Json.Field Error Draft) :=
  [.needed "shape" extents fun v draft => { draft with shape := v },
    .needed "dtype" DType.ofJson fun v draft => { draft with dtype := v },
    .needed "data" elementsOfJson fun v draft => { draft with elements := v }]

/-- The tensor with the parts of a draft. -/
def Draft.finish? (draft : Draft) : Except Error Tensor :=
  match draft.elements with
  | .ints values => ofInts? draft.shape draft.dtype values.toArray
  | .reals values =>
    if draft.dtype = .f32 then ofReals? draft.shape values.toArray
    else .error (.dtype .real draft.dtype)

/-- The tensor that a JSON value stores. -/
def ofJson [Json.TextLayer] (j : Json) : Except (Json.Failure Error) Tensor := do
  let draft ← Json.record fields ⟨[], .f32, .reals []⟩ j
  match draft.finish? with
  | .ok tensor => .ok tensor
  | .error e => .error (.rejected e)

end DyadicNet.Tensor
