import DyadicNet.Json.TextLayer
import DyadicNet.NameTable

/-!
# Reading records from JSON

A record is stored as an object with named fields, or as a list of the field values in their order.
Unknown names are skipped, a field may not be given twice, and a field with a default may be left
out; in a list, only fields at the end can be.

**Problems are met in the order of the text.**  Fields are read as they come, into a draft of the
record, and what can be said only of the whole record — that it broke off, that a field is missing —
is said at the end.

## Main definitions

* `Json.Field`, `Json.record` — a field, and the reader of a record;
* `Json.list`, `Json.table`, `Json.scalar` — readers of lists, of tables and of single values;
* `Json.decode` — reading a whole text.
-/

namespace DyadicNet.Json

variable {ε α σ : Type}

/-- A reader that takes what a conversion accepts. -/
def scalar (convert : Json → Option α) (j : Json) : Except (Failure ε) α :=
  match convert j with
  | some value => .ok value
  | none => .error .malformed

/-- A reader of lists, given one of their elements. -/
def list (element : Json → Except (Failure ε) α) : Json → Except (Failure ε) (List α)
  | .array items intact => do
    let values ← items.mapM element
    if intact then .ok values else .error .malformed
  | _ => .error .malformed

/-- A reader of tables, given one of their values.  Of several values under one name the last one
stays. -/
def table (element : Json → Except (Failure ε) α) : Json → Except (Failure ε) (NameTable α)
  | .object members intact => do
    let entries ← members.mapM fun (name, j) => do
      let value ← element j
      pure (name, value)
    if intact then .ok (NameTable.ofList entries) else .error .malformed
  | _ => .error .malformed

/-- A reader that takes `null` for an absent value. -/
def optional (element : Json → Except (Failure ε) α) : Json → Except (Failure ε) (Option α)
  | .null => .ok none
  | j => some <$> element j

/-! ### Records -/

/-- A field of a record that is read into a draft of type `σ`. -/
structure Field (ε σ : Type) where
  /-- The name of the field. -/
  name : String
  /-- Whether the field has no default. -/
  required : Bool
  /-- The draft with the field's value in it. -/
  read : Json → σ → Except (Failure ε) σ

/-- A field without a default. -/
def Field.needed (name : String) (element : Json → Except (Failure ε) α) (set : α → σ → σ) :
    Field ε σ :=
  ⟨name, true, fun j draft => (set · draft) <$> element j⟩

/-- A field whose default is in the draft already. -/
def Field.defaulted (name : String) (element : Json → Except (Failure ε) α) (set : α → σ → σ) :
    Field ε σ :=
  ⟨name, false, fun j draft => (set · draft) <$> element j⟩

/-- One member of an object: the draft with it, and the names of the fields given so far. -/
def member (fields : List (Field ε σ)) (state : σ × List String) (entry : String × Json) :
    Except (Failure ε) (σ × List String) :=
  match fields.find? (·.name == entry.1) with
  | none => .ok state
  | some field =>
    if state.2.contains field.name then .error .malformed
    else do
      let draft ← field.read entry.2 state.1
      .ok (draft, field.name :: state.2)

/-- The draft with the values of a list in the fields, one after the other. -/
def positions : List (Field ε σ) → List Json → σ → Except (Failure ε) σ
  | [], [], draft => .ok draft
  | [], _ :: _, _ => .error .malformed
  | field :: fields, [], draft =>
    if field.required then .error .malformed else positions fields [] draft
  | field :: fields, j :: items, draft => do
    let draft ← field.read j draft
    positions fields items draft

/-- A reader of records, given their fields and a draft that holds the defaults. -/
def record (fields : List (Field ε σ)) (start : σ) : Json → Except (Failure ε) σ
  | .object members intact => do
    let (draft, given) ← members.foldlM (member fields) (start, [])
    if intact && fields.all (fun field => !field.required || given.contains field.name) then
      .ok draft
    else .error .malformed
  | .array items intact => do
    let draft ← positions fields items start
    if intact then .ok draft else .error .malformed
  | _ => .error .malformed

/-! ### Choices -/

/-- A reader of one of several values that have a name each: the name alone, or an object that gives
`null` under it. -/
def choice (convert : String → Option α) : Json → Except (Failure ε) α
  | .string name => scalar (fun _ => convert name) .null
  | .object [(name, .null)] true => scalar (fun _ => convert name) .null
  | _ => .error .malformed

/-! ### Texts -/

/-- The value of a whole text: nothing but blanks may follow it. -/
def decode [TextLayer] (read : Json → Except (Failure ε) α) (text : String) : Except (Failure ε) α :=
  match TextLayer.parse text with
  | (none, _) => .error .malformed
  | (some j, whole) => do
    let value ← read j
    if whole then .ok value else .error .malformed

end DyadicNet.Json
