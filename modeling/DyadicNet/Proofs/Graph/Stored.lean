import Mathlib
import DyadicNet.Proofs.Json.Pretty
import DyadicNet.Proofs.Tensor.Stored

/-!
# Stored graphs read back

Writing a graph and reading the text again gives the same graph: the same names, the same operators,
and the same doubles bit for bit, minus zero included.  Writer and reader have different shapes, and
there are exactly **three places where two graphs could have one text**:

* an attribute says nothing of its kind, and an empty list of reals is read as one of integers;
* an operator is stored as its name, and an unfamiliar one may have the name of a familiar one;
* infinities and *not a number* have no numeral.

A graph without these, whose integers are machine integers, is *storable*.  Reading gives storable
graphs only, so the condition is no restriction for a graph that comes from a text.

All of this is so **for every text layer that reads what it has written**.

## Main Definitions

* `Attribute.Storable`, `Operator.Storable`, `Declaration.Storable`, `Node.Storable`,
  `Graph.Storable` — the conditions, part by part.

## Main Statements

* `Graph.ofJson_toJson`, `Graph.storable_of_ofJson` — the two directions for JSON values;
* `Graph.stored_lossless` — **storing loses nothing**, for texts.
-/

namespace DyadicNet

open Json Json.LawfulTextLayer

variable {ε : Type}

theorem written_table {α : Type} {write : α → Json} {table : NameTable α} {depth : ℕ}
    (h : ∀ entry ∈ table.entries, Written depth (write entry.2)) :
    Written (depth + 1) (table.toJson write) := by
  refine .object fun member hmember => ?_
  obtain ⟨entry, hentry, rfl⟩ := List.mem_map.mp hmember
  exact h entry hentry

/-! ### Attributes -/

namespace Attribute

/-- An attribute whose stored form has the kind of the attribute. -/
def Storable : Attribute → Prop
  | .int value => Fits64 value
  | .real value => value.isFinite = true
  | .ints values => ∀ v ∈ values, Fits64 v
  | .reals values => values ≠ [] ∧ ∀ x ∈ values, x.isFinite = true
  | .text _ => True

instance : DecidablePred Storable
  | .int value => inferInstanceAs (Decidable (Fits64 value))
  | .real value => inferInstanceAs (Decidable (value.isFinite = true))
  | .ints values => inferInstanceAs (Decidable (∀ v ∈ values, Fits64 v))
  | .reals values =>
    inferInstanceAs (Decidable (values ≠ [] ∧ ∀ x ∈ values, x.isFinite = true))
  | .text _ => isTrue trivial

/-- A list that starts with a real number is no list of integers. -/
theorem integers_of_reals {x : Binary64} (h : x.isFinite = true) (rest : List Binary64) :
    (Tensor.integers (.ofList ((x :: rest).map ofReal)) : Except (Failure ε) (List ℤ))
      = .error .malformed := by
  obtain ⟨numeral, -, hdecimal⟩ := exists_ofReal_eq_decimal h
  rw [List.map_cons, hdecimal]
  rfl

section Reading

variable [TextLayer] [LawfulTextLayer]

theorem ofJson?_toJson {a : Attribute} (h : a.Storable) : ofJson? a.toJson = some a := by
  cases a with
  | int value =>
    have hint : (Json.ofInt value).toInt? (signedMin 64) (signedMax 64) = some value :=
      toInt?_eq_some_iff.mpr ⟨rfl, h⟩
    unfold toJson ofJson?
    rw [hint]
    rfl
  | real value =>
    obtain ⟨numeral, -, hdecimal⟩ := exists_ofReal_eq_decimal h
    have hreal := toReal?_ofReal h
    unfold toJson ofJson?
    dsimp only
    rw [hreal, hdecimal]
    rfl
  | ints values =>
    unfold toJson ofJson?
    dsimp only
    rw [Tensor.integers_ofList h]
    rfl
  | reals values =>
    obtain ⟨hne, hfinite⟩ := h
    obtain ⟨x, rest, rfl⟩ := List.exists_cons_of_ne_nil hne
    unfold toJson ofJson?
    dsimp only
    rw [Tensor.numbers_ofList hfinite, integers_of_reals (hfinite x List.mem_cons_self) rest]
    rfl
  | text value => rfl

/-- The kinds are tried in their order, and a kind is given only if the value fits it. -/
theorem storable_of_ofJson? {j : Json} {a : Attribute} (h : ofJson? j = some a) : a.Storable := by
  unfold ofJson? at h
  rw [Option.or_eq_some_iff, Option.or_eq_some_iff, Option.or_eq_some_iff,
    Option.or_eq_some_iff] at h
  rcases h with (((hint | ⟨-, hreal⟩) | ⟨-, hints⟩) | ⟨hnone, hreals⟩) | ⟨-, htext⟩
  · obtain ⟨v, hv, rfl⟩ := Option.map_eq_some_iff.mp hint
    exact (toInt?_eq_some_iff.mp hv).2
  · obtain ⟨x, hx, rfl⟩ := Option.map_eq_some_iff.mp hreal
    exact isFinite_of_toReal? hx
  · obtain ⟨values, hvalues, rfl⟩ := Option.map_eq_some_iff.mp hints
    exact Tensor.fits64_of_integers (toOption_eq_some_iff.mp hvalues)
  · obtain ⟨values, hvalues, rfl⟩ := Option.map_eq_some_iff.mp hreals
    have hnumbers := toOption_eq_some_iff.mp hvalues
    refine ⟨?_, Tensor.isFinite_of_numbers hnumbers⟩
    rintro rfl
    -- an empty list was a list of integers before it could be one of reals
    obtain rfl := eq_ofList_nil_of_list hnumbers
    cases hnone
  · obtain ⟨value, -, rfl⟩ := Option.map_eq_some_iff.mp htext
    trivial

theorem ofJson_toJson {a : Attribute} (h : a.Storable) :
    (ofJson a.toJson : Except (Failure ε) Attribute) = .ok a :=
  scalar_eq_ok_iff.mpr (ofJson?_toJson h)

theorem storable_of_ofJson {j : Json} {a : Attribute}
    (h : (ofJson j : Except (Failure ε) Attribute) = .ok a) : a.Storable :=
  storable_of_ofJson? (scalar_eq_ok_iff.mp h)

end Reading

theorem written_toJson {a : Attribute} (h : a.Storable) (depth : ℕ) :
    Written (depth + 1) a.toJson := by
  cases a with
  | int value => exact written_ofInt h
  | real value => exact .real h
  | ints values => exact written_ofList fun v hv => written_ofInt (h v hv)
  | reals values => exact written_ofList fun x hx => .real (h.2 x hx)
  | text value => exact .string value

end Attribute

/-! ### Operators -/

namespace Operator

/-- An unfamiliar operator does not have the name of a familiar one. -/
def Storable : Operator → Prop
  | .other name => ∀ operator ∈ known, operator.name ≠ name
  | _ => True

instance : DecidablePred Storable
  | .other name => inferInstanceAs (Decidable (∀ operator ∈ known, operator.name ≠ name))
  | .conv | .qlinearConv | .quantizeLinear | .dequantizeLinear | .pad | .maxPool
  | .globalAveragePool | .relu | .leakyRelu => isTrue trivial

theorem ofName_name {operator : Operator} (h : operator.Storable) :
    ofName operator.name = operator := by
  cases operator with
  | other name =>
    have hnone : known.find? (·.name == name) = none := by
      rw [List.find?_eq_none]
      intro operator hknown heq
      exact h operator hknown (beq_iff_eq.mp heq)
    show (known.find? (·.name == name)).getD (.other name) = .other name
    rw [hnone]
    rfl
  | _ => rfl

theorem storable_ofName (name : String) : (ofName name).Storable := by
  unfold ofName
  cases hfound : known.find? (·.name == name) with
  | none =>
    intro operator hknown heq
    exact List.find?_eq_none.mp hfound operator hknown (beq_iff_eq.mpr heq)
  | some operator =>
    have hknown : operator ∈ known := List.mem_of_find?_eq_some hfound
    have hall : ∀ operator ∈ known, operator.Storable := by
      simp [known, Storable]
    exact hall operator hknown

end Operator

/-! ### Declarations -/

namespace Declaration

/-- A declaration whose extents are machine words. -/
def Storable (declaration : Declaration) : Prop :=
  ∀ shape ∈ declaration.shape, ∀ n ∈ shape, n < twoPow 64

instance : DecidablePred Storable := fun declaration =>
  inferInstanceAs (Decidable (∀ shape ∈ declaration.shape, ∀ n ∈ shape, n < twoPow 64))

theorem ofJson_toJson {declaration : Declaration} (h : declaration.Storable) :
    (ofJson declaration.toJson : Except (Failure ε) Declaration) = .ok declaration := by
  obtain ⟨name, dtype, shape⟩ := declaration
  let given := (fields (ε := ε)).zip [some (.ofText name), dtype.map DType.toJson,
    shape.map fun shape => .ofList (shape.map ofNat)]
  have hjson : toJson ⟨name, dtype, shape⟩ = .ofMembers (givenMembers given) := by
    cases dtype <;> cases shape <;> rfl
  have hnames : (given.map (·.1.name)).Nodup := by
    show ["name", "dtype", "shape"].Nodup
    decide
  rw [hjson]
  refine record_givenMembers hnames ?_ ?_
  · simp [given, fields, Field.needed, Field.defaulted]
  · simp only [given, fields, List.zip_cons_cons, List.zip_nil_right, List.foldlM_cons,
      List.foldlM_nil]
    have hdtype : ∀ v ∈ dtype, (DType.ofJson v.toJson : Except (Failure ε) DType) = .ok v :=
      fun v _ => DType.ofJson_toJson v
    have hshape : ∀ v ∈ shape, (Tensor.extents (.ofList (v.map ofNat)) : Except (Failure ε) _)
        = .ok v := fun v hv => Tensor.extents_ofList (h v hv)
    refine bind_eq_ok_iff.mpr ⟨ofName name, rfl, ?_⟩
    rw [readGiven_optional hdtype (fun _ heq => by cases heq) "dtype" rfl, ok_bind,
      readGiven_optional hshape (fun _ heq => by cases heq) "shape" rfl, ok_bind]
    rfl

theorem written_toJson {declaration : Declaration} (h : declaration.Storable) (depth : ℕ) :
    Written (depth + 2) declaration.toJson := by
  refine .object fun entry hentry => ?_
  rcases List.mem_cons.mp hentry with rfl | hentry
  · exact .string declaration.name
  rcases List.mem_append.mp hentry with hdtype | hshape
  · obtain ⟨dtype, -, rfl⟩ := Option.map_eq_some_iff.mp (Option.mem_toList.mp hdtype)
    exact .string dtype.name
  · obtain ⟨shape, hgiven, rfl⟩ := Option.map_eq_some_iff.mp (Option.mem_toList.mp hshape)
    exact written_ofList fun n hn => written_ofNat (h shape hgiven n hn)

theorem storable_of_ofJson {j : Json} {declaration : Declaration}
    (h : (ofJson j : Except (Failure ε) Declaration) = .ok declaration) :
    declaration.Storable := by
  refine invariant_of_record (fun field hfield j before after hbefore hread => ?_)
    (fun _ hshape => by cases hshape) h
  rcases List.mem_cons.mp hfield with rfl | hfield
  · obtain ⟨name, -, rfl⟩ := map_eq_ok_iff.mp hread
    exact hbefore
  rcases List.mem_cons.mp hfield with rfl | hfield
  · obtain ⟨dtype, -, rfl⟩ := map_eq_ok_iff.mp hread
    exact hbefore
  obtain rfl := List.mem_singleton.mp hfield
  obtain ⟨value, hvalue, rfl⟩ := map_eq_ok_iff.mp hread
  rintro shape rfl
  exact Tensor.lt_of_extents (of_optional_eq_ok_some hvalue)

end Declaration

/-! ### Nodes -/

namespace Node

/-- A node whose operator and attributes are storable. -/
structure Storable (node : Node) : Prop where
  operator : node.operator.Storable
  attributes : ∀ entry ∈ node.attributes.entries, entry.2.Storable

instance : DecidablePred Storable := fun node =>
  decidable_of_iff (node.operator.Storable ∧ ∀ entry ∈ node.attributes.entries, entry.2.Storable)
    ⟨fun h => ⟨h.1, h.2⟩, fun h => ⟨h.operator, h.attributes⟩⟩

theorem texts_ofList (names : List String) :
    Json.list (Json.scalar toText?) (.ofList (names.map ofText))
      = (.ok names : Except (Failure ε) _) :=
  list_ofList fun _ _ => rfl

section Reading

variable [TextLayer] [LawfulTextLayer]

theorem ofJson_toJson {node : Node} (h : node.Storable) :
    (ofJson node.toJson : Except (Failure ε) Node) = .ok node := by
  obtain ⟨operator, name, inputs, outputs, attributes⟩ := node
  let written : Option Json :=
    if attributes.isEmpty then none else some (attributes.toJson Attribute.toJson)
  let given := (fields (ε := ε)).zip [some (.ofText operator.name), some (.ofText name),
    some (.ofList (inputs.map ofText)), some (.ofList (outputs.map ofText)), written]
  have hjson : toJson ⟨operator, name, inputs, outputs, attributes⟩
      = .ofMembers (givenMembers given) := by
    by_cases hempty : attributes.isEmpty = true
    · simp [toJson, given, written, hempty, fields, givenMembers, Field.needed, Field.defaulted]
    · simp [toJson, given, written, hempty, fields, givenMembers, Field.needed, Field.defaulted]
  have hnames : (given.map (·.1.name)).Nodup := by
    show ["op_type", "name", "inputs", "outputs", "attributes"].Nodup
    decide
  rw [hjson]
  refine record_givenMembers hnames ?_ ?_
  · simp [given, fields, Field.needed, Field.defaulted]
  · simp only [given, fields, List.zip_cons_cons, List.zip_nil_right, List.foldlM_cons,
      List.foldlM_nil]
    have hoperator : Operator.ofName operator.name = operator := Operator.ofName_name h.operator
    refine bind_eq_ok_iff.mpr ⟨make operator "" [] [],
      congrArg (fun found => Except.ok (make found "" [] [])) hoperator, ?_⟩
    refine bind_eq_ok_iff.mpr ⟨make operator name [] [], rfl, ?_⟩
    refine bind_eq_ok_iff.mpr ⟨make operator name inputs [],
      map_eq_ok_iff.mpr ⟨inputs, texts_ofList inputs, rfl⟩, ?_⟩
    refine bind_eq_ok_iff.mpr ⟨make operator name inputs outputs,
      map_eq_ok_iff.mpr ⟨outputs, texts_ofList outputs, rfl⟩, ?_⟩
    refine bind_eq_ok_iff.mpr ⟨⟨operator, name, inputs, outputs, attributes⟩, ?_, rfl⟩
    by_cases hempty : attributes.isEmpty = true
    · obtain rfl : attributes = .empty := NameTable.ext (List.isEmpty_iff.mp hempty)
      rfl
    · have hread : Json.table Attribute.ofJson (attributes.toJson Attribute.toJson)
          = (.ok attributes : Except (Failure ε) _) :=
        table_toJson fun entry hentry => Attribute.ofJson_toJson (h.attributes entry hentry)
      simp only [written, hempty]
      exact map_eq_ok_iff.mpr ⟨attributes, hread, rfl⟩

theorem storable_of_ofJson {j : Json} {node : Node}
    (h : (ofJson j : Except (Failure ε) Node) = .ok node) : node.Storable := by
  refine invariant_of_record (fun field hfield j before after hbefore hread => ?_) ?_ h
  · rcases List.mem_cons.mp hfield with rfl | hfield
    · obtain ⟨name, -, rfl⟩ := map_eq_ok_iff.mp hread
      exact ⟨Operator.storable_ofName name, hbefore.attributes⟩
    rcases List.mem_cons.mp hfield with rfl | hfield
    · obtain ⟨name, -, rfl⟩ := map_eq_ok_iff.mp hread
      exact ⟨hbefore.operator, hbefore.attributes⟩
    rcases List.mem_cons.mp hfield with rfl | hfield
    · obtain ⟨inputs, -, rfl⟩ := map_eq_ok_iff.mp hread
      exact ⟨hbefore.operator, hbefore.attributes⟩
    rcases List.mem_cons.mp hfield with rfl | hfield
    · obtain ⟨outputs, -, rfl⟩ := map_eq_ok_iff.mp hread
      exact ⟨hbefore.operator, hbefore.attributes⟩
    obtain rfl := List.mem_singleton.mp hfield
    obtain ⟨attributes, hattributes, rfl⟩ := map_eq_ok_iff.mp hread
    refine ⟨hbefore.operator, fun entry hentry => ?_⟩
    obtain ⟨item, hitem⟩ := exists_of_table_eq_ok hattributes entry hentry
    exact Attribute.storable_of_ofJson hitem
  · exact ⟨Operator.storable_ofName "", fun _ hentry => nomatch hentry⟩

end Reading

theorem written_toJson {node : Node} (h : node.Storable) (depth : ℕ) :
    Written (depth + 3) node.toJson := by
  have htexts : ∀ names : List String, Written (depth + 2) (.ofList (names.map ofText)) :=
    fun names => written_ofList fun s _ => .string s
  refine .object fun entry hentry => ?_
  rcases List.mem_append.mp hentry with hfront | hattributes
  · rcases List.mem_cons.mp hfront with rfl | hfront
    · exact .string node.operator.name
    rcases List.mem_cons.mp hfront with rfl | hfront
    · exact .string node.name
    rcases List.mem_cons.mp hfront with rfl | hfront
    · exact htexts node.inputs
    obtain rfl := List.mem_singleton.mp hfront
    exact htexts node.outputs
  · split_ifs at hattributes
    · cases hattributes
    · obtain rfl := List.mem_singleton.mp hattributes
      exact written_table fun entry hin => Attribute.written_toJson (h.attributes entry hin) depth

end Node

/-! ### Graphs -/

namespace Graph

/-- A graph whose parts are storable. -/
structure Storable (graph : Graph) : Prop where
  opset : Fits64 graph.opset
  inputs : ∀ declaration ∈ graph.inputs, declaration.Storable
  outputs : ∀ declaration ∈ graph.outputs, declaration.Storable
  nodes : ∀ node ∈ graph.nodes, node.Storable
  initializers : ∀ entry ∈ graph.initializers.entries, entry.2.Storable

instance : DecidablePred Storable := fun graph =>
  decidable_of_iff (Fits64 graph.opset ∧ (∀ declaration ∈ graph.inputs, declaration.Storable)
      ∧ (∀ declaration ∈ graph.outputs, declaration.Storable)
      ∧ (∀ node ∈ graph.nodes, node.Storable)
      ∧ ∀ entry ∈ graph.initializers.entries, entry.2.Storable)
    ⟨fun ⟨opset, inputs, outputs, nodes, initializers⟩ =>
        ⟨opset, inputs, outputs, nodes, initializers⟩,
      fun h => ⟨h.opset, h.inputs, h.outputs, h.nodes, h.initializers⟩⟩

section Reading

variable [TextLayer] [LawfulTextLayer]

/-- **A storable graph is read back** from its JSON value. -/
theorem ofJson_toJson {graph : Graph} (h : graph.Storable) :
    Graph.ofJson graph.toJson = .ok graph := by
  obtain ⟨name, opset, inputs, outputs, nodes, initializers⟩ := graph
  let given := fields.zip [some (.ofText name), some (.ofInt opset),
    some (.ofList (inputs.map Declaration.toJson)),
    some (.ofList (outputs.map Declaration.toJson)), some (.ofList (nodes.map Node.toJson)),
    some (initializers.toJson Tensor.toJson)]
  have hnames : (given.map (·.1.name)).Nodup := by
    show ["name", "opset_version", "inputs", "outputs", "nodes", "initializers"].Nodup
    decide
  have hdeclarations : ∀ l : List Declaration, (∀ declaration ∈ l, declaration.Storable) →
      Json.list Declaration.ofJson (.ofList (l.map Declaration.toJson))
        = (.ok l : Except (Failure Tensor.Error) _) := fun l hl =>
    list_ofList fun declaration hin => Declaration.ofJson_toJson (hl declaration hin)
  have hnodes : Json.list Node.ofJson (.ofList (nodes.map Node.toJson))
      = (.ok nodes : Except (Failure Tensor.Error) _) :=
    list_ofList fun node hin => Node.ofJson_toJson (h.nodes node hin)
  refine record_givenMembers hnames ?_ ?_
  · simp [given, fields]
  · simp only [given, fields, List.zip_cons_cons, List.zip_nil_right, List.foldlM_cons,
      List.foldlM_nil]
    refine bind_eq_ok_iff.mpr ⟨empty name, rfl, ?_⟩
    refine bind_eq_ok_iff.mpr ⟨⟨name, opset, [], [], [], .empty⟩, map_eq_ok_iff.mpr
      ⟨opset, scalar_eq_ok_iff.mpr (toInt?_eq_some_iff.mpr ⟨rfl, h.opset⟩), rfl⟩, ?_⟩
    refine bind_eq_ok_iff.mpr ⟨⟨name, opset, inputs, [], [], .empty⟩, map_eq_ok_iff.mpr
      ⟨inputs, hdeclarations inputs h.inputs, rfl⟩, ?_⟩
    refine bind_eq_ok_iff.mpr ⟨⟨name, opset, inputs, outputs, [], .empty⟩, map_eq_ok_iff.mpr
      ⟨outputs, hdeclarations outputs h.outputs, rfl⟩, ?_⟩
    refine bind_eq_ok_iff.mpr ⟨⟨name, opset, inputs, outputs, nodes, .empty⟩, map_eq_ok_iff.mpr
      ⟨nodes, hnodes, rfl⟩, ?_⟩
    refine bind_eq_ok_iff.mpr ⟨⟨name, opset, inputs, outputs, nodes, initializers⟩,
      map_eq_ok_iff.mpr ⟨initializers, table_toJson fun entry hin =>
        Tensor.ofJson_toJson (h.initializers entry hin), rfl⟩, rfl⟩

/-- **Every graph that was read is storable**, however it was written. -/
theorem storable_of_ofJson {j : Json} {graph : Graph} (h : Graph.ofJson j = .ok graph) :
    graph.Storable := by
  refine invariant_of_record (fun field hfield j before after hbefore hread => ?_) ?_ h
  · obtain ⟨hopset, hinputs, houtputs, hnodes, hinitializers⟩ := hbefore
    have hdeclarations : ∀ l : List Declaration,
        Json.list Declaration.ofJson j = (.ok l : Except (Failure Tensor.Error) _) →
        ∀ declaration ∈ l, declaration.Storable := by
      intro l hl declaration hin
      obtain ⟨item, hitem⟩ := exists_of_list_eq_ok hl declaration hin
      exact Declaration.storable_of_ofJson hitem
    rcases List.mem_cons.mp hfield with rfl | hfield
    · obtain ⟨name, -, rfl⟩ := map_eq_ok_iff.mp hread
      exact ⟨hopset, hinputs, houtputs, hnodes, hinitializers⟩
    rcases List.mem_cons.mp hfield with rfl | hfield
    · obtain ⟨opset, hvalue, rfl⟩ := map_eq_ok_iff.mp hread
      have hrange := (toInt?_eq_some_iff.mp (scalar_eq_ok_iff.mp hvalue)).2
      exact ⟨hrange, hinputs, houtputs, hnodes, hinitializers⟩
    rcases List.mem_cons.mp hfield with rfl | hfield
    · obtain ⟨inputs, hvalue, rfl⟩ := map_eq_ok_iff.mp hread
      exact ⟨hopset, hdeclarations inputs hvalue, houtputs, hnodes, hinitializers⟩
    rcases List.mem_cons.mp hfield with rfl | hfield
    · obtain ⟨outputs, hvalue, rfl⟩ := map_eq_ok_iff.mp hread
      exact ⟨hopset, hinputs, hdeclarations outputs hvalue, hnodes, hinitializers⟩
    rcases List.mem_cons.mp hfield with rfl | hfield
    · obtain ⟨nodes, hvalue, rfl⟩ := map_eq_ok_iff.mp hread
      refine ⟨hopset, hinputs, houtputs, fun node hin => ?_, hinitializers⟩
      obtain ⟨item, hitem⟩ := exists_of_list_eq_ok hvalue node hin
      exact Node.storable_of_ofJson hitem
    obtain rfl := List.mem_singleton.mp hfield
    obtain ⟨initializers, hvalue, rfl⟩ := map_eq_ok_iff.mp hread
    refine ⟨hopset, hinputs, houtputs, hnodes, fun entry hin => ?_⟩
    obtain ⟨item, hitem⟩ := exists_of_table_eq_ok hvalue entry hin
    exact Tensor.storable_of_ofJson hitem
  · exact ⟨⟨by decide, by decide⟩, nofun, nofun, nofun, nofun⟩

end Reading

theorem written_toJson {graph : Graph} (h : graph.Storable) (depth : ℕ) :
    Written (depth + 5) graph.toJson := by
  refine .object fun entry hentry => ?_
  rcases List.mem_cons.mp hentry with rfl | hentry
  · exact .string graph.name
  rcases List.mem_cons.mp hentry with rfl | hentry
  · exact written_ofInt h.opset
  rcases List.mem_cons.mp hentry with rfl | hentry
  · exact written_ofList fun declaration hin =>
      Declaration.written_toJson (h.inputs declaration hin) (depth + 1)
  rcases List.mem_cons.mp hentry with rfl | hentry
  · exact written_ofList fun declaration hin =>
      Declaration.written_toJson (h.outputs declaration hin) (depth + 1)
  rcases List.mem_cons.mp hentry with rfl | hentry
  · exact written_ofList fun node hin => Node.written_toJson (h.nodes node hin) depth
  obtain rfl := List.mem_singleton.mp hentry
  exact written_table fun entry hin => Tensor.written_toJson (h.initializers entry hin) depth

/-! ### Texts -/

section Texts

variable [TextLayer]

theorem ofText?_eq_ok_iff {text : String} {graph : Graph} :
    ofText? text = .ok graph ↔
      ∃ j, TextLayer.parse text = (some j, true) ∧ Graph.ofJson j = .ok graph := by
  unfold ofText?
  rw [mapError_eq_ok_iff, decode_eq_ok_iff]

/-- **Storing a graph loses nothing**, if the text layer reads what it has written.  The text of a
storable graph is read as that graph, and every graph that was read from a text is storable. -/
theorem stored_lossless [LawfulTextLayer] (graph : Graph) :
    (graph.Storable → ofText? graph.toText = .ok graph)
      ∧ ∀ text, ofText? text = .ok graph → graph.Storable := by
  constructor
  · intro h
    exact ofText?_eq_ok_iff.mpr
      ⟨graph.toJson, LawfulTextLayer.parse_pretty (written_toJson h 122), ofJson_toJson h⟩
  · intro text h
    obtain ⟨j, -, hj⟩ := ofText?_eq_ok_iff.mp h
    exact storable_of_ofJson hj

end Texts

/-- Two reals that are integers by value, next to the integers; a list of each; an operator of
another name; and a constant that is minus zero. -/
def lookalikes : Graph where
  name := "lookalikes"
  opset := 9
  inputs := [⟨"x", some .f32, some [1, 2]⟩, ⟨"w", some .f32, none⟩]
  outputs := [⟨"y", none, some []⟩]
  nodes := [⟨.other "Gemm", "", ["x", "w"], ["y"], .ofList
    [("alpha", .real (.ofInt 2)), ("axis", .int 2), ("scales", .reals [.ofInt 1]),
      ("sizes", .ints [1]), ("steps", .ints [])]⟩]
  initializers := .ofList [("w", .scalarReal (.zero true))]

/-- The standard text layer has the laws, and none of the likenesses gets lost in its text. -/
theorem stored_lossless_lookalikes :
    LawfulTextLayer ∧ lookalikes.Storable ∧ ofText? lookalikes.toText = .ok lookalikes :=
  have hread := (stored_lossless lookalikes).1 (by decide +kernel)
  ⟨inferInstance, (stored_lossless lookalikes).2 _ hread, hread⟩

end Graph

end DyadicNet
