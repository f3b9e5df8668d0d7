import Mathlib
import DyadicNet.Proofs.Json.Schema
import DyadicNet.Proofs.Json.TextLayer
import DyadicNet.Proofs.Rounding
import DyadicNet.Proofs.Tensor

/-!
# Stored tensors read back

A tensor goes through its stored form unchanged, if its extents are machine words and its real
elements are finite.  Integer elements need no condition: **the tensor has checked their range
already**, and that range lies in the one of the reader.  The count of the elements and their type
are checked again by reading, and the tensor that was written has passed both checks.

## Main Definitions

* `Tensor.Storable` — the tensors that have a stored form.

## Main Statements

* `Tensor.ofJson_toJson` — **a storable tensor is read back**;
* `Tensor.storable_of_ofJson` — every tensor that was read is storable.

The reader of real numbers is that of a text layer, of which both directions need the laws.
-/

namespace DyadicNet

open Json Json.LawfulTextLayer

/-! ### Element types -/

theorem DType.ofJson_toJson {ε : Type} (dtype : DType) :
    (DType.ofJson dtype.toJson : Except (Failure ε) DType) = .ok dtype := by
  have hname : DType.ofName? dtype.name = some dtype := by
    cases dtype with
    | f32 => rfl
    | int type => cases type <;> rfl
  show Json.scalar (fun _ => DType.ofName? dtype.name) .null = .ok dtype
  rw [hname]
  rfl

namespace Tensor

variable {ε : Type}

/-! ### Lists of numbers -/

theorem extents_ofList {shape : List ℕ} (h : ∀ n ∈ shape, n < twoPow 64) :
    (extents (.ofList (shape.map ofNat)) : Except (Failure ε) (List ℕ)) = .ok shape :=
  list_ofList fun n hn => scalar_eq_ok_iff.mpr (toNat?_eq_some_iff.mpr ⟨rfl, h n hn⟩)

theorem lt_of_extents {shape : List ℕ} {j : Json}
    (h : (extents j : Except (Failure ε) (List ℕ)) = .ok shape) : ∀ n ∈ shape, n < twoPow 64 := by
  intro n hn
  obtain ⟨item, hitem⟩ := exists_of_list_eq_ok h n hn
  exact (toNat?_eq_some_iff.mp (scalar_eq_ok_iff.mp hitem)).2

theorem integers_ofList {values : List ℤ} (h : ∀ v ∈ values, Fits64 v) :
    (integers (.ofList (values.map ofInt)) : Except (Failure ε) (List ℤ)) = .ok values :=
  list_ofList fun v hv => scalar_eq_ok_iff.mpr (toInt?_eq_some_iff.mpr ⟨rfl, h v hv⟩)

theorem fits64_of_integers {values : List ℤ} {j : Json}
    (h : (integers j : Except (Failure ε) (List ℤ)) = .ok values) : ∀ v ∈ values, Fits64 v := by
  intro v hv
  obtain ⟨item, hitem⟩ := exists_of_list_eq_ok h v hv
  exact (toInt?_eq_some_iff.mp (scalar_eq_ok_iff.mp hitem)).2

section Numbers

variable [TextLayer] [LawfulTextLayer]

theorem numbers_ofList {values : List Binary64} (h : ∀ x ∈ values, x.isFinite = true) :
    (numbers (.ofList (values.map ofReal)) : Except (Failure ε) (List Binary64)) = .ok values :=
  list_ofList fun x hx => scalar_eq_ok_iff.mpr (toReal?_ofReal (h x hx))

theorem isFinite_of_numbers {values : List Binary64} {j : Json}
    (h : (numbers j : Except (Failure ε) (List Binary64)) = .ok values) :
    ∀ x ∈ values, x.isFinite = true := by
  intro x hx
  obtain ⟨item, hitem⟩ := exists_of_list_eq_ok h x hx
  exact isFinite_of_toReal? (scalar_eq_ok_iff.mp hitem)

end Numbers

/-! ### Elements -/

/-- The real numbers among elements are finite. -/
def FiniteElements : Elements → Prop
  | .reals values => ∀ x ∈ values.toList, x.isFinite = true
  | .ints _ _ => True

instance : DecidablePred FiniteElements
  | .reals values => inferInstanceAs (Decidable (∀ x ∈ values.toList, x.isFinite = true))
  | .ints _ _ => isTrue trivial

/-- Elements before their type is known. -/
def rawElements : Elements → RawElements
  | .reals values => .reals values.toList
  | .ints _ values => .ints values.toList

theorem elementsOfJson_elementsToJson [TextLayer] [LawfulTextLayer] {elements : Elements} (h : FiniteElements elements)
    (hrange : elements.inRange = true) :
    (elementsOfJson (elementsToJson elements) : Except (Failure ε) RawElements)
      = .ok (rawElements elements) := by
  cases elements with
  | reals values =>
    show RawElements.reals <$> numbers (.ofList (values.toList.map ofReal)) = _
    rw [numbers_ofList h]
    rfl
  | ints type values =>
    have hall : ∀ v ∈ values.toList, Fits64 v := by
      intro v hv
      have hholds := Array.all_eq_true_iff_forall_mem.mp hrange v (Array.mem_toList_iff.mp hv)
      exact IntType.fits64_of_holds hholds
    show RawElements.ints <$> integers (.ofList (values.toList.map ofInt)) = _
    rw [integers_ofList hall]
    rfl

/-! ### Tensors -/

/-- A tensor with a stored form: its extents are machine words, and its real elements finite. -/
structure Storable (tensor : Tensor) : Prop where
  extents : ∀ n ∈ tensor.shape, n < twoPow 64
  finite : FiniteElements tensor.elements

instance : DecidablePred Storable := fun tensor =>
  decidable_of_iff ((∀ n ∈ tensor.shape, n < twoPow 64) ∧ FiniteElements tensor.elements)
    ⟨fun h => ⟨h.1, h.2⟩, fun h => ⟨h.extents, h.finite⟩⟩

/-- The checks of reading are those that a tensor has passed. -/
theorem finish?_rawElements (tensor : Tensor) :
    Draft.finish? ⟨tensor.shape, tensor.dtype, rawElements tensor.elements⟩ = .ok tensor := by
  obtain ⟨shape, elements, hsize, hrange⟩ := tensor
  cases elements with
  | reals values => exact ofReals?_eq_ok_iff.mpr ⟨hsize, rfl, rfl⟩
  | ints type values => exact ofInts?_eq_ok_iff.mpr ⟨⟨hsize, hrange⟩, rfl, rfl⟩

/-- **A storable tensor is read back.** -/
theorem ofJson_toJson [TextLayer] [LawfulTextLayer] {tensor : Tensor} (h : tensor.Storable) :
    Tensor.ofJson tensor.toJson = .ok tensor := by
  have hrecord : record fields ⟨[], .f32, .reals []⟩ tensor.toJson
      = .ok ⟨tensor.shape, tensor.dtype, rawElements tensor.elements⟩ := by
    let given := fields.zip [some (.ofList (tensor.shape.map ofNat)), some tensor.dtype.toJson,
      some (elementsToJson tensor.elements)]
    have hnames : (given.map (·.1.name)).Nodup := by
      show ["shape", "dtype", "data"].Nodup
      decide
    refine record_givenMembers hnames ?_ ?_
    · simp [given, fields]
    · simp only [given, fields, Field.needed, Field.readGiven, List.zip_cons_cons,
        List.zip_nil_right, List.foldlM_cons, List.foldlM_nil, extents_ofList h.extents,
        DType.ofJson_toJson, elementsOfJson_elementsToJson h.finite tensor.inRange]
      rfl
  unfold ofJson
  rw [hrecord, ok_bind, finish?_rawElements]

/-- The stored form of a storable tensor can be written. -/
theorem written_toJson {tensor : Tensor} (h : tensor.Storable) (depth : ℕ) :
    Written (depth + 3) tensor.toJson := by
  obtain ⟨shape, elements, hsize, hrange⟩ := tensor
  have helements : Written (depth + 2) (elementsToJson elements) := by
    cases elements with
    | reals values =>
      exact .object (List.forall_mem_singleton.mpr
        (written_ofList fun x hx => .real (h.finite x hx)))
    | ints type values =>
      have hall := Array.all_eq_true_iff_forall_mem.mp hrange
      refine .object (List.forall_mem_singleton.mpr (written_ofList fun v hv => ?_))
      exact written_ofInt (IntType.fits64_of_holds (hall v (Array.mem_toList_iff.mp hv)))
  refine .object fun entry hentry => ?_
  rcases List.mem_cons.mp hentry with rfl | hentry
  · exact written_ofList fun n hn => written_ofNat (h.extents n hn)
  rcases List.mem_cons.mp hentry with rfl | hentry
  · exact .string _
  obtain rfl := List.mem_singleton.mp hentry
  exact helements

/-! ### What was read -/

/-- The parts of a storable tensor. -/
structure Draft.Storable (draft : Draft) : Prop where
  extents : ∀ n ∈ draft.shape, n < twoPow 64
  finite : ∀ values, draft.elements = .reals values → ∀ x ∈ values, x.isFinite = true

theorem Draft.storable_of_finish? {draft : Draft} {tensor : Tensor} (h : draft.Storable)
    (hfinish : draft.finish? = .ok tensor) : tensor.Storable := by
  obtain ⟨shape, dtype, elements⟩ := draft
  unfold finish? at hfinish
  cases elements with
  | ints values =>
    cases dtype with
    | f32 =>
      dsimp only at hfinish
      unfold ofInts? at hfinish
      split_ifs at hfinish
    | int type =>
      obtain ⟨-, rfl, helements⟩ := ofInts?_eq_ok_iff.mp hfinish
      exact ⟨h.extents, by rw [helements]; trivial⟩
  | reals values =>
    dsimp only at hfinish
    split_ifs at hfinish
    obtain ⟨-, rfl, helements⟩ := ofReals?_eq_ok_iff.mp hfinish
    exact ⟨h.extents, by rw [helements]; exact h.finite values rfl⟩

section Reading

variable [TextLayer] [LawfulTextLayer]

theorem finite_of_elementsOfJson {j : Json} {elements : RawElements}
    (h : (elementsOfJson j : Except (Failure ε) RawElements) = .ok elements) :
    ∀ values, elements = .reals values → ∀ x ∈ values, x.isFinite = true := by
  rintro values rfl
  unfold elementsOfJson at h
  split at h
  · obtain ⟨read, hread, heq⟩ := map_eq_ok_iff.mp h
    cases heq
    exact isFinite_of_numbers hread
  · obtain ⟨read, -, heq⟩ := map_eq_ok_iff.mp h
    cases heq
  · cases h

theorem Draft.storable_of_record {j : Json} {draft : Draft}
    (h : record fields ⟨[], .f32, .reals []⟩ j = .ok draft) : draft.Storable := by
  refine invariant_of_record (fun field hfield j before after hbefore hread => ?_) ?_ h
  · rcases List.mem_cons.mp hfield with rfl | hfield
    · obtain ⟨shape, hshape, rfl⟩ := map_eq_ok_iff.mp hread
      exact ⟨lt_of_extents hshape, hbefore.finite⟩
    rcases List.mem_cons.mp hfield with rfl | hfield
    · obtain ⟨dtype, -, rfl⟩ := map_eq_ok_iff.mp hread
      exact ⟨hbefore.extents, hbefore.finite⟩
    obtain rfl := List.mem_singleton.mp hfield
    obtain ⟨elements, helements, rfl⟩ := map_eq_ok_iff.mp hread
    exact ⟨hbefore.extents, finite_of_elementsOfJson helements⟩
  · refine ⟨fun n hn => (List.not_mem_nil hn).elim, ?_⟩
    rintro values hvalues x hx
    cases hvalues
    cases hx

/-- **Every tensor that was read is storable.** -/
theorem storable_of_ofJson {j : Json} {tensor : Tensor} (h : Tensor.ofJson j = .ok tensor) :
    tensor.Storable := by
  obtain ⟨draft, hdraft, h⟩ := bind_eq_ok_iff.mp h
  cases hfinish : draft.finish? with
  | error e =>
    rw [hfinish] at h
    cases h
  | ok read =>
    rw [hfinish] at h
    cases h
    exact Draft.storable_of_finish? (Draft.storable_of_record hdraft) hfinish

end Reading

end Tensor

end DyadicNet
