import Mathlib
import DyadicNet.Proofs.Tensor.Stored

/-!
# Tensors and their parts

A tensor cannot be ill formed, so no statement about tensors says what becomes of parts that do not
fit.  Here the parts are looked at before they are a tensor: a shape, an element type, and numbers of
one kind or the other.  **Parts become a tensor exactly if they are sound**, and then the tensor has
these parts.  Every function that builds a tensor, with a check or without, is the checked one on
parts that can be named.

## Main Definitions

* `Draft.Sound` — as many elements as the shape says, of the kind that the type says, in its range;
* `Tensor.parts` — the parts of a tensor;
* `Draft.ofReals`, `Draft.ofInts` — parts with the elements of an array;
* `Draft.StoredIn` — parts that a JSON value stores.

## Main Statements

* `Draft.parts_of_finish?` — a tensor has the parts that it was made of;
* `Draft.exists_finish?_iff` — sound parts, and no others, become a tensor;
* `ofReals?_eq_finish?`, `ofInts?_eq_finish?`, `finish?_scalarReal`, `finish?_zeros`,
  `reshape?_eq_finish?`, `exists_storedIn` — the functions that build tensors.
-/

namespace DyadicNet.Tensor

/-! ### Parts -/

/-- The number of elements. -/
def RawElements.size : RawElements → ℕ
  | .reals values => values.length
  | .ints values => values.length

/-- Parts that fit: as many elements as the product of the extents, real ones exactly if the type
says so, and integers of the type otherwise. -/
structure Draft.Sound (draft : Draft) : Prop where
  size_eq_prod : draft.elements.size = draft.shape.prod
  real_iff : (∃ values, draft.elements = .reals values) ↔ draft.dtype = .f32
  inRange : ∀ type values, draft.dtype = .int type → draft.elements = .ints values →
    ∀ v ∈ values, type.least ≤ v ∧ v ≤ type.greatest

/-- The parts of a tensor. -/
def parts (tensor : Tensor) : Draft :=
  ⟨tensor.shape, tensor.dtype, rawElements tensor.elements⟩

/-- Real elements, before their number has been checked. -/
def Draft.ofReals (shape : List ℕ) (values : Array Binary64) : Draft :=
  ⟨shape, .f32, .reals values.toList⟩

/-- Integers, before anything has been checked. -/
def Draft.ofInts (shape : List ℕ) (dtype : DType) (values : Array ℤ) : Draft :=
  ⟨shape, dtype, .ints values.toList⟩

/-- The parts that a JSON value stores, before anything is known about them. -/
def Draft.StoredIn [Json.TextLayer] (draft : Draft) (j : Json) : Prop :=
  Json.record fields ⟨[], .f32, .reals []⟩ j = .ok draft

variable {shape : List ℕ} {tensor : Tensor} {draft : Draft}

/-- A value stores the parts of one tensor at most. -/
theorem Draft.StoredIn.unique [Json.TextLayer] {j : Json} {other : Draft} (h : draft.StoredIn j)
    (hother : other.StoredIn j) : draft = other :=
  Except.ok.inj (h.symm.trans hother)

/-- A count that a machine word can hold is the product of the extents. -/
theorem elementCount_eq_prod (h : shape.prod < twoPow 64) : elementCount shape = shape.prod := by
  rw [elementCount, ← List.prod_eq_foldl, Nat.mod_eq_of_lt h]

/-! ### Parts that become a tensor -/

theorem parts_of_reals {values : Array Binary64} (h : tensor.elements = .reals values) :
    tensor.parts = .ofReals tensor.shape values := by
  rw [parts, Tensor.dtype, h]
  rfl

theorem parts_of_ints {type : IntType} {values : Array ℤ} (h : tensor.elements = .ints type values) :
    tensor.parts = .ofInts tensor.shape (.int type) values := by
  rw [parts, Tensor.dtype, h]
  rfl

/-- A tensor has the parts that it was made of. -/
theorem Draft.parts_of_finish? (h : draft.finish? = .ok tensor) : tensor.parts = draft := by
  obtain ⟨shape, dtype, elements⟩ := draft
  cases elements with
  | reals values =>
    unfold finish? at h
    dsimp only at h
    split_ifs at h with hdtype
    obtain ⟨-, rfl, helements⟩ := ofReals?_eq_ok_iff.mp h
    rw [parts_of_reals helements, hdtype, ofReals]
  | ints values =>
    cases dtype with
    | f32 =>
      unfold finish? ofInts? at h
      dsimp only at h
      split_ifs at h
    | int type =>
      obtain ⟨-, rfl, helements⟩ := ofInts?_eq_ok_iff.mp h
      rw [parts_of_ints helements, ofInts]

/-- The parts of a tensor are sound, if their number is one that a machine can count to. -/
theorem sound_parts (hfits : tensor.shape.prod < twoPow 64) : tensor.parts.Sound := by
  have hcount := tensor.size_eq
  rw [elementCount_eq_prod hfits] at hcount
  cases helements : tensor.elements with
  | reals values =>
    rw [helements] at hcount
    rw [parts_of_reals helements]
    refine ⟨hcount, by simp [Draft.ofReals], ?_⟩
    rintro type values' htype
    cases htype
  | ints type values =>
    rw [helements] at hcount
    rw [parts_of_ints helements]
    refine ⟨hcount, by simp [Draft.ofInts], ?_⟩
    rintro type' values' htype hvalues v hv
    cases htype
    cases hvalues
    exact of_decide_eq_true (holds_of_mem_ints helements (Array.mem_toList_iff.mp hv))

/-- **Sound parts, and no others, become a tensor.** -/
theorem Draft.exists_finish?_iff (hfits : draft.shape.prod < twoPow 64) :
    (∃ tensor, draft.finish? = .ok tensor) ↔ draft.Sound := by
  constructor
  · rintro ⟨tensor, h⟩
    obtain rfl := parts_of_finish? h
    exact sound_parts hfits
  · intro h
    obtain ⟨shape, dtype, elements⟩ := draft
    have hcount := h.size_eq_prod.trans (elementCount_eq_prod hfits).symm
    cases elements with
    | reals values =>
      obtain rfl : dtype = .f32 := h.real_iff.mp ⟨values, rfl⟩
      exact ⟨_, dif_pos hcount⟩
    | ints values =>
      cases dtype with
      | f32 =>
        obtain ⟨reals, hreals⟩ := h.real_iff.mpr rfl
        cases hreals
      | int type =>
        have hholds : values.toArray.all type.holds = true :=
          Array.all_eq_true_iff_forall_mem.mpr fun v hv =>
            decide_eq_true (h.inRange type values rfl rfl v (List.mem_toArray.mp hv))
        exact ⟨⟨shape, .ints type values.toArray, hcount, hholds⟩,
          ofInts?_eq_ok_iff.mpr ⟨⟨hcount, hholds⟩, rfl, rfl⟩⟩

/-! ### The functions that build tensors -/

theorem ofReals?_eq_finish? (shape : List ℕ) (values : Array Binary64) :
    ofReals? shape values = (Draft.ofReals shape values).finish? := rfl

theorem ofInts?_eq_finish? (shape : List ℕ) (dtype : DType) (values : Array ℤ) :
    ofInts? shape dtype values = (Draft.ofInts shape dtype values).finish? := rfl

/-- No check is needed for a single number. -/
theorem finish?_scalarReal (value : Binary64) :
    (Draft.ofReals [] #[value]).finish? = .ok (scalarReal value) := rfl

/-- Nor for as many zeros as the shape says. -/
theorem finish?_zeros (shape : List ℕ) :
    (Draft.ofReals shape (Array.replicate (elementCount shape) (.zero false))).finish?
      = .ok (zeros shape) :=
  ofReals?_eq_ok_iff.mpr ⟨Array.size_replicate, rfl, rfl⟩

/-- Another shape for the same elements checks their number. -/
theorem reshape?_eq_finish? (tensor : Tensor) (shape : List ℕ) :
    tensor.reshape? shape = { tensor.parts with shape := shape : Draft }.finish? := by
  obtain ⟨old, elements, hsize, hrange⟩ := tensor
  cases elements with
  | reals values => rfl
  | ints type values =>
    by_cases hnew : values.size = elementCount shape
    · have hreshape : (⟨old, .ints type values, hsize, hrange⟩ : Tensor).reshape? shape
          = .ok ⟨shape, .ints type values, hnew, hrange⟩ := dif_pos hnew
      exact hreshape.trans (ofInts?_eq_ok_iff.mpr ⟨⟨hnew, hrange⟩, rfl, rfl⟩).symm
    · have hreshape : (⟨old, .ints type values, hsize, hrange⟩ : Tensor).reshape? shape
          = .error (.shape shape [values.size]) := dif_neg hnew
      have hints : ofInts? shape (.int type) values = .error (.shape shape [values.size]) :=
        dif_neg hnew
      exact hreshape.trans hints.symm

/-- What a value stores has been its parts first. -/
theorem exists_storedIn [Json.TextLayer] {j : Json} (h : Tensor.ofJson j = .ok tensor) :
    ∃ draft : Draft, draft.StoredIn j ∧ draft.finish? = .ok tensor := by
  obtain ⟨draft, hdraft, h⟩ := bind_eq_ok_iff.mp h
  refine ⟨draft, hdraft, ?_⟩
  cases hfinish : draft.finish? with
  | error e =>
    rw [hfinish] at h
    cases h
  | ok read =>
    rw [hfinish] at h
    cases h
    rfl

end DyadicNet.Tensor
