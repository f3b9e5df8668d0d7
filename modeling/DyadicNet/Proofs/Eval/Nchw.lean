import Mathlib
import DyadicNet.Eval.Nchw

/-!
# Positions and elements

`Nchw.tabulate` recovers a position from an index by divisions, and `Nchw.read` computes the index of
a position.  Inside the extents **the two are inverse**, so that a table of a formula is read by
applying the formula.  With this, a padded tensor has a formula too: the data inside, the fill around
it.

## Main Statements

* `Nchw.index_lt` — the positions inside the extents have elements;
* `Nchw.exists_of_mem_tabulate` — the elements of a table belong to positions;
* `Nchw.read_tabulate` — reading what was tabulated;
* `Nchw.read_pad` — reading what was padded.
-/

namespace DyadicNet.Eval.Nchw

variable {α : Type} {s : Nchw} {b c y x : ℕ}

theorem ofShape?_eq_ok_iff {shape : List ℕ} : ofShape? shape = .ok s ↔ shape = s.toShape := by
  unfold ofShape? toShape
  split
  · rw [Except.ok.injEq]
    constructor
    · rintro rfl
      rfl
    · intro h
      cases s
      cases h
      rfl
  · next hshape =>
    constructor
    · intro herror
      cases herror
    · rintro rfl
      exact absurd rfl (hshape _ _ _ _)

/-- The elements are those of the planes. -/
theorem volume_eq (s : Nchw) : s.volume = s.batch * s.channels * s.area := by
  unfold volume area
  ring

/-- A position inside the extents. -/
structure Inside (s : Nchw) (b c y x : ℕ) : Prop where
  batch : b < s.batch
  channel : c < s.channels
  row : y < s.height
  column : x < s.width

namespace Inside

variable (h : s.Inside b c y x)
include h

/-- A position in a plane is inside the plane. -/
theorem offset_lt : y * s.width + x < s.area := by
  calc y * s.width + x < y * s.width + s.width := Nat.add_lt_add_left h.column _
    _ = (y + 1) * s.width := (Nat.succ_mul y s.width).symm
    _ ≤ s.area := Nat.mul_le_mul_right _ h.row

theorem plane_lt : b * s.channels + c < s.batch * s.channels := by
  calc b * s.channels + c < b * s.channels + s.channels := Nat.add_lt_add_left h.channel _
    _ = (b + 1) * s.channels := (Nat.succ_mul b s.channels).symm
    _ ≤ s.batch * s.channels := Nat.mul_le_mul_right _ h.batch

theorem index_lt : s.index b c y x < s.volume := by
  calc s.index b c y x = (b * s.channels + c) * s.area + (y * s.width + x) := by
        unfold index area
        ring
    _ < (b * s.channels + c) * s.area + s.area := Nat.add_lt_add_left h.offset_lt _
    _ = (b * s.channels + c + 1) * s.area := (Nat.succ_mul _ _).symm
    _ ≤ s.batch * s.channels * s.area := Nat.mul_le_mul_right _ h.plane_lt
    _ = s.volume := s.volume_eq.symm

end Inside

/-- The quotient by the length of a row and the rest are the row and the place in it. -/
theorem div_mod_of_lt {k n r : ℕ} (h : r < n) : (k * n + r) / n = k ∧ (k * n + r) % n = r := by
  refine ⟨?_, Nat.mul_add_mod_of_lt h⟩
  rw [mul_comm, Nat.mul_add_div (by omega), Nat.div_eq_of_lt h, add_zero]

/-- A table of a formula has its value at each position. -/
theorem getElem?_tabulate (f : ℕ → ℕ → ℕ → ℕ → α) (h : s.Inside b c y x) :
    (s.tabulate f)[s.index b c y x]? = some (f b c y x) := by
  have hcolumn := div_mod_of_lt (k := (b * s.channels + c) * s.height + y) h.column
  have hrow := div_mod_of_lt (k := b * s.channels + c) h.row
  have hplane : s.index b c y x / s.area = b * s.channels + c := by
    rw [show s.index b c y x = (b * s.channels + c) * s.area + (y * s.width + x) by
      unfold index area
      ring]
    exact (div_mod_of_lt h.offset_lt).1
  have hchannel := div_mod_of_lt (k := b) h.channel
  unfold tabulate
  rw [Array.getElem?_ofFn, dif_pos h.index_lt]
  dsimp only
  rw [hplane, hchannel.1, hchannel.2, index, hcolumn.1, hcolumn.2, hrow.2]

/-- The position of an element is inside the extents. -/
theorem inside_of_lt {i : ℕ} (hi : i < s.volume) :
    s.Inside (i / s.area / s.channels) (i / s.area % s.channels) (i / s.width % s.height)
      (i % s.width) := by
  have hvolume : s.area * (s.channels * s.batch) = s.volume := by
    unfold volume area
    ring
  have hplane : i / s.area < s.channels * s.batch := Nat.div_lt_of_lt_mul (hvolume ▸ hi)
  have hne : s.batch * s.channels * s.height * s.width ≠ 0 := ((Nat.zero_le i).trans_lt hi).ne'
  simp only [Nat.mul_ne_zero_iff] at hne
  obtain ⟨⟨⟨-, hchannels⟩, hheight⟩, hwidth⟩ := hne
  exact ⟨Nat.div_lt_of_lt_mul hplane, Nat.mod_lt _ (Nat.pos_of_ne_zero hchannels),
    Nat.mod_lt _ (Nat.pos_of_ne_zero hheight), Nat.mod_lt _ (Nat.pos_of_ne_zero hwidth)⟩

/-- Every element of a table is the value of its formula at a position. -/
theorem exists_of_mem_tabulate {f : ℕ → ℕ → ℕ → ℕ → α} {v : α} (h : v ∈ s.tabulate f) :
    ∃ b c y x, s.Inside b c y x ∧ f b c y x = v := by
  obtain ⟨⟨i, hi⟩, rfl⟩ := Array.mem_ofFn.mp h
  exact ⟨_, _, _, _, inside_of_lt hi, rfl⟩

/-- Formulas with the same values inside the extents have the same table. -/
theorem tabulate_congr {f g : ℕ → ℕ → ℕ → ℕ → α}
    (h : ∀ b c y x, s.Inside b c y x → f b c y x = g b c y x) : s.tabulate f = s.tabulate g := by
  unfold tabulate
  congr 1
  funext i
  exact h _ _ _ _ (inside_of_lt i.isLt)

/-- A table can be mapped through its formula. -/
theorem map_tabulate {β : Type} (g : α → β) (f : ℕ → ℕ → ℕ → ℕ → α) :
    (s.tabulate f).map g = s.tabulate fun b c y x => g (f b c y x) := by
  unfold tabulate
  rw [Array.map_ofFn]
  rfl

/-- What all elements and the substitute have, has whatever is read. -/
theorem forall_read {P : α → Prop} {values : Array α} {absent : α} (hvalues : ∀ v ∈ values, P v)
    (habsent : P absent) : P (s.read values absent b c y x) := by
  rw [read, Array.getD_eq_getD_getElem?]
  cases hget : values[s.index b c y x]? with
  | none => exact habsent
  | some v => exact hvalues v (Array.mem_of_getElem? hget)

/-- Inside the extents of a full array nothing is substituted. -/
theorem getElem?_index {values : Array α} (absent : α) (hsize : values.size = s.volume)
    (h : s.Inside b c y x) :
    values[s.index b c y x]? = some (s.read values absent b c y x) := by
  have hindex : s.index b c y x < values.size := hsize ▸ h.index_lt
  rw [read, Array.getD_eq_getD_getElem?, Array.getElem?_eq_getElem hindex]
  rfl

theorem read_tabulate (f : ℕ → ℕ → ℕ → ℕ → α) (absent : α) (h : s.Inside b c y x) :
    s.read (s.tabulate f) absent b c y x = f b c y x := by
  rw [read, Array.getD_eq_getD_getElem?, getElem?_tabulate f h]
  rfl

/-- The element of a padded tensor: an element of the data, or else the fill. -/
theorem read_pad (padding : Padding) (fill : α) (values : Array α)
    (h : (s.padded padding).Inside b c y x) :
    (s.padded padding).read (pad s padding fill values) fill b c y x
      = if padding.top ≤ y ∧ y < padding.top + s.height
          ∧ padding.left ≤ x ∧ x < padding.left + s.width then
        s.read values fill b c (y - padding.top) (x - padding.left)
      else fill :=
  read_tabulate _ fill h

end DyadicNet.Eval.Nchw
