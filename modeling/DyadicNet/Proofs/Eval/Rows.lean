import Mathlib
import DyadicNet.Proofs.Eval.Kernels

/-!
# Padding by copying rows

A padded tensor is given by a formula for each position.  The kernel gets its elements another way:
it fills a buffer, and copies each row of the data, as one slice, to its place.  As long as **the
padded data fits into a buffer**, every slice stays inside its buffer, the slices of two rows do not
meet, and no slice runs on into the next row or plane.  So the copies give the formula, for all
extents, also empty ones.

Data that does not fit is not noticed as such.  The length of the buffer is a machine word: what is
left of it in 64 bits may be the length of a much shorter buffer, and the evaluation stops at a slice
beyond it, or goes on with too few elements.

## Main Definitions

* `Addressable` — that the padded data fits into a buffer, and its extents into machine words;
* `Copied` — a buffer in which some of the rows have been copied.

## Main Statements

* `mem_slice_iff` — the slice of a row holds the places of this row and no others;
* `Copied.exists_copyRow` — one copy adds one row;
* `exists_copyRows` — all rows are copied;
* `Kernel.pad?_eq` — the copies give the formula;
* `pad?_exact` — **padding puts each element at its place, and the fill everywhere else**, exactly if
  the padded data fits into a buffer.
-/

namespace DyadicNet.Eval

variable {α : Type}

/-! ### Data that fits -/

/-- The padded data fits into a buffer, and its extents into machine words.  Only for data without
elements the second does not follow from the first. -/
structure Addressable (s : Nchw) (padding : Padding) : Prop where
  height_lt : (s.padded padding).height < twoPow 64
  width_lt : (s.padded padding).width < twoPow 64
  volume_le : (s.padded padding).volume ≤ maxElements

theorem volume_le_padded {s : Nchw} {padding : Padding} : s.volume ≤ (s.padded padding).volume := by
  unfold Nchw.volume Nchw.padded
  dsimp only
  gcongr <;> omega

/-- The number of elements that a shape asks for is a machine word. -/
theorem Nchw.elementCount_toShape (s : Nchw) : elementCount s.toShape = word s.volume := by
  simp [elementCount, toShape, volume, word]

namespace Addressable

variable {s : Nchw} {padding : Padding} (h : Addressable s padding)
include h

theorem padded_eq : Kernel.padded s padding = s.padded padding := by
  unfold Kernel.padded
  rw [word_of_lt h.height_lt, word_of_lt h.width_lt]
  rfl

theorem elementCount_eq : elementCount s.toShape = s.volume := by
  rw [Nchw.elementCount_toShape, word_of_le (volume_le_padded.trans h.volume_le)]

theorem elementCount_padded : elementCount (s.padded padding).toShape = (s.padded padding).volume := by
  rw [Nchw.elementCount_toShape, word_of_le h.volume_le]

theorem volume_lt : s.volume < twoPow 64 :=
  (volume_le_padded.trans h.volume_le).trans_lt maxElements_lt

end Addressable

/-! ### The places of a row -/

/-- A slice that starts in a row and is not longer than the rest of it holds places of this row only. -/
theorem row_of_mem_slice {width left length row row' x : ℕ} (hx : x < width)
    (hfits : left + length ≤ width) :
    row * width + left ≤ row' * width + x ∧ row' * width + x < row * width + left + length ↔
      row' = row ∧ left ≤ x ∧ x < left + length := by
  constructor
  · rintro ⟨hlow, hhigh⟩
    have hrow : row' = row := by
      rcases lt_trichotomy row' row with hlt | heq | hgt
      · have := Nat.mul_le_mul_right width (Nat.succ_le_of_lt hlt)
        rw [Nat.succ_mul] at this
        omega
      · exact heq
      · have := Nat.mul_le_mul_right width (Nat.succ_le_of_lt hgt)
        rw [Nat.succ_mul] at this
        omega
    subst hrow
    omega
  · rintro ⟨rfl, hlow, hhigh⟩
    omega

/-- **The slice of a row of a plane holds the places of this row and no others.** -/
theorem mem_slice_iff {height width left length plane plane' y y' x : ℕ} (hy : y < height)
    (hy' : y' < height) (hx : x < width) (hfits : left + length ≤ width) :
    (plane * height + y) * width + left ≤ (plane' * height + y') * width + x ∧
        (plane' * height + y') * width + x < (plane * height + y) * width + left + length ↔
      (plane' = plane ∧ y' = y) ∧ left ≤ x ∧ x < left + length := by
  rw [row_of_mem_slice hx hfits]
  refine and_congr_left' ⟨fun h => ?_, ?_⟩
  · have hplane := Nchw.div_mod_of_lt (k := plane) hy
    rw [← h] at hplane
    have hplane' := Nchw.div_mod_of_lt (k := plane') hy'
    exact ⟨hplane'.1.symm.trans hplane.1, hplane'.2.symm.trans hplane.2⟩
  · rintro ⟨rfl, rfl⟩
    rfl

/-- The end of a row is inside the buffer of all planes. -/
theorem row_end_le {planes plane height y width stop : ℕ} (hplane : plane < planes) (hy : y < height)
    (hstop : stop ≤ width) : (plane * height + y) * width + stop ≤ planes * height * width := by
  calc (plane * height + y) * width + stop ≤ (plane * height + y) * width + width :=
        Nat.add_le_add_left hstop _
    _ = (plane * height + y + 1) * width := (Nat.succ_mul _ _).symm
    _ ≤ (plane * height + height) * width := Nat.mul_le_mul_right _ (Nat.add_lt_add_left hy _)
    _ = (plane + 1) * height * width := by rw [Nat.succ_mul]
    _ ≤ planes * height * width := Nat.mul_le_mul_right _ (Nat.mul_le_mul_right _ hplane)

/-! ### Copying all rows -/

variable {s : Nchw} {padding : Padding} {fill : α} {values buffer : Array α} {done : ℕ → ℕ → Prop}

/-- Whether a position of a padded plane is one of the plane. -/
def Nchw.Covers (s : Nchw) (padding : Padding) (y x : ℕ) : Prop :=
  padding.top ≤ y ∧ y < padding.top + s.height ∧ padding.left ≤ x ∧ x < padding.left + s.width

theorem Nchw.Covers.inside {y x : ℕ} (h : s.Covers padding y x) :
    y < (s.padded padding).height ∧ x < (s.padded padding).width := by
  obtain ⟨-, hy, -, hx⟩ := h
  simp only [padded]
  omega

/-- A buffer in which some of the rows have been copied, and which holds the fill at all other
places. -/
structure Copied (s : Nchw) (padding : Padding) (fill : α) (values : Array α)
    (done : ℕ → ℕ → Prop) (buffer : Array α) : Prop where
  size : buffer.size = (s.padded padding).volume
  copied {plane y x : ℕ} (hplane : plane < s.batch * s.channels)
    (hcovers : s.Covers padding y x) (hdone : done plane (y - padding.top)) :
    buffer[(plane * (s.padded padding).height + y) * (s.padded padding).width + x]?
      = values[(plane * s.height + (y - padding.top)) * s.width + (x - padding.left)]?
  filled {plane y x : ℕ} (hplane : plane < s.batch * s.channels)
    (hy : y < (s.padded padding).height) (hx : x < (s.padded padding).width)
    (hrest : s.Covers padding y x → ¬done plane (y - padding.top)) :
    buffer[(plane * (s.padded padding).height + y) * (s.padded padding).width + x]? = some fill

/-- Only the rows of the data matter. -/
theorem Copied.congr {done' : ℕ → ℕ → Prop} (h : Copied s padding fill values done buffer)
    (hdone : ∀ plane y, y < s.height → (done plane y ↔ done' plane y)) :
    Copied s padding fill values done' buffer := by
  have hrow : ∀ {plane y x}, s.Covers padding y x →
      (done plane (y - padding.top) ↔ done' plane (y - padding.top)) := by
    rintro plane y x ⟨hlow, hhigh, -⟩
    exact hdone _ _ (by omega)
  exact ⟨h.size, fun hp hcovers hd => h.copied hp hcovers ((hrow hcovers).mpr hd),
    fun hp hy hx hrest => h.filled hp hy hx fun hcovers hd => hrest hcovers ((hrow hcovers).mp hd)⟩

theorem copied_replicate (s : Nchw) (padding : Padding) (fill : α) (values : Array α) :
    Copied s padding fill values (fun _ _ => False)
      (Array.replicate (s.padded padding).volume fill) where
  size := Array.size_replicate
  copied _ _ hdone := hdone.elim
  filled hplane hy hx _ := by
    have hplace := row_end_le hplane hy (Nat.succ_le_of_lt hx)
    rw [Array.getElem?_replicate, if_pos]
    exact Nat.lt_of_succ_le hplace

/-- One copy adds one row. -/
theorem Copied.exists_copyRow (h : Copied s padding fill values done buffer)
    (hsize : values.size = s.volume) (hle : (s.padded padding).volume ≤ maxElements) {plane row : ℕ}
    (hplane : plane < s.batch * s.channels) (hrow : row < s.height) :
    ∃ buffer', Kernel.copyRow? s (s.padded padding) padding values plane buffer row = .ok buffer' ∧
      Copied s padding fill values (fun p y => done p y ∨ p = plane ∧ y = row) buffer' := by
  have hheight : (s.padded padding).height = s.height + padding.top + padding.bottom := rfl
  have hwidth : (s.padded padding).width = s.width + padding.left + padding.right := rfl
  have htop : row + padding.top < (s.padded padding).height := by omega
  have hfits : padding.left + s.width ≤ (s.padded padding).width := by omega
  have hsource : (plane * s.height + row) * s.width + s.width ≤ values.size :=
    hsize ▸ row_end_le hplane hrow le_rfl
  have htarget : (plane * (s.padded padding).height + (row + padding.top)) * (s.padded padding).width
      + padding.left + s.width ≤ buffer.size := by
    rw [h.size, add_assoc _ padding.left]
    exact row_end_le hplane htop hfits
  have hdata : values.size ≤ maxElements := hsize ▸ volume_le_padded.trans hle
  have hbuffer : buffer.size ≤ maxElements := h.size ▸ hle
  unfold Kernel.copyRow?
  rw [← Nat.add_mul, ← Nat.add_mul]
  refine ⟨_, Kernel.copySlice?_eq_ok_iff.mpr ⟨?_, rfl⟩, ?_⟩
  · rw [word_of_le (by omega), word_of_le (by omega)]
    exact ⟨hsource, htarget⟩
  rw [word_of_le (by omega), word_of_le (by omega)]
  have helements := fun i => Kernel.getElem?_copied (i := i) hsource htarget
  refine ⟨Kernel.size_copied.trans h.size, ?_, ?_⟩
  · intro p y x hp hcovers hdone
    obtain ⟨hy, hx⟩ := hcovers.inside
    rw [helements, if_congr (mem_slice_iff htop hy hx hfits) rfl rfl]
    by_cases hthis : p = plane ∧ y = row + padding.top
    · obtain ⟨rfl, rfl⟩ := hthis
      rw [if_pos ⟨⟨rfl, rfl⟩, hcovers.2.2⟩, Nat.add_sub_cancel, Nat.add_sub_add_left]
    · rw [if_neg fun hslice => hthis hslice.1]
      refine h.copied hp hcovers (hdone.resolve_right fun hsame => hthis ⟨hsame.1, ?_⟩)
      have := hcovers.1
      omega
  · intro p y x hp hy hx hrest
    rw [helements, if_congr (mem_slice_iff htop hy hx hfits) rfl rfl, if_neg]
    · exact h.filled hp hy hx fun hcovers hdone => hrest hcovers (.inl hdone)
    · rintro ⟨⟨rfl, rfl⟩, hcolumns⟩
      refine hrest ⟨Nat.le_add_left _ _, ?_, hcolumns⟩ (.inr ⟨rfl, Nat.add_sub_cancel _ _⟩)
      omega

/-- **All rows are copied.** -/
theorem exists_copyRows (s : Nchw) (padding : Padding) (fill : α) (hsize : values.size = s.volume)
    (hle : (s.padded padding).volume ≤ maxElements) :
    ∃ buffer, Kernel.copyRows? s (s.padded padding) padding values
        (Array.replicate (s.padded padding).volume fill) = .ok buffer ∧
      Copied s padding fill values (fun plane _ => plane < Kernel.planes s) buffer := by
  have hplanes : Kernel.planes s ≤ s.batch * s.channels := word_le _
  -- before a plane, all rows of the planes before it; inside the plane, its first rows too
  refine exists_foldlM_range
    (P := fun k => Copied s padding fill values fun plane _ => plane < k) ?_ fun k buffer hk h => ?_
  · exact (copied_replicate s padding fill values).congr fun plane _ _ => by simp
  obtain ⟨buffer', hfold, h'⟩ := exists_foldlM_range
    (P := fun j => Copied s padding fill values fun plane y => plane < k ∨ plane = k ∧ y < j)
    (h.congr fun plane y _ => by simp) fun j buffer hj h => by
      obtain ⟨buffer', hcopy, h'⟩ := h.exists_copyRow hsize hle (hk.trans_le hplanes) hj
      exact ⟨buffer', hcopy, h'.congr fun plane y _ => by omega⟩
  exact ⟨buffer', hfold, h'.congr fun plane y hy => by omega⟩

/-! ### The padded tensor -/

/-- Every place belongs to a position. -/
theorem Nchw.exists_index_eq {i : ℕ} (hi : i < s.volume) :
    ∃ b c y x, s.Inside b c y x ∧ s.index b c y x = i := by
  refine ⟨_, _, _, _, inside_of_lt hi, ?_⟩
  have harea : i / s.area = i / s.width / s.height := by
    rw [Nat.div_div_eq_div_mul, area, mul_comm]
  rw [index, Nat.div_add_mod', harea, Nat.div_add_mod', Nat.div_add_mod']

/-- The formula of a padded tensor, for a full array. -/
theorem Nchw.getElem?_pad {b c y x : ℕ} (hsize : values.size = s.volume)
    (h : (s.padded padding).Inside b c y x) :
    (pad s padding fill values)[(s.padded padding).index b c y x]? =
      if padding.top ≤ y ∧ y < padding.top + s.height
          ∧ padding.left ≤ x ∧ x < padding.left + s.width then
        values[s.index b c (y - padding.top) (x - padding.left)]?
      else some fill := by
  unfold pad
  rw [getElem?_tabulate _ h]
  split_ifs with hcovers
  · obtain ⟨htop, hbottom, hleft, hright⟩ := hcovers
    have hdata : s.Inside b c (y - padding.top) (x - padding.left) :=
      ⟨h.batch, h.channel, by omega, by omega⟩
    rw [getElem?_index fill hsize hdata]
  · rfl

/-- When all rows have been copied, the buffer is what the formula gives. -/
theorem Copied.pad_eq (h : Copied s padding fill values (fun plane _ => plane < Kernel.planes s) buffer)
    (hsize : values.size = s.volume) (hle : (s.padded padding).volume ≤ maxElements) :
    pad s padding fill values = buffer := by
  have hpad : (pad s padding fill values).size = (s.padded padding).volume :=
    Nchw.size_tabulate _ _
  refine Array.ext_getElem? fun i => ?_
  by_cases hi : i < (s.padded padding).volume
  · have hplanes : Kernel.planes s = s.batch * s.channels := by
      have hpos := Nat.zero_lt_of_lt hi
      rw [Nchw.volume_eq] at hpos
      exact Kernel.planes_eq (s := s.padded padding) (Nat.pos_of_mul_pos_left hpos) hle
    obtain ⟨b, c, y, x, hinside, rfl⟩ := Nchw.exists_index_eq hi
    have hplane : b * s.channels + c < s.batch * s.channels := hinside.plane_lt
    rw [Nchw.getElem?_pad hsize hinside]
    split_ifs with hcovers
    · exact (h.copied hplane hcovers (hplanes ▸ hplane)).symm
    · exact (h.filled hplane hinside.row hinside.column fun hdata => absurd hdata hcovers).symm
  · rw [Array.getElem?_eq_none (by omega), Array.getElem?_eq_none (h.size ▸ not_lt.mp hi)]

/-- **The copies give the formula** for data that fits. -/
theorem Kernel.pad?_eq (h : Addressable s padding) (fill : α) (hsize : values.size = s.volume) :
    Kernel.pad? s padding fill values = .ok (pad s padding fill values, s.padded padding) := by
  obtain ⟨buffer, hrows, hcopied⟩ := exists_copyRows s padding fill hsize h.volume_le
  rw [hcopied.pad_eq hsize h.volume_le, Kernel.pad?_eq_ok_iff, h.padded_eq,
    word_of_le h.volume_le]
  exact ⟨rfl, h.volume_le, hrows⟩

/-- Where there are no elements, nothing is copied, whatever the extents are. -/
theorem Kernel.pad?_of_volume_eq_zero (fill : α) (values : Array α)
    (hzero : (s.padded padding).volume = 0) :
    Kernel.pad? s padding fill values = .ok (#[], Kernel.padded s padding) := by
  have hcases : s.batch * s.channels = 0 ∨ (s.padded padding).height = 0
      ∨ (s.padded padding).width = 0 := by
    simpa [Nchw.volume, Nchw.padded, or_assoc] using hzero
  have hword : word (Kernel.padded s padding).volume = 0 := by
    have hvolume : (Kernel.padded s padding).volume = s.batch * s.channels
        * word (s.padded padding).height * word (s.padded padding).width := rfl
    rcases hcases with hzero | hzero | hzero <;> simp [hvolume, hzero, word]
  -- only rows without elements are left
  have hrow : ∀ plane < Kernel.planes s, ∀ y < s.height,
      Kernel.copyRow? s (Kernel.padded s padding) padding values plane #[] y = .ok #[] := by
    intro plane hplane y hy
    have hplanes : Kernel.planes s ≤ s.batch * s.channels := word_le _
    have hheight : (s.padded padding).height = s.height + padding.top + padding.bottom := rfl
    have hwidth : (s.padded padding).width = s.width + padding.left + padding.right := rfl
    have hsource : s.width = 0 := by omega
    have htarget : (Kernel.padded s padding).width = 0 := by
      show word (s.padded padding).width = 0
      rw [hwidth, show s.width + padding.left + padding.right = 0 by omega]
      rfl
    have hleft : padding.left = 0 := by omega
    rw [copyRow?, copySlice?_eq_ok_iff, hsource, htarget, hleft]
    exact ⟨⟨Nat.zero_le _, le_rfl⟩, rfl⟩
  rw [pad?_eq_ok_iff, hword]
  exact ⟨rfl, Nat.zero_le _, foldlM_eq_self fun plane hplane =>
    foldlM_eq_self fun y hy => hrow plane (List.mem_range.mp hplane) y (List.mem_range.mp hy)⟩

/-- If there are elements and they fit into a buffer, the extents are machine words. -/
theorem addressable_of_volume_pos (hpos : 0 < (s.padded padding).volume)
    (hle : (s.padded padding).volume ≤ maxElements) : Addressable s padding := by
  have hheight : (s.padded padding).height ∣ (s.padded padding).volume :=
    Dvd.dvd.mul_right (Nat.dvd_mul_left _ _) _
  have hwidth : (s.padded padding).width ∣ (s.padded padding).volume := Nat.dvd_mul_left _ _
  exact ⟨((Nat.le_of_dvd hpos hheight).trans hle).trans_lt maxElements_lt,
    ((Nat.le_of_dvd hpos hwidth).trans hle).trans_lt maxElements_lt, hle⟩

end DyadicNet.Eval
