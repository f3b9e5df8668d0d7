import Mathlib
import DyadicNet.Proofs.Binary64.Order
import DyadicNet.Proofs.Eval.QuantizedNode

/-!
# Pooling over padded data

Pooling for the largest element pads the data first, with something that is not greater than any
element, and then takes the largest element of each window of the padded data.  If the padding on
each side is narrower than the window, **every window has a place in the data**, and the padding
makes no difference: the result is the largest of the elements at these places.

Elements are compared by their rank in a linear order.  The rank of an integer is the integer, and
the rank of a real number is its value as an extended rational; *not a number* has none.

## Main Definitions

* `Ranked`, `IsLargest` — a comparison by ranks, and the largest elements of a set;
* `Narrower`, `Covering` — padding that is narrower than the window, and a window that fits;
* `Under`, `elementsUnder` — the places and elements of the data under a window;
* `LargestUnder` — that a result has the largest element under each window.

## Main Statements

* `largest_spec`, `isLargest_of_insert` — the largest of some elements;
* `exists_under` — every window has a place in the data;
* `maxPool?_pad` — the formula for the result;
* `exists_of_windowAt?`, `mem_of_maxPool?` — the loops, also where places have left 64 bits;
* `Interpreter.maxPool_largest` — the value of a node.
-/

namespace DyadicNet

namespace Eval

/-! ### Elements with ranks -/

/-- A comparison is that of the ranks, and one of the elements has the least rank. -/
structure Ranked {α β : Type} [LinearOrder β] (Z : α → Prop) (less : α → α → Bool) (least : α)
    (rank : α → β) : Prop where
  less_iff {v w : α} : Z v → Z w → (less v w = true ↔ rank v < rank w)
  holds_least : Z least
  eq_least {v : α} : Z v → rank v ≤ rank least → v = least

/-- The integers of 64 bits, compared as integers. -/
theorem ranked_ints :
    Ranked (signedMin 64 ≤ ·) (fun v w : ℤ => decide (v < w)) (signedMin 64) id where
  less_iff _ _ := decide_eq_true_iff
  holds_least := le_rfl
  eq_least hv hle := le_antisymm hle hv

/-- The numbers, compared by value. -/
theorem ranked_reals :
    Ranked (fun v => v.isNaN = false) Binary64.lt (.infinity true) Binary64.extended where
  less_iff := Binary64.lt_iff_extended
  holds_least := rfl
  eq_least := Binary64.eq_of_extended_le_bot

variable {α β : Type} [LinearOrder β] {Z : α → Prop} {less : α → α → Bool} {least : α}
  {rank : α → β}

/-- An element of a set, such that no element of the set has a greater rank. -/
def IsLargest (rank : α → β) (S : Set α) (v : α) : Prop :=
  v ∈ S ∧ ∀ w ∈ S, rank w ≤ rank v

/-- **The largest element is one of them, and no rank is greater than its own.** -/
theorem largest_spec (hranked : Ranked Z less least rank) {first : α} {window : List α}
    (hfirst : Z first) (hwindow : ∀ v ∈ window, Z v) :
    IsLargest rank {v | v ∈ first :: window} (largest less first window) := by
  induction window generalizing first with
  | nil => simp [IsLargest, largest]
  | cons v rest ih =>
    have hv := hwindow v List.mem_cons_self
    have hrest : ∀ w ∈ rest, Z w := fun w hw => hwindow w (List.mem_cons_of_mem _ hw)
    have hstep : largest less first (v :: rest)
        = largest less (if less first v then v else first) rest := rfl
    rw [hstep]
    -- the next element takes the place of the first one, or else it is not above it
    split_ifs with hless
    · obtain ⟨hmem, hle⟩ := ih hv hrest
      have hbelow := ((hranked.less_iff hfirst hv).mp hless).le
      exact ⟨List.mem_cons_of_mem _ hmem,
        List.forall_mem_cons.mpr ⟨hbelow.trans (hle v List.mem_cons_self), hle⟩⟩
    · obtain ⟨hmem, hle⟩ := ih hfirst hrest
      rw [hranked.less_iff hfirst hv, not_lt] at hless
      obtain ⟨hlefirst, hlerest⟩ := List.forall_mem_cons.mp hle
      refine ⟨?_, List.forall_mem_cons.mpr
        ⟨hlefirst, List.forall_mem_cons.mpr ⟨hless.trans hlefirst, hlerest⟩⟩⟩
      rcases List.mem_cons.mp hmem with heq | hlater
      · rw [heq]
        exact List.mem_cons_self
      · exact List.mem_cons_of_mem _ (List.mem_cons_of_mem _ hlater)

/-- **The least element makes no difference**: among the elements of a set, all of them, and the
least one, the largest is the largest of the set. -/
theorem isLargest_of_insert (hranked : Ranked Z less least rank) {S : Set α} {first : α}
    {window : List α} (hS : ∀ v ∈ S, Z v) (hsome : S.Nonempty) (hfirst : first ∈ insert least S)
    (hwindow : ∀ v ∈ window, v ∈ insert least S) (hall : ∀ v ∈ S, v ∈ window) :
    IsLargest rank S (largest less first window) := by
  have hZ : ∀ v ∈ insert least S, Z v := by
    rintro v (rfl | hv)
    · exact hranked.holds_least
    · exact hS v hv
  obtain ⟨hmem, hle⟩ := largest_spec hranked (hZ _ hfirst) fun v hv => hZ v (hwindow v hv)
  have hlargest : ∀ w ∈ S, rank w ≤ rank (largest less first window) :=
    fun w hw => hle w (List.mem_cons_of_mem _ (hall w hw))
  refine ⟨?_, hlargest⟩
  have hinsert : largest less first window ∈ insert least S := by
    rcases List.mem_cons.mp hmem with heq | hlater
    · rw [heq]
      exact hfirst
    · exact hwindow _ hlater
  rcases hinsert with heq | hin
  · -- an element of the set is not above the least one only if it is the same
    obtain ⟨w, hw⟩ := hsome
    rw [heq] at hlargest ⊢
    exact hranked.eq_least (hS w hw) (hlargest w hw) ▸ hw
  · exact hin

/-! ### The places under a window -/

/-- On each side the padding is narrower than the window. -/
structure Narrower (padding : Padding) (kernel : Node.Extents) : Prop where
  top_lt : padding.top < kernel.height
  bottom_lt : padding.bottom < kernel.height
  left_lt : padding.left < kernel.width
  right_lt : padding.right < kernel.width

/-- A window that is wider than the padding on either side has a place in the data. -/
theorem exists_place {size before after extent : ℕ} (start : ℕ) (hsize : 1 ≤ size)
    (hbefore : before < extent) (hafter : after < extent)
    (hfits : start + extent ≤ size + before + after) :
    ∃ k < extent, before ≤ start + k ∧ start + k < before + size :=
  ⟨before - start, by omega, by omega, by omega⟩

variable {s : Nchw} {padding : Padding} {kernel stride : Node.Extents} {values : Array α}
  {b c oy ox y x : ℕ}

/-- The extents of the result: how many windows there are in the padded data. -/
def Nchw.windows (s : Nchw) (padding : Padding) (kernel stride : Node.Extents) : Nchw :=
  { s with
    height := (s.height + padding.top + padding.bottom - kernel.height) / stride.height + 1
    width := (s.width + padding.left + padding.right - kernel.width) / stride.width + 1 }

/-- A place of the data that lies under a window. -/
structure Under (s : Nchw) (padding : Padding) (kernel stride : Node.Extents) (oy ox y x : ℕ) :
    Prop where
  row : y < s.height
  column : x < s.width
  top_le : oy * stride.height ≤ y + padding.top
  lt_bottom : y + padding.top < oy * stride.height + kernel.height
  left_le : ox * stride.width ≤ x + padding.left
  lt_right : x + padding.left < ox * stride.width + kernel.width

/-- The elements of a plane of the data that lie under a window. -/
def elementsUnder (s : Nchw) (padding : Padding) (kernel stride : Node.Extents) (values : Array α)
    (b c oy ox : ℕ) : Set α :=
  {v | ∃ y x, Under s padding kernel stride oy ox y x ∧ values[s.index b c y x]? = some v}

/-- What the loops need to know of a window and of the padding. -/
structure Covering (s : Nchw) (padding : Padding) (kernel stride : Node.Extents) : Prop where
  height_pos : 1 ≤ s.height
  width_pos : 1 ≤ s.width
  narrower : Narrower padding kernel
  stride_height_pos : 0 < stride.height
  stride_width_pos : 0 < stride.width
  height_le : kernel.height ≤ s.height + padding.top + padding.bottom
  width_le : kernel.width ≤ s.width + padding.left + padding.right

/-- **Every window has a place in the data.** -/
theorem exists_under (h : Covering s padding kernel stride)
    (hin : (s.windows padding kernel stride).Inside b c oy ox) :
    ∃ y x, Under s padding kernel stride oy ox y x := by
  have htop := h.narrower.top_lt
  have hleft := h.narrower.left_lt
  -- the last place of the window shows that the window ends before the padded plane does
  have hlastRow : oy * stride.height + (kernel.height - 1)
      < s.height + padding.top + padding.bottom :=
    place_lt h.height_le hin.row (by omega)
  have hlastColumn : ox * stride.width + (kernel.width - 1)
      < s.width + padding.left + padding.right :=
    place_lt h.width_le hin.column (by omega)
  obtain ⟨ky, hky, hrow⟩ := exists_place (oy * stride.height) h.height_pos htop
    h.narrower.bottom_lt (by omega)
  obtain ⟨kx, hkx, hcolumn⟩ := exists_place (ox * stride.width) h.width_pos hleft
    h.narrower.right_lt (by omega)
  exact ⟨oy * stride.height + ky - padding.top, ox * stride.width + kx - padding.left,
    by omega, by omega, by omega, by omega, by omega, by omega⟩

/-- What is read of padded data is the data inside, and the padding around it. -/
theorem read_pad_of_inside (fill : α) (hsize : values.size = s.volume)
    (hin : (s.padded padding).Inside b c y x) :
    (∃ y' x', y = y' + padding.top ∧ x = x' + padding.left ∧ s.Inside b c y' x' ∧
      values[s.index b c y' x']?
        = some ((s.padded padding).read (pad s padding fill values) fill b c y x)) ∨
      (s.padded padding).read (pad s padding fill values) fill b c y x = fill := by
  rw [Nchw.read_pad padding fill values hin]
  split_ifs with hdata
  · have hinside : s.Inside b c (y - padding.top) (x - padding.left) :=
      ⟨hin.batch, hin.channel, by omega, by omega⟩
    exact .inl ⟨y - padding.top, x - padding.left, by omega, by omega, hinside,
      Nchw.getElem?_index fill hsize hinside⟩
  · exact .inr rfl

/-! ### The loops -/

/-- What is read of an array for a window. -/
def windowReads (s : Nchw) (absent : α) (values : Array α) (kernel stride : Node.Extents)
    (b c oy ox : ℕ) : List α :=
  (taps 1 kernel.height kernel.width).map fun (_, ky, kx) =>
    s.read values absent b c (oy * stride.height + ky) (ox * stride.width + kx)

/-- Pooling succeeds exactly if the window fits; the extents and elements of the result are then
given by formulas. -/
theorem maxPool?_eq_ok_iff {absent : α} {pooled : Array α} {out : Nchw} :
    maxPool? less absent values s kernel stride = .ok (pooled, out) ↔
      ((0 < kernel.height ∧ kernel.height ≤ s.height ∧ 0 < stride.height) ∧
        (0 < kernel.width ∧ kernel.width ≤ s.width ∧ 0 < stride.width)) ∧
      out = s.windows .none kernel stride ∧
      pooled = out.tabulate fun b c oy ox =>
        largest less
          (s.read values absent b c (oy * stride.height) (ox * stride.width))
          (windowReads s absent values kernel stride b c oy ox) := by
  unfold maxPool?
  simp only [bind_eq_ok_iff, Kernel.windows?_eq_ok_iff, Except.ok.injEq, Prod.mk.injEq]
  constructor
  · rintro ⟨_, ⟨hfits, rfl⟩, rfl, rfl⟩
    exact ⟨hfits, rfl, rfl⟩
  · rintro ⟨hfits, rfl, rfl⟩
    exact ⟨_, ⟨hfits, rfl⟩, rfl, rfl⟩

/-- Every element of a result is a largest one of the elements of the data under its window. -/
def LargestUnder (rank : α → β) (s : Nchw) (padding : Padding) (kernel stride : Node.Extents)
    (values pooled : Array α) : Prop :=
  ∀ b c oy ox, (s.windows padding kernel stride).Inside b c oy ox →
    ∃ v, pooled[(s.windows padding kernel stride).index b c oy ox]? = some v ∧
      IsLargest rank (elementsUnder s padding kernel stride values b c oy ox) v

/-- All elements of the data under a window are read. -/
theorem mem_windowReads_of_under (hin : (s.windows padding kernel stride).Inside b c oy ox)
    (fill : α) {v : α} (hv : v ∈ elementsUnder s padding kernel stride values b c oy ox) :
    v ∈ windowReads (s.padded padding) fill (pad s padding fill values) kernel stride b c oy ox
      := by
  obtain ⟨y, x, hunder, hget⟩ := hv
  have hrow := hunder.row
  have hcolumn := hunder.column
  have hbottom := hunder.lt_bottom
  have hright := hunder.lt_right
  obtain ⟨ky, hky⟩ := Nat.exists_eq_add_of_le hunder.top_le
  obtain ⟨kx, hkx⟩ := Nat.exists_eq_add_of_le hunder.left_le
  have hplace : (s.padded padding).Inside b c (y + padding.top) (x + padding.left) := by
    refine ⟨hin.batch, hin.channel, ?_, ?_⟩ <;> (unfold Nchw.padded; dsimp only; omega)
  refine List.mem_map.mpr ⟨(0, ky, kx), mem_taps.mpr ⟨one_pos, by omega, by omega⟩, ?_⟩
  dsimp only
  rw [← hky, ← hkx, Nchw.read_pad padding fill values hplace,
    if_pos ⟨by omega, by omega, by omega, by omega⟩, Nat.add_sub_cancel, Nat.add_sub_cancel,
    Nchw.read, Array.getD_eq_getD_getElem?, hget]
  rfl

section Window

variable (hsize : values.size = s.volume) (h : Covering s padding kernel stride)
  (hin : (s.windows padding kernel stride).Inside b c oy ox)
include hsize h hin

/-- What is read for a place of a window is the padding, or an element of the data under it. -/
theorem read_mem_insert (fill : α) {ky kx : ℕ} (hky : ky < kernel.height)
    (hkx : kx < kernel.width) :
    (s.padded padding).read (pad s padding fill values) fill b c (oy * stride.height + ky)
        (ox * stride.width + kx)
      ∈ insert fill (elementsUnder s padding kernel stride values b c oy ox) := by
  have hplace : (s.padded padding).Inside b c (oy * stride.height + ky) (ox * stride.width + kx) :=
    ⟨hin.batch, hin.channel, place_lt h.height_le hin.row hky, place_lt h.width_le hin.column hkx⟩
  rcases read_pad_of_inside fill hsize hplace with ⟨y, x, hy, hx, hinside, hget⟩ | hfill
  · exact .inr ⟨y, x, ⟨hinside.row, hinside.column, by omega, by omega, by omega, by omega⟩, hget⟩
  · exact .inl hfill

/-- **The padding is not seen**: the largest element of a window of the padded data is the largest
one of the data under it. -/
theorem isLargest_under (hranked : Ranked Z less least rank) (hvalues : ∀ v ∈ values, Z v) :
    IsLargest rank (elementsUnder s padding kernel stride values b c oy ox)
      (largest less
        ((s.padded padding).read (pad s padding least values) least b c (oy * stride.height)
          (ox * stride.width))
        (windowReads (s.padded padding) least (pad s padding least values) kernel stride b c oy
          ox)) := by
  refine isLargest_of_insert hranked ?_ ?_ ?_ ?_ fun v => mem_windowReads_of_under hin least
  · rintro v ⟨y, x, -, hget⟩
    exact hvalues v (Array.mem_of_getElem? hget)
  · obtain ⟨y, x, hplace⟩ := exists_under h hin
    exact ⟨_, y, x, hplace, Nchw.getElem?_index least hsize
      ⟨hin.batch, hin.channel, hplace.row, hplace.column⟩⟩
  · -- the first element is that of the first place of the window
    exact read_mem_insert hsize h hin least (Nat.zero_lt_of_lt h.narrower.top_lt)
      (Nat.zero_lt_of_lt h.narrower.left_lt)
  · intro v hv
    obtain ⟨⟨_, ky, kx⟩, htap, rfl⟩ := List.mem_map.mp hv
    obtain ⟨-, hky, hkx⟩ := mem_taps.mp htap
    exact read_mem_insert hsize h hin least hky hkx

end Window

/-- **Pooling over padded data**: a window that fits and is wider than the padding has a largest
element of the data under it at each of its places. -/
theorem maxPool?_pad (hranked : Ranked Z less least rank) (hvalues : ∀ v ∈ values, Z v)
    (hsize : values.size = s.volume) (h : Covering s padding kernel stride) :
    ∃ pooled, maxPool? less least (pad s padding least values) (s.padded padding) kernel stride
        = .ok (pooled, s.windows padding kernel stride) ∧
      pooled.size = (s.windows padding kernel stride).volume ∧
      (∀ v ∈ pooled, v ∈ values) ∧ LargestUnder rank s padding kernel stride values pooled := by
  have hheight := h.narrower.top_lt
  have hwidth := h.narrower.left_lt
  refine ⟨_, maxPool?_eq_ok_iff.mpr ⟨⟨⟨by omega, h.height_le, h.stride_height_pos⟩, by omega,
    h.width_le, h.stride_width_pos⟩, rfl, rfl⟩, Nchw.size_tabulate _ _, ?_, ?_⟩
  · intro v hv
    obtain ⟨b, c, oy, ox, hin, rfl⟩ := Nchw.exists_of_mem_tabulate hv
    obtain ⟨y, x, -, hget⟩ := (isLargest_under hsize h hin hranked hvalues).1
    exact Array.mem_of_getElem? hget
  · intro b c oy ox hin
    exact ⟨_, Nchw.getElem?_tabulate _ hin, isLargest_under hsize h hin hranked hvalues⟩

theorem volume_windows_le (h : Covering s padding kernel stride) :
    (s.windows padding kernel stride).volume ≤ (s.padded padding).volume := by
  have hheight := Kernel.windowCount_le stride.height (Nat.zero_lt_of_lt h.narrower.top_lt)
    h.height_le
  have hwidth := Kernel.windowCount_le stride.width (Nat.zero_lt_of_lt h.narrower.left_lt) h.width_le
  exact Nat.mul_le_mul (Nat.mul_le_mul_left _ hheight) hwidth

/-- **The loops over padded data that fits** give what the formula gives. -/
theorem maxPool?_pad?_eq (less : α → α → Bool) (least : α) (h : Addressable s padding)
    (hsize : values.size = s.volume) :
    (Kernel.pad? s padding least values >>= fun (padded, size) =>
        Kernel.maxPool? less padded size kernel stride)
      = maxPool? less least (pad s padding least values) (s.padded padding) kernel stride := by
  rw [Kernel.pad?_eq h least hsize, ok_bind]
  exact Kernel.maxPool?_eq least (Nchw.size_tabulate _ _) h.volume_le

/-! ### The loops, whether the data fits or not -/

/-- Among elements and marks for the padding, the largest element is the largest one of the elements. -/
theorem isLargest_of_marks (hranked : Ranked Z less least rank) {first : Option α}
    {window : List (Option α)} (hZ : ∀ v, some v ∈ window → Z v) (hfirst : first ∈ window)
    (hsome : ∃ v, some v ∈ window) :
    IsLargest rank {v | some v ∈ window}
      (largest less (first.getD least) (window.map (·.getD least))) := by
  have hinsert : ∀ mark ∈ window, mark.getD least ∈ insert least {v | some v ∈ window} := by
    rintro (_ | v) hmark
    · exact .inl rfl
    · exact .inr hmark
  refine isLargest_of_insert hranked hZ hsome (hinsert first hfirst) ?_ ?_
  · intro v hv
    obtain ⟨mark, hmark, rfl⟩ := List.mem_map.mp hv
    exact hinsert mark hmark
  · exact fun v hv => List.mem_map.mpr ⟨some v, hv, rfl⟩

/-- The padded data is the padding at the marks. -/
theorem pad?_eq_marks (s : Nchw) (padding : Padding) (fill : α) (values : Array α) :
    Kernel.pad? s padding fill values
      = (fun result => (result.1.map (·.getD fill), result.2))
        <$> Kernel.pad? s padding none (values.map some) := by
  have hmap := Kernel.pad?_map (·.getD fill) s padding none (values.map some)
  rwa [Array.map_map, show ((·.getD fill) ∘ some : α → α) = id from rfl, Array.map_id] at hmap

section Marks

variable {marks : Array (Option α)} {size out : Nchw} {plane : ℕ} {first : Option α}
  {window : List (Option α)} (hheight : 1 ≤ s.height) (hwidth : 1 ≤ s.width)
  (hnarrower : Narrower padding kernel)
  (hpad : Kernel.pad? s padding none (values.map some) = .ok (marks, size))
  (hwindows : size.windows? kernel stride = .ok out)
include hheight hwidth hnarrower hpad hwindows

/-- **What is under a window**: the first element is one of them, and there is an element of the data.
An extent that has left 64 bits is too small, so that a window does not get beyond the data. -/
theorem exists_of_windowAt? (hin : (Kernel.flattened out).Inside b plane oy ox)
    (h : Kernel.windowAt? marks size kernel stride plane oy ox = .ok (first, window)) :
    first ∈ window ∧ (∃ v, some v ∈ window) ∧ ∀ v, some v ∈ window → v ∈ values := by
  obtain ⟨rfl, -, -⟩ := Kernel.pad?_eq_ok_iff.mp hpad
  obtain ⟨⟨⟨hkernel, hfits, -⟩, hkernel', hfits', -⟩, rfl⟩ := Kernel.windows?_eq_ok_iff.mp hwindows
  obtain ⟨first', hfirst, window', hwindow, hpair⟩ := by
    unfold Kernel.windowAt? at h
    simpa only [bind_eq_ok_iff, Except.ok.injEq] using h
  obtain ⟨rfl, rfl⟩ := Prod.mk.inj hpair
  have hmem : ∀ {ky kx : ℕ} {mark : Option α}, ky < kernel.height → kx < kernel.width →
      Kernel.loadAt? marks (Kernel.padded s padding) plane (oy * stride.height + ky)
        (ox * stride.width + kx) = .ok mark → mark ∈ window' :=
    fun hky hkx hload => mem_of_mapM hwindow (mem_taps.mpr ⟨one_pos, hky, hkx⟩) hload
  refine ⟨hmem hkernel hkernel' hfirst, ?_, ?_⟩
  · have hrows : (Kernel.padded s padding).height ≤ s.height + padding.top + padding.bottom :=
      word_le _
    have hcolumns : (Kernel.padded s padding).width ≤ s.width + padding.left + padding.right :=
      word_le _
    have hlastRow := place_lt hfits hin.row (Nat.sub_one_lt hkernel.ne')
    have hlastColumn := place_lt hfits' hin.column (Nat.sub_one_lt hkernel'.ne')
    obtain ⟨ky, hky, htop, hbottom⟩ := exists_place (oy * stride.height) hheight
      hnarrower.top_lt hnarrower.bottom_lt (by omega)
    obtain ⟨kx, hkx, hleft, hright⟩ := exists_place (ox * stride.width) hwidth
      hnarrower.left_lt hnarrower.right_lt (by omega)
    have hrow : oy * stride.height + ky - padding.top < s.height := by omega
    have hcolumn : ox * stride.width + kx - padding.left < s.width := by omega
    obtain ⟨mark, hmark, hload⟩ := Kernel.exists_loadAt?_of_pad? hpad hin.channel hrow hcolumn
    obtain ⟨v, -, rfl⟩ := Array.mem_map.mp hmark
    rw [Nat.sub_add_cancel htop, Nat.sub_add_cancel hleft] at hload
    exact ⟨v, hmem hky hkx hload⟩
  · intro v hv
    obtain ⟨⟨_, ky, kx⟩, -, hload⟩ := exists_mem_of_mapM hwindow _ hv
    have hmark := Kernel.mem_of_pad? hpad _ (Kernel.mem_of_load? hload)
    simpa using hmark

end Marks

/-- **Whatever pooling gives is an element of the data**, and there are as many as there are windows. -/
theorem mem_of_maxPool? (hranked : Ranked Z less least rank) (hvalues : ∀ v ∈ values, Z v)
    (hheight : 1 ≤ s.height) (hwidth : 1 ≤ s.width) (hnarrower : Narrower padding kernel)
    {padded pooled : Array α} {size out : Nchw}
    (hpad : Kernel.pad? s padding least values = .ok (padded, size))
    (hpool : Kernel.maxPool? less padded size kernel stride = .ok (pooled, out)) :
    ∀ v ∈ pooled, v ∈ values := by
  rw [pad?_eq_marks] at hpad
  obtain ⟨⟨marks, _⟩, hmarks, hpair⟩ := map_eq_ok_iff.mp hpad
  obtain ⟨rfl, rfl⟩ := Prod.mk.inj hpair
  obtain ⟨_, hwindows, hpool⟩ := bind_eq_ok_iff.mp hpool
  obtain ⟨_, htable, hpair⟩ := bind_eq_ok_iff.mp hpool
  obtain ⟨rfl, rfl⟩ := Prod.mk.inj (Except.ok.inj hpair)
  intro v hv
  obtain ⟨b, plane, oy, ox, hin, hvalue⟩ := Kernel.exists_of_mem_tabulate? htable hv
  rw [Kernel.windowAt?_map] at hvalue
  obtain ⟨_, hpair, rfl⟩ := map_eq_ok_iff.mp hvalue
  obtain ⟨⟨first, window⟩, hload, rfl⟩ := map_eq_ok_iff.mp hpair
  obtain ⟨hfirst, hsome, hdata⟩ :=
    exists_of_windowAt? hheight hwidth hnarrower hmarks hwindows hin hload
  exact hdata _ (isLargest_of_marks hranked (fun v hv => hvalues v (hdata v hv)) hfirst hsome).1

/-! ### The node -/

variable {t : Tensor} {node : Node}

section Node

variable (hkernel : node.kernelShape? = .ok kernel) (hstride : node.strides? = .ok stride)
  (hpadding : node.pads? = .ok padding) (hshape : t.shape = s.toShape)
include hkernel hstride hpadding hshape

/-- Pooling integers: the padding is the least one of all. -/
theorem maxPoolNode_of_ints {type : IntType} {values : Array ℤ}
    (ht : t.elements = .ints type values) :
    maxPoolNode node t = (Kernel.pad? s padding (signedMin 64) values >>= fun (padded, size) =>
        Kernel.maxPool? (fun a b => decide (a < b)) padded size kernel stride)
      >>= fun (pooled, out) => intTensor out.toShape (.int type) pooled := by
  unfold maxPoolNode ofGraph
  rw [hkernel, hstride, hpadding, Nchw.ofShape?_eq_ok_iff.mpr hshape, ht]
  show (Kernel.pad? s padding (signedMin 64) values >>= _) = _
  cases Kernel.pad? s padding (signedMin 64) values <;> rfl

/-- Pooling real numbers: the padding is minus infinity. -/
theorem maxPoolNode_of_reals {values : Array Binary64} (ht : t.elements = .reals values) :
    maxPoolNode node t = (Kernel.pad? s padding (.infinity true) values >>= fun (padded, size) =>
        Kernel.maxPool? Binary64.lt padded size kernel stride)
      >>= fun (pooled, out) => realTensor out.toShape pooled := by
  unfold maxPoolNode ofGraph
  rw [hkernel, hstride, hpadding, Nchw.ofShape?_eq_ok_iff.mpr hshape, ht]
  show (Kernel.pad? s padding (.infinity true) values >>= _) = _
  cases Kernel.pad? s padding (.infinity true) values <;> rfl

end Node

/-- Pooling a tensor takes the largest elements of the data, whatever the padding. -/
theorem exists_maxPoolNode (hkernel : node.kernelShape? = .ok kernel)
    (hstride : node.strides? = .ok stride) (hpadding : node.pads? = .ok padding)
    (hshape : t.shape = s.toShape) (haddressable : Addressable s padding)
    (h : Covering s padding kernel stride)
    (hnumbers : ∀ values, t.elements = .reals values → ∀ v ∈ values, v.isNaN = false) :
    ∃ y, maxPoolNode node t = .ok y ∧ y.dtype = t.dtype ∧
      y.shape = (s.windows padding kernel stride).toShape ∧
      (∀ type values, t.elements = .ints type values → ∃ pooled, y.elements = .ints type pooled ∧
        LargestUnder id s padding kernel stride values pooled) ∧
      ∀ values, t.elements = .reals values → ∃ pooled, y.elements = .reals pooled ∧
        LargestUnder Binary64.extended s padding kernel stride values pooled := by
  have hfull : elementCount t.shape = s.volume := hshape ▸ haddressable.elementCount_eq
  have hout : elementCount (s.windows padding kernel stride).toShape
      = (s.windows padding kernel stride).volume := by
    rw [Nchw.elementCount_toShape,
      word_of_le ((volume_windows_le h).trans haddressable.volume_le)]
  unfold Tensor.dtype
  cases helements : t.elements with
  | ints type values =>
    have hsize : values.size = s.volume := (Tensor.size_of_ints helements).trans hfull
    have hholds : ∀ v ∈ values, type.holds v = true := fun v => Tensor.holds_of_mem_ints helements
    have hleast : ∀ v ∈ values, signedMin 64 ≤ v := fun v hv =>
      (IntType.fits64_of_holds (hholds v hv)).1
    obtain ⟨pooled, hpooled, hcountOut, hmem, hlargest⟩ := maxPool?_pad ranked_ints hleast hsize h
    obtain ⟨y, hy, hyshape, hyelements⟩ := exists_intTensor (hcountOut.trans hout.symm)
      (Array.all_eq_true_iff_forall_mem.mpr fun v hv => hholds v (hmem v hv))
    refine ⟨y, ?_, ?_, hyshape, ?_, nofun⟩
    · rw [maxPoolNode_of_ints hkernel hstride hpadding hshape helements,
        maxPool?_pad?_eq _ _ haddressable hsize, hpooled]
      exact hy
    · rw [hyelements]
      rfl
    · rintro _ _ ⟨⟩
      exact ⟨pooled, hyelements, hlargest⟩
  | reals values =>
    have hsize : values.size = s.volume := by
      have := t.size_eq
      rw [helements, hfull] at this
      exact this
    obtain ⟨pooled, hpooled, hcountOut, -, hlargest⟩ :=
      maxPool?_pad ranked_reals (hnumbers values helements) hsize h
    obtain ⟨y, hy, hyshape, hyelements⟩ := exists_realTensor (hcountOut.trans hout.symm)
    refine ⟨y, ?_, ?_, hyshape, nofun, ?_⟩
    · rw [maxPoolNode_of_reals hkernel hstride hpadding hshape helements,
        maxPool?_pad?_eq _ _ haddressable hsize, hpooled]
      exact hy
    · rw [hyelements]
      rfl
    · rintro _ ⟨⟩
      exact ⟨pooled, hyelements, hlargest⟩

/-- Windows of two rows and two columns, two steps apart, with a row of padding at the top and a
column on the right. -/
def cornerNode : Node :=
  { operator := .maxPool
    name := "pool"
    inputs := ["x"]
    outputs := ["y"]
    attributes := .ofList [("kernel_shape", .ints [2, 2]), ("strides", .ints [2]),
      ("pads", .ints [1, 0, 0, 1])] }

/-- Two rows of negative bytes. -/
def negatives : Tensor :=
  ⟨[1, 1, 2, 3], .ints .i8 #[-5, -3, -128, -7, -2, -9], by decide, by decide +kernel⟩

/-- Windows of two rows, with a row of padding at the top. -/
def tallNode : Node :=
  { operator := .maxPool
    name := "pool"
    inputs := ["x"]
    outputs := ["y"]
    attributes := .ofList [("kernel_shape", .ints [2, 1]), ("pads", .ints [1, 0, 0, 0])] }

/-- No planes, of as many rows as a machine word can count. -/
def tallData : Tensor :=
  ⟨[0, 1, twoPow 64 - 1, 1], .ints .i8 #[], by decide, by decide +kernel⟩

/-- Windows of `2 ^ 32` rows and columns, with as much padding before the data as there may be. -/
def wideNode : Node :=
  { operator := .maxPool
    name := "pool"
    inputs := ["x"]
    outputs := ["y"]
    attributes := .ofList [("kernel_shape", .ints [twoPow 32]),
      ("pads", .ints [twoPow 32 - 1, twoPow 32 - 1, 0, 0])] }

/-- One byte. -/
def oneByte : Tensor :=
  ⟨[1, 1, 1, 1], .ints .i8 #[5], by decide, by decide +kernel⟩

end Eval

end DyadicNet
