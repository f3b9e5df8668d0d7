import Mathlib
import DyadicNet.Eval.Kernels
import DyadicNet.Proofs.Eval.Convolution

/-!
# Loops over buffers

The kernels copy, compare and multiply what is in their buffers, and stop at an access outside of
them.  This is what they do in every case, also where extents or places have left 64 bits: **each
element of a result comes from elements of the data**, and each row of the data has got to some
place of the padded data.  Copies do not depend on what the elements are, so that a function can be
applied to them before padding or after it.

Whether the elements are the ones that the formulas ask for is another question.  They are as long as
the padded data fits into a buffer.

## Main Statements

* `Kernel.tabulate?_eq_ok_iff` — a loop over positions;
* `Kernel.pad?_map` — padding goes along with a function of the elements;
* `Kernel.mem_of_pad?`, `Kernel.exists_loadAt?_of_pad?` — what the padded data consists of;
* `Kernel.of_convolve?` — what the elements of a convolution are computed from;
* `Kernel.convolve?_eq`, `Kernel.maxPool?_eq` — full buffers, for which the loops give the formulas.
-/

namespace DyadicNet.Eval

/-! ### Machine words -/

theorem word_le (n : ℕ) : word n ≤ n :=
  Nat.mod_le _ _

theorem word_of_lt {n : ℕ} (h : n < twoPow 64) : word n = n :=
  Nat.mod_eq_of_lt h

theorem maxElements_lt : maxElements < twoPow 64 := by
  decide

/-- A place in a buffer is a machine word. -/
theorem word_of_le {n : ℕ} (h : n ≤ maxElements) : word n = n :=
  word_of_lt (h.trans_lt maxElements_lt)

/-- The places of a slice follow its first one. -/
theorem word_add {n k : ℕ} (h : word n + k < twoPow 64) : word (n + k) = word n + k := by
  rw [word, ← Nat.mod_add_mod]
  exact Nat.mod_eq_of_lt h

namespace Kernel

variable {α β : Type} {values source target : Array α} {v fill : α} {i n start offset : ℕ}
  {s : Nchw} {padding : Padding}

/-! ### Buffers -/

theorem allocate?_eq_ok_iff {buffer : Array α} :
    allocate? n fill = .ok buffer ↔ n ≤ maxElements ∧ Array.replicate n fill = buffer := by
  unfold allocate?
  split_ifs with h <;> simp [h]

theorem load?_eq_ok_iff : load? values i = .ok v ↔ values[word i]? = some v := by
  unfold load?
  cases values[word i]? <;> simp

theorem mem_of_load? (h : load? values i = .ok v) : v ∈ values :=
  Array.mem_of_getElem? (load?_eq_ok_iff.mp h)

theorem load?_map (g : α → β) (values : Array α) (i : ℕ) :
    load? (values.map g) i = g <$> load? values i := by
  unfold load?
  rw [Array.getElem?_map]
  cases values[word i]? <;> rfl

/-- Inside the extents of a full buffer nothing is missing. -/
theorem load?_index {b c y x : ℕ} (absent : α) (hsize : values.size = s.volume)
    (hvolume : s.volume < twoPow 64) (h : s.Inside b c y x) :
    load? values (s.index b c y x) = .ok (s.read values absent b c y x) := by
  rw [load?_eq_ok_iff, word_of_lt (h.index_lt.trans hvolume)]
  exact Nchw.getElem?_index absent hsize h

/-! ### Copies -/

theorem size_copied : (copied source target start offset n).size = target.size := by
  induction n with
  | zero => rfl
  | succ n ih =>
    unfold copied
    split
    · rw [Array.size_setIfInBounds, ih]
    · exact ih

/-- Slices inside their buffers are copied, and nothing else changes. -/
theorem getElem?_copied (hsource : start + n ≤ source.size) (htarget : offset + n ≤ target.size) :
    (copied source target start offset n)[i]? =
      if offset ≤ i ∧ i < offset + n then source[start + (i - offset)]? else target[i]? := by
  induction n with
  | zero => rw [if_neg (by omega), copied]
  | succ n ih =>
    have hlast : source[start + n]? = some source[start + n] := Array.getElem?_eq_getElem _
    unfold copied
    rw [hlast]
    dsimp only
    rw [Array.getElem?_setIfInBounds, size_copied, ih (by omega) (by omega)]
    by_cases hi : offset + n = i
    · subst hi
      rw [if_pos rfl, if_pos (by omega), if_pos (by omega), Nat.add_sub_cancel_left, hlast]
    · rw [if_neg hi]
      exact if_congr (by omega) rfl rfl

theorem copied_map (g : α → β) :
    copied (source.map g) (target.map g) start offset n
      = (copied source target start offset n).map g := by
  induction n with
  | zero => rfl
  | succ n ih =>
    unfold copied
    rw [Array.getElem?_map, ih]
    cases source[start + n]? with
    | none => rfl
    | some v => exact Array.map_setIfInBounds.symm

theorem mem_of_mem_copied (h : v ∈ copied source target start offset n) :
    v ∈ target ∨ v ∈ source := by
  induction n with
  | zero => exact .inl h
  | succ n ih =>
    unfold copied at h
    split at h
    · next w hw =>
      rcases Array.mem_or_eq_of_mem_setIfInBounds h with hbefore | rfl
      · exact ih hbefore
      · exact .inr (Array.mem_of_getElem? hw)
    · exact ih h

theorem copySlice?_eq_ok_iff {result : Array α} :
    copySlice? source target start offset n = .ok result ↔
      (word start + n ≤ source.size ∧ word offset + n ≤ target.size) ∧
        copied source target (word start) (word offset) n = result := by
  unfold copySlice?
  split_ifs with h <;> simp [h]

theorem copySlice?_map (g : α → β) :
    copySlice? (source.map g) (target.map g) start offset n
      = Array.map g <$> copySlice? source target start offset n := by
  unfold copySlice?
  rw [Array.size_map, Array.size_map, copied_map]
  split_ifs <;> rfl

/-! ### Loops over positions -/

section Tabulate

variable {f g : ℕ → ℕ → ℕ → ℕ → Except Error α}

/-- A loop succeeds exactly if its result fits into a buffer and each of its steps succeeds. -/
theorem tabulate?_eq_ok_iff :
    tabulate? s f = .ok values ↔ s.volume ≤ maxElements ∧ s.tabulate f = values.map .ok := by
  unfold tabulate?
  split_ifs with h
  · refine map_eq_ok_iff.trans ?_
    simp only [mapM_id_eq_ok_iff, h, true_and]
    constructor
    · rintro ⟨l, hl, rfl⟩
      exact Array.ext' (by simpa using hl)
    · intro hvalues
      exact ⟨values.toList, by rw [hvalues, Array.toList_map], Array.toArray_toList⟩
  · simp [h]

theorem size_of_tabulate? (h : tabulate? s f = .ok values) : values.size = s.volume := by
  have hsize := congrArg Array.size (tabulate?_eq_ok_iff.mp h).2
  rwa [Nchw.size_tabulate, Array.size_map, eq_comm] at hsize

/-- Each step has computed the element of its position. -/
theorem getElem?_of_tabulate? (h : tabulate? s f = .ok values) {b c y x : ℕ}
    (hin : s.Inside b c y x) : ∃ v, f b c y x = .ok v ∧ values[s.index b c y x]? = some v := by
  have hvalue := Nchw.getElem?_tabulate f hin
  rw [(tabulate?_eq_ok_iff.mp h).2, Array.getElem?_map, Option.map_eq_some_iff] at hvalue
  obtain ⟨v, hv, hok⟩ := hvalue
  exact ⟨v, hok.symm, hv⟩

/-- Each element was computed in a step. -/
theorem exists_of_mem_tabulate? (h : tabulate? s f = .ok values) (hv : v ∈ values) :
    ∃ b c y x, s.Inside b c y x ∧ f b c y x = .ok v := by
  have hmem : (.ok v : Except Error α) ∈ s.tabulate f := by
    rw [(tabulate?_eq_ok_iff.mp h).2]
    exact Array.mem_map_of_mem hv
  exact Nchw.exists_of_mem_tabulate hmem

theorem tabulate?_eq_ok {value : ℕ → ℕ → ℕ → ℕ → α} (hvolume : s.volume ≤ maxElements)
    (h : ∀ b c y x, s.Inside b c y x → f b c y x = .ok (value b c y x)) :
    tabulate? s f = .ok (s.tabulate value) := by
  rw [tabulate?_eq_ok_iff, Nchw.map_tabulate]
  exact ⟨hvolume, Nchw.tabulate_congr h⟩

/-- A function of each element can be applied to the elements together. -/
theorem tabulate?_map (k : α → β) {f' : ℕ → ℕ → ℕ → ℕ → Except Error β}
    (h : ∀ b c y x, s.Inside b c y x → f' b c y x = k <$> f b c y x) :
    tabulate? s f' = Array.map k <$> tabulate? s f := by
  have htable : s.tabulate f' = (s.tabulate f).map (k <$> ·) :=
    (Nchw.tabulate_congr h).trans (Nchw.map_tabulate _ _).symm
  unfold tabulate?
  split_ifs
  · have hmap := mapM_map k id (s.tabulate f).toList
    simp only [id] at hmap
    rw [htable, Array.toList_map, List.mapM_map]
    show List.toArray <$> (s.tabulate f).toList.mapM (fun x => k <$> x) = _
    rw [hmap]
    cases (s.tabulate f).toList.mapM id with
    | error e => rfl
    | ok l => exact congrArg _ List.map_toArray.symm
  · rfl

end Tabulate

/-! ### Padding -/

section Rows

variable {out : Nchw} {buffer result : Array α} {plane y : ℕ}

theorem copyRows?_map (g : α → β) (s out : Nchw) (padding : Padding) (values buffer : Array α) :
    copyRows? s out padding (values.map g) (buffer.map g)
      = Array.map g <$> copyRows? s out padding values buffer := by
  unfold copyRows?
  refine foldlM_map (g := Array.map g) (fun b plane => ?_) _ _
  exact foldlM_map (g := Array.map g) (fun b y => copySlice?_map g) _ _

/-- What each copy of a row keeps, the copies of all rows keep. -/
theorem invariant_of_copyRows? {P : Array α → Prop}
    (hrow : ∀ plane y b b', P b → copyRow? s out padding values plane b y = .ok b' → P b')
    (hstart : P buffer) (h : copyRows? s out padding values buffer = .ok result) : P result :=
  invariant_of_foldlM (fun _ plane _ hb hplane =>
    invariant_of_foldlM (fun b y b' => hrow plane y b b') hb hplane) hstart h

theorem size_of_copyRow? (h : copyRow? s out padding values plane buffer y = .ok result) :
    result.size = buffer.size := by
  obtain ⟨-, rfl⟩ := copySlice?_eq_ok_iff.mp h
  exact size_copied

/-- A copy puts an element of the data at each place of its row. -/
theorem exists_loadAt?_of_copyRow? {x : ℕ} (hsize : buffer.size ≤ maxElements)
    (h : copyRow? s out padding values plane buffer y = .ok result) (hx : x < s.width) :
    ∃ v ∈ values, loadAt? result out plane (y + padding.top) (x + padding.left) = .ok v := by
  obtain ⟨⟨hsource, htarget⟩, rfl⟩ := copySlice?_eq_ok_iff.mp h
  set offset := plane * out.height * out.width + (y + padding.top) * out.width + padding.left
    with hoffset
  have hplace : (flattened out).index 0 plane (y + padding.top) (x + padding.left)
      = offset + x := by
    rw [hoffset]
    unfold Nchw.index flattened
    ring
  have hword : word (offset + x) = word offset + x :=
    word_add (by have := maxElements_lt; omega)
  refine ⟨values[word (plane * s.height * s.width + y * s.width) + x], Array.getElem_mem _, ?_⟩
  rw [loadAt?, hplace, load?_eq_ok_iff, hword, getElem?_copied hsource htarget, if_pos (by omega),
    Nat.add_sub_cancel_left]
  exact Array.getElem?_eq_getElem _

/-- And it leaves an element of the data wherever there was one. -/
theorem exists_load?_of_copyRow? (h : copyRow? s out padding values plane buffer y = .ok result)
    (hbefore : ∃ v ∈ values, load? buffer i = .ok v) : ∃ v ∈ values, load? result i = .ok v := by
  obtain ⟨⟨hsource, htarget⟩, rfl⟩ := copySlice?_eq_ok_iff.mp h
  simp only [load?_eq_ok_iff, getElem?_copied hsource htarget] at hbefore ⊢
  split_ifs with hslice
  · exact ⟨_, Array.getElem_mem (by omega), Array.getElem?_eq_getElem _⟩
  · exact hbefore

end Rows

/-- **Padding goes along with every function of the elements**, also where it stops. -/
theorem pad?_map (g : α → β) (s : Nchw) (padding : Padding) (fill : α) (values : Array α) :
    pad? s padding (g fill) (values.map g)
      = (fun result => (result.1.map g, result.2)) <$> pad? s padding fill values := by
  unfold pad? allocate?
  dsimp only
  split_ifs
  · rw [ok_bind, ok_bind, ← Array.map_replicate, copyRows?_map]
    cases copyRows? s (padded s padding) padding values _ <;> rfl
  · rfl

/-- Padding succeeds exactly if the buffer is not too long and all rows can be copied. -/
theorem pad?_eq_ok_iff {buffer : Array α} {out : Nchw} :
    pad? s padding fill values = .ok (buffer, out) ↔
      out = padded s padding ∧ word out.volume ≤ maxElements ∧
        copyRows? s out padding values (Array.replicate (word out.volume) fill) = .ok buffer := by
  unfold pad?
  simp only [bind_eq_ok_iff, allocate?_eq_ok_iff, Except.ok.injEq, Prod.mk.injEq]
  constructor
  · rintro ⟨_, ⟨hle, rfl⟩, _, hrows, rfl, rfl⟩
    exact ⟨rfl, hle, hrows⟩
  · rintro ⟨rfl, hle, hrows⟩
    exact ⟨_, ⟨hle, rfl⟩, _, hrows, rfl, rfl⟩

section Padded

variable {buffer : Array α} {out : Nchw} (h : pad? s padding fill values = .ok (buffer, out))
include h

theorem size_of_pad? : buffer.size = word out.volume ∧ buffer.size ≤ maxElements := by
  obtain ⟨-, hle, hrows⟩ := pad?_eq_ok_iff.mp h
  have hsize : buffer.size = word out.volume :=
    invariant_of_copyRows? (P := fun b => b.size = word out.volume)
      (fun _ _ _ _ hb hrow => (size_of_copyRow? hrow).trans hb) Array.size_replicate hrows
  exact ⟨hsize, hsize ▸ hle⟩

/-- Each element of the padded data is one of the data, or the padding. -/
theorem mem_of_pad? : ∀ v ∈ buffer, v = fill ∨ v ∈ values := by
  obtain ⟨-, -, hrows⟩ := pad?_eq_ok_iff.mp h
  refine invariant_of_copyRows? (P := fun b : Array α => ∀ v ∈ b, v = fill ∨ v ∈ values) ?_
    (fun v hv => .inl (Array.mem_replicate.mp hv).2) hrows
  intro plane y b b' hb hrow v hv
  obtain ⟨-, rfl⟩ := copySlice?_eq_ok_iff.mp hrow
  exact (mem_of_mem_copied hv).elim (hb v) .inr

/-- **Each place of a row of the data holds an element of the data.**  Where places have left 64 bits
it may belong to another row, which was copied later. -/
theorem exists_loadAt?_of_pad? {plane y x : ℕ} (hplane : plane < planes s) (hy : y < s.height)
    (hx : x < s.width) :
    ∃ v ∈ values, loadAt? buffer out plane (y + padding.top) (x + padding.left) = .ok v := by
  obtain ⟨-, hle, hrows⟩ := pad?_eq_ok_iff.mp h
  have hstart : (Array.replicate (word out.volume) fill).size ≤ maxElements := by
    rwa [Array.size_replicate]
  have hkept : ∀ {plane y : ℕ} {b b' : Array α}, b.size ≤ maxElements →
      copyRow? s out padding values plane b y = .ok b' → b'.size ≤ maxElements :=
    fun hb hrow => (size_of_copyRow? hrow).trans_le hb
  -- a row is there after the copies of its plane, and stays there
  refine forall_of_foldlM (I := fun b : Array α => b.size ≤ maxElements)
    (Q := fun plane b => ∀ y < s.height,
      ∃ v ∈ values, loadAt? b out plane (y + padding.top) (x + padding.left) = .ok v)
    ?_ ?_ ?_ hstart hrows plane (List.mem_range.mpr hplane) y hy
  · intro b plane b' hb hplane
    exact invariant_of_foldlM (P := fun b : Array α => b.size ≤ maxElements)
      (fun _ _ _ => hkept) hb hplane
  · intro b plane b' hb hplane y hy
    refine forall_of_foldlM (I := fun b : Array α => b.size ≤ maxElements)
      (Q := fun y b => ∃ v ∈ values,
        loadAt? b out plane (y + padding.top) (x + padding.left) = .ok v)
      (fun _ _ _ => hkept) ?_ ?_ hb hplane y (List.mem_range.mpr hy)
    · exact fun b y b' hb hrow => exists_loadAt?_of_copyRow? hb hrow hx
    · exact fun y b y' b' _ hbefore hrow => exists_load?_of_copyRow? hrow hbefore
  · intro plane b plane' b' _ hbefore hplane y hy
    exact invariant_of_foldlM (P := fun b : Array α => ∃ v ∈ values,
        loadAt? b out plane (y + padding.top) (x + padding.left) = .ok v)
      (fun b y b' hbefore hrow => exists_load?_of_copyRow? hrow hbefore) (hbefore y hy) hplane

/-- If there is a plane with an element, no extent of the padded data is empty. -/
theorem volume_pos_of_pad? (hplanes : 1 ≤ planes s) (hheight : 1 ≤ s.height) (hwidth : 1 ≤ s.width) :
    1 ≤ out.volume := by
  obtain ⟨v, -, hload⟩ := exists_loadAt?_of_pad? h hplanes hheight hwidth
  obtain ⟨hplace, -⟩ := Array.getElem?_eq_some_iff.mp (load?_eq_ok_iff.mp hload)
  have hsize := (size_of_pad? h).1
  have := word_le out.volume
  omega

end Padded

/-! ### Convolution -/

section Convolution

variable {input weights bias results : Array ℤ} {ws out : Nchw} {stride : Node.Extents}
  {requantize : Requantize} {b oc oy ox : ℕ} {products : List (ℤ × ℤ)}

/-- What a window reads are elements of the data and of the weights. -/
theorem mem_of_window? (h : window? input s weights ws stride b oc oy ox = .ok products) :
    ∀ p ∈ products, p.1 ∈ input ∧ p.2 ∈ weights := by
  intro p hp
  obtain ⟨⟨c, ky, kx⟩, -, hload⟩ := exists_mem_of_mapM h p hp
  obtain ⟨x, hx, hload⟩ := bind_eq_ok_iff.mp hload
  obtain ⟨w, hw, hload⟩ := bind_eq_ok_iff.mp hload
  cases hload
  exact ⟨mem_of_load? hx, mem_of_load? hw⟩

/-- **A convolution has the element of each position from its window.** -/
theorem of_convolve?
    (h : convolve? input s weights ws bias stride requantize = .ok (results, out)) :
    convolved? s ws bias.size stride = .ok out ∧ out.volume ≤ maxElements ∧
      results.size = out.volume ∧
      (∀ b oc oy ox, out.Inside b oc oy ox → ∃ products,
        window? input s weights ws stride b oc oy ox = .ok products ∧
          results[out.index b oc oy ox]?
            = some (requantize.apply (dot products) (bias.getD oc 0))) ∧
      ∀ v ∈ results, ∃ b oc oy ox products,
        window? input s weights ws stride b oc oy ox = .ok products ∧
          requantize.apply (dot products) (bias.getD oc 0) = v := by
  unfold convolve? at h
  simp only [bind_eq_ok_iff, Except.ok.injEq, Prod.mk.injEq] at h
  obtain ⟨_, hout, _, htable, rfl, rfl⟩ := h
  refine ⟨hout, (tabulate?_eq_ok_iff.mp htable).1, size_of_tabulate? htable, ?_, ?_⟩
  · intro b oc oy ox hin
    obtain ⟨v, hv, hget⟩ := getElem?_of_tabulate? htable hin
    obtain ⟨products, hproducts, hvalue⟩ := bind_eq_ok_iff.mp hv
    obtain rfl := Except.ok.inj hvalue
    exact ⟨products, hproducts, hget⟩
  · intro v hv
    obtain ⟨b, oc, oy, ox, -, hv⟩ := exists_of_mem_tabulate? htable hv
    obtain ⟨products, hproducts, hvalue⟩ := bind_eq_ok_iff.mp hv
    exact ⟨b, oc, oy, ox, products, hproducts, Except.ok.inj hvalue⟩

/-- Inside full buffers a window reads what the formula says. -/
theorem window?_eq (hsize : input.size = s.volume) (hvolume : s.volume < twoPow 64)
    (hweights : weights.size = ws.volume) (hweightVolume : ws.volume < twoPow 64)
    (hout : convolved? s ws n stride = .ok out) (hin : out.Inside b oc oy ox) :
    window? input s weights ws stride b oc oy ox
      = .ok (window input s weights ws stride b oc oy ox) := by
  obtain ⟨⟨hchannels, -, ⟨-, hheight, -⟩, -, hwidth, -⟩, rfl⟩ := convolved?_eq_ok_iff.mp hout
  refine mapM_eq_ok_map ?_
  rintro ⟨c, ky, kx⟩ htap
  obtain ⟨hc, hky, hkx⟩ := mem_taps.mp htap
  have hdata : s.Inside b c (oy * stride.height + ky) (ox * stride.width + kx) :=
    ⟨hin.batch, hc, place_lt hheight hin.row hky, place_lt hwidth hin.column hkx⟩
  dsimp only
  rw [load?_index 0 hsize hvolume hdata,
    load?_index 0 hweights hweightVolume ⟨hin.channel, hchannels ▸ hc, hky, hkx⟩]
  rfl

/-- **The loops of a convolution give the formula**, if their buffers are full and the result fits into
one. -/
theorem convolve?_eq (hsize : input.size = s.volume) (hvolume : s.volume < twoPow 64)
    (hweights : weights.size = ws.volume) (hweightVolume : ws.volume < twoPow 64)
    (hfits : ∀ out, convolved? s ws bias.size stride = .ok out → out.volume ≤ maxElements) :
    convolve? input s weights ws bias stride requantize
      = Eval.convolve? input s weights ws bias stride requantize := by
  refine bind_congr_ok fun out hout => ?_
  rw [tabulate?_eq_ok (hfits out hout) fun b oc oy ox hin => by
    rw [window?_eq hsize hvolume hweights hweightVolume hout hin, ok_bind]]
  rfl

end Convolution

/-! ### Pooling -/

/-- A window has extents exactly if it fits. -/
theorem windows?_eq_ok_iff {kernel stride : Node.Extents} {out : Nchw} :
    s.windows? kernel stride = .ok out ↔
      ((0 < kernel.height ∧ kernel.height ≤ s.height ∧ 0 < stride.height) ∧
        (0 < kernel.width ∧ kernel.width ≤ s.width ∧ 0 < stride.width)) ∧
      out = { s with
        height := (s.height - kernel.height) / stride.height + 1
        width := (s.width - kernel.width) / stride.width + 1 } := by
  unfold Nchw.windows?
  simp only [bind_eq_ok_iff, windowCount?_eq_ok_iff, Except.ok.injEq]
  constructor
  · rintro ⟨_, ⟨hheight, rfl⟩, _, ⟨hwidth, rfl⟩, rfl⟩
    exact ⟨⟨hheight, hwidth⟩, rfl⟩
  · rintro ⟨⟨hheight, hwidth⟩, rfl⟩
    exact ⟨_, ⟨hheight, rfl⟩, _, ⟨hwidth, rfl⟩, rfl⟩

/-- Planes that have elements and fit into a buffer can be counted. -/
theorem planes_eq (harea : 1 ≤ s.area) (hle : s.volume ≤ maxElements) :
    planes s = s.batch * s.channels := by
  rw [s.volume_eq] at hle
  exact word_of_le ((Nat.le_mul_of_pos_right _ harea).trans hle)

/-- A loop over planes is a loop over batches and channels. -/
theorem tabulate?_flattened (g : ℕ → ℕ → ℕ → Except Error α)
    (h : planes s = s.batch * s.channels) :
    tabulate? (flattened s) (fun _ => g) = tabulate? s fun b c => g (b * s.channels + c) := by
  have hvolume : (flattened s).volume = s.volume := by
    unfold Nchw.volume flattened
    rw [h, one_mul]
  have htable : (flattened s).tabulate (fun _ => g)
      = s.tabulate fun b c => g (b * s.channels + c) := by
    refine Array.ext (by rw [Nchw.size_tabulate, Nchw.size_tabulate, hvolume]) fun i hi hi' => ?_
    rw [Nchw.size_tabulate] at hi'
    have hplane : i / s.area < planes s := by
      rw [Nchw.volume_eq, ← h, mul_comm] at hi'
      exact Nat.div_lt_of_lt_mul hi'
    simp only [Nchw.tabulate, Array.getElem_ofFn]
    rw [Nat.div_add_mod']
    exact congrArg (fun p => g p _ _) (Nat.mod_eq_of_lt hplane)
  unfold tabulate?
  rw [hvolume, htable]

/-- A window has not more positions on an axis than the axis has places. -/
theorem windowCount_le {size extent : ℕ} (step : ℕ) (hpos : 0 < extent) (hfits : extent ≤ size) :
    (size - extent) / step + 1 ≤ size := by
  have := Nat.div_le_self (size - extent) step
  omega

section Windows

variable {kernel stride : Node.Extents} {out : Nchw} (h : s.windows? kernel stride = .ok out)
include h

/-- The places that windows look at lie in the planes. -/
theorem inside_of_windows? {b c oy ox ky kx : ℕ} (hin : out.Inside b c oy ox)
    (hky : ky < kernel.height) (hkx : kx < kernel.width) :
    s.Inside b c (oy * stride.height + ky) (ox * stride.width + kx) := by
  obtain ⟨⟨⟨-, hheight, -⟩, -, hwidth, -⟩, rfl⟩ := windows?_eq_ok_iff.mp h
  exact ⟨hin.batch, hin.channel, place_lt hheight hin.row hky, place_lt hwidth hin.column hkx⟩

/-- There are not more windows than places. -/
theorem volume_le_of_windows? : out.volume ≤ s.volume := by
  obtain ⟨⟨⟨hpos, hheight, -⟩, hpos', hwidth, -⟩, rfl⟩ := windows?_eq_ok_iff.mp h
  exact Nat.mul_le_mul (Nat.mul_le_mul_left _ (windowCount_le _ hpos hheight))
    (windowCount_le _ hpos' hwidth)

theorem planes_of_windows? (hle : s.volume ≤ maxElements) :
    planes out = out.batch * out.channels := by
  obtain ⟨⟨⟨hpos, hheight, -⟩, hpos', hwidth, -⟩, rfl⟩ := windows?_eq_ok_iff.mp h
  exact planes_eq (s := s) (Nat.mul_pos (hpos.trans_le hheight) (hpos'.trans_le hwidth)) hle

end Windows

section Pooling

variable {less : α → α → Bool} {kernel stride : Node.Extents} {pooled : Array α} {out : Nchw}
  {plane oy ox : ℕ}

/-- What is under a window can be looked at before or after a function of the elements. -/
theorem windowAt?_map (g : α → β) (values : Array α) (s : Nchw) (kernel stride : Node.Extents)
    (plane oy ox : ℕ) :
    windowAt? (values.map g) s kernel stride plane oy ox
      = (fun under => (g under.1, under.2.map g))
        <$> windowAt? values s kernel stride plane oy ox := by
  have hload : loadUnder? (values.map g) s stride plane oy ox
      = fun tap => g <$> loadUnder? values s stride plane oy ox tap :=
    funext fun tap => load?_map g values _
  unfold windowAt?
  rw [hload, mapM_map, loadAt?, load?_map, ← loadAt?]
  cases loadAt? values s plane (oy * stride.height) (ox * stride.width) with
  | error e => rfl
  | ok first =>
    cases (taps 1 kernel.height kernel.width).mapM (loadUnder? values s stride plane oy ox) <;> rfl

/-- Inside a full buffer the place of a position of a plane is that of the position. -/
theorem loadAt?_eq {b c y x : ℕ} (absent : α) (hsize : values.size = s.volume)
    (hvolume : s.volume < twoPow 64) (h : s.Inside b c y x) :
    loadAt? values s (b * s.channels + c) y x = .ok (s.read values absent b c y x) := by
  rw [← load?_index absent hsize hvolume h, loadAt?]
  congr 1
  unfold Nchw.index flattened
  ring

/-- **The loops of pooling give the formula** for a full buffer. -/
theorem maxPool?_eq (absent : α) (hsize : values.size = s.volume) (hle : s.volume ≤ maxElements) :
    maxPool? less values s kernel stride = Eval.maxPool? less absent values s kernel stride := by
  have hvolume := hle.trans_lt maxElements_lt
  refine bind_congr_ok fun out hout => ?_
  obtain ⟨⟨⟨hpos, -⟩, hpos', -⟩, hextents⟩ := windows?_eq_ok_iff.mp hout
  have hchannels : out.channels = s.channels := hextents ▸ rfl
  rw [tabulate?_flattened _ (planes_of_windows? hout hle),
    tabulate?_eq_ok ((volume_le_of_windows? hout).trans hle) fun b c oy ox hin => ?_]
  · rfl
  have hload : ∀ ky < kernel.height, ∀ kx < kernel.width,
      loadAt? values s (b * out.channels + c) (oy * stride.height + ky) (ox * stride.width + kx)
        = .ok (s.read values absent b c (oy * stride.height + ky) (ox * stride.width + kx)) :=
    fun ky hky kx hkx =>
      hchannels ▸ loadAt?_eq absent hsize hvolume (inside_of_windows? hout hin hky hkx)
  have hfirst := hload 0 hpos 0 hpos'
  have hwindow : (taps 1 kernel.height kernel.width).mapM
        (loadUnder? values s stride (b * out.channels + c) oy ox)
      = .ok ((taps 1 kernel.height kernel.width).map fun tap =>
        s.read values absent b c (oy * stride.height + tap.2.1) (ox * stride.width + tap.2.2)) := by
    refine mapM_eq_ok_map fun tap htap => ?_
    obtain ⟨-, hky, hkx⟩ := mem_taps.mp htap
    exact hload tap.2.1 hky tap.2.2 hkx
  rw [add_zero, add_zero] at hfirst
  unfold windowAt?
  rw [hfirst, ok_bind, hwindow]
  rfl

end Pooling

end Kernel

end DyadicNet.Eval
