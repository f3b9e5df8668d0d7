import Mathlib
import DyadicNet.Proofs.Binary64.Zero
import DyadicNet.Proofs.Eval.Bindings
import DyadicNet.Proofs.Eval.Pooling

/-!
# Operators on zeros

Zero stands for zero at every scale, so no operator makes anything else of zeros: **each of them,
on integers and on real numbers, has zeros as its value if its data is zeros.**  Two of them could
fail to.  A quantized convolution adds its bias, which has to be zero too.  Pooling for the largest
element has padding that is not zero but less than everything; a window that lies in the padding
alone would have it as its value, so the padding has to be narrower than the window.

A mean is a sum divided by the number of its terms, and is no number if there are none.  So the
planes of the tensors here have elements.  Planes are counted in machine words, and where a count has
left 64 bits there may be none to look at.

## Main Definitions

* `HasPlanes` — extents of planes that have elements;
* `Tensor.Zeros` — tensors of zeros;
* `Interpreter.KeepsZeros` — what a node of a graph needs.

## Main Statements

* `zeros_elementwise`, `zeros_padNode`, `zeros_maxPoolNode`, `zeros_averagePoolNode`,
  `zeros_quantize`, `zeros_dequantize`, `zeros_result` — the operators;
* `zeros_of_evalNode` — a node;
* `zeros_of_steps` — a run.
-/

namespace DyadicNet

open Binary64

/-- All elements are zero by value. -/
def Elements.AllZero : Elements → Prop
  | .ints _ values => ∀ v ∈ values, v = 0
  | .reals values => ∀ v ∈ values, v.IsZero

instance : DecidablePred Elements.AllZero
  | .ints _ values => inferInstanceAs (Decidable (∀ v ∈ values, v = 0))
  | .reals values => inferInstanceAs (Decidable (∀ v ∈ values, v.IsZero))

/-- Every plane that is found has elements. -/
def Eval.HasPlanes (shape : List ℕ) : Prop :=
  ∀ s : Eval.Nchw, shape = s.toShape → 1 ≤ Eval.Kernel.planes s → 1 ≤ s.height ∧ 1 ≤ s.width

/-- A tensor of zeros whose planes have elements. -/
structure Tensor.Zeros (x : Tensor) : Prop where
  hasPlanes : Eval.HasPlanes x.shape
  allZero : x.elements.AllZero

namespace Tensor.Zeros

variable {x : Tensor} (h : x.Zeros)
include h

theorem of_ints {type : IntType} {values : Array ℤ} (hx : x.elements = .ints type values) :
    ∀ v ∈ values, v = 0 := by
  have hzero := h.allZero
  rwa [hx] at hzero

theorem of_reals {values : Array Binary64} (hx : x.elements = .reals values) :
    ∀ v ∈ values, v.IsZero := by
  have hzero := h.allZero
  rwa [hx] at hzero

/-- As real numbers the elements are zero too. -/
theorem toReals : ∀ v ∈ x.toReals, v.IsZero := by
  unfold Tensor.toReals
  cases helements : x.elements with
  | ints type values =>
    intro v hv
    obtain ⟨w, hw, rfl⟩ := Array.mem_map.mp hv
    rw [h.of_ints helements w hw]
    decide +kernel
  | reals values => exact h.of_reals helements

end Tensor.Zeros

namespace Eval

variable {node : Node} {x y : Tensor} {shape : List ℕ}

/-! ### Tensors -/

theorem hasPlanes_toShape {s : Nchw}
    (h : 1 ≤ Kernel.planes s → 1 ≤ s.height ∧ 1 ≤ s.width) : HasPlanes s.toShape := by
  rintro s' hshape
  obtain rfl := Except.ok.inj
    ((Nchw.ofShape?_eq_ok_iff.mpr rfl).symm.trans (Nchw.ofShape?_eq_ok_iff.mpr hshape))
  exact h

/-- A tensor without empty axes. -/
theorem hasPlanes_of_pos (h : ∀ n ∈ shape, 1 ≤ n) : HasPlanes shape := by
  rintro s rfl -
  exact ⟨h _ (by simp [Nchw.toShape]), h _ (by simp [Nchw.toShape])⟩

theorem zeros_of_intTensor {type : IntType} {values : Array ℤ} (hplanes : HasPlanes shape)
    (hzero : ∀ v ∈ values, v = 0) (h : intTensor shape (.int type) values = .ok y) : y.Zeros := by
  obtain ⟨-, rfl, helements⟩ := Tensor.ofInts?_eq_ok_iff.mp (mapError_eq_ok_iff.mp h)
  refine ⟨hplanes, ?_⟩
  rw [helements]
  exact hzero

theorem zeros_of_realTensor {values : Array Binary64} (hplanes : HasPlanes shape)
    (hzero : ∀ v ∈ values, v.IsZero) (h : realTensor shape values = .ok y) : y.Zeros := by
  obtain ⟨-, rfl, helements⟩ := Tensor.ofReals?_eq_ok_iff.mp (mapError_eq_ok_iff.mp h)
  refine ⟨hplanes, ?_⟩
  rw [helements]
  exact hzero

/-! ### Elements -/

/-- What maps zeros to zeros element by element. -/
theorem zeros_elementwise {onReal : Binary64 → Binary64} {onInt : ℤ → ℤ}
    (hreal : ∀ v : Binary64, v.IsZero → (onReal v).IsZero) (hint : onInt 0 = 0) (hx : x.Zeros)
    (h : elementwise onReal onInt x = .ok y) : y.Zeros := by
  unfold elementwise at h
  cases helements : x.elements with
  | ints type values =>
    rw [helements] at h
    refine zeros_of_intTensor hx.hasPlanes (fun v hv => ?_) h
    obtain ⟨w, hw, rfl⟩ := Array.mem_map.mp hv
    rw [hx.of_ints helements w hw, hint]
  | reals values =>
    rw [helements] at h
    refine zeros_of_realTensor hx.hasPlanes (fun v hv => ?_) h
    obtain ⟨w, hw, rfl⟩ := Array.mem_map.mp hv
    exact hreal w (hx.of_reals helements w hw)

/-- The rectifiers leave zeros as they are: these are not less than zero. -/
theorem rectify_of_isZero {v : Binary64} (h : v.IsZero) : rectify v = v := by
  unfold rectify
  rw [h.lt_zero, if_neg Bool.false_ne_true]

theorem leakyRectify_of_isZero (slope : Binary64) (format : Option FixedPoint.Format)
    {v : Binary64} (h : v.IsZero) : leakyRectify slope format v = v := by
  unfold leakyRectify
  rw [h.lt_zero, if_neg Bool.false_ne_true]

/-! ### Padding -/

/-- Padding leaves planes that have elements: these are in them. -/
theorem hasPlanes_of_pad? {α : Type} {s out : Nchw} {padding : Padding} {fill : α}
    {values buffer : Array α} (hplanes : HasPlanes s.toShape)
    (h : Kernel.pad? s padding fill values = .ok (buffer, out)) : HasPlanes out.toShape := by
  obtain ⟨hout, -, -⟩ := Kernel.pad?_eq_ok_iff.mp h
  refine hasPlanes_toShape fun hsome => ?_
  have hsome : 1 ≤ Kernel.planes s := by rwa [hout] at hsome
  obtain ⟨hheight, hwidth⟩ := hplanes s rfl hsome
  have hvolume := Kernel.volume_pos_of_pad? h hsome hheight hwidth
  exact ⟨Nat.pos_of_mul_pos_left (Nat.pos_of_mul_pos_right hvolume),
    Nat.pos_of_mul_pos_left hvolume⟩

/-- What a node with padding gives. -/
theorem exists_of_padNode {I : Interpreter} (h : I.padNode node x = .ok y) :
    ∃ (padding : Padding) (s : Nchw), x.shape = s.toShape ∧ (match x.elements with
      | .ints type values => do
        let (padded, out) ← Kernel.pad? s padding 0 values
        intTensor out.toShape (.int type) padded
      | .reals values => do
        let (padded, out) ← Kernel.pad? s padding (zero false) values
        realTensor out.toShape padded) = .ok y := by
  unfold Interpreter.padNode at h
  generalize node.attributes.get? "mode" = given at h
  -- only a text can be a mode that is refused; in all other cases the rest is the same
  rcases given with _ | _ | _ | _ | _ | mode
  on_goal 6 => replace h := (check_eq_ok_iff.mp h).2
  all_goals
    obtain ⟨padding, -, h⟩ := bind_eq_ok_iff.mp (show (I.padding node >>= _) = .ok y from h)
    obtain ⟨s, hs, h⟩ := bind_eq_ok_iff.mp h
    exact ⟨padding, s, Nchw.ofShape?_eq_ok_iff.mp hs, h⟩

theorem zeros_padNode {I : Interpreter} (hx : x.Zeros) (h : I.padNode node x = .ok y) :
    y.Zeros := by
  obtain ⟨padding, s, hshape, h⟩ := exists_of_padNode h
  have hplanes : HasPlanes s.toShape := hshape ▸ hx.hasPlanes
  split at h
  · next type values helements =>
    obtain ⟨⟨padded, out⟩, hpad, h⟩ := bind_eq_ok_iff.mp h
    refine zeros_of_intTensor (hasPlanes_of_pad? hplanes hpad) (fun v hv => ?_) h
    exact (Kernel.mem_of_pad? hpad v hv).elim id (hx.of_ints helements v)
  · next values helements =>
    obtain ⟨⟨padded, out⟩, hpad, h⟩ := bind_eq_ok_iff.mp h
    refine zeros_of_realTensor (hasPlanes_of_pad? hplanes hpad) (fun v hv => ?_) h
    exact (Kernel.mem_of_pad? hpad v hv).elim (fun hfill => hfill ▸ isZero_zero false)
      (hx.of_reals helements v)

/-! ### Pooling -/

/-- **The largest elements of zeros are zeros**: the padding is not among them. -/
theorem zeros_maxPool? {α β : Type} [LinearOrder β] {Z Z' : α → Prop} {less : α → α → Bool}
    {least : α} {rank : α → β} (hranked : Ranked Z' less least rank) (hZ : ∀ v, Z v → Z' v)
    {s size out : Nchw} {kernel stride : Node.Extents} {padding : Padding}
    {values padded pooled : Array α} (hplanes : HasPlanes s.toShape) (hvalues : ∀ v ∈ values, Z v)
    (hnarrower : Narrower padding kernel)
    (hpad : Kernel.pad? s padding least values = .ok (padded, size))
    (h : Kernel.maxPool? less padded size kernel stride = .ok (pooled, out)) :
    HasPlanes out.toShape ∧ ∀ v ∈ pooled, Z v := by
  obtain ⟨hsize, -, -⟩ := Kernel.pad?_eq_ok_iff.mp hpad
  obtain ⟨_, hwindows, hrest⟩ := bind_eq_ok_iff.mp h
  obtain ⟨_, htable, hpair⟩ := bind_eq_ok_iff.mp hrest
  obtain ⟨rfl, rfl⟩ := Prod.mk.inj (Except.ok.inj hpair)
  obtain ⟨-, hout⟩ := Kernel.windows?_eq_ok_iff.mp hwindows
  refine ⟨hasPlanes_toShape fun _ => hout ▸ ⟨Nat.le_add_left 1 _, Nat.le_add_left 1 _⟩, ?_⟩
  intro v hv
  -- an element belongs to a plane, and the planes are those of the data
  obtain ⟨b, plane, oy, ox, hin, -⟩ := Kernel.exists_of_mem_tabulate? htable hv
  have hsome : 1 ≤ Kernel.planes s := by
    have hplane : plane < Kernel.planes _ := hin.channel
    rw [hout, hsize] at hplane
    exact Nat.one_le_of_lt hplane
  obtain ⟨hheight, hwidth⟩ := hplanes s rfl hsome
  exact hvalues v (mem_of_maxPool? hranked (fun v hv => hZ v (hvalues v hv)) hheight hwidth
    hnarrower hpad h v hv)

/-- The largest integers and real numbers of windows.  The padding is the least integer, and minus
infinity. -/
theorem zeros_maxPoolNode
    (hnarrower : ∀ kernel padding, node.kernelShape? = .ok kernel → node.pads? = .ok padding →
      Narrower padding kernel) (hx : x.Zeros) (h : maxPoolNode node x = .ok y) : y.Zeros := by
  unfold maxPoolNode ofGraph at h
  simp only [bind_eq_ok_iff, mapError_eq_ok_iff, Nchw.ofShape?_eq_ok_iff] at h
  obtain ⟨kernel, hkernel, stride, -, padding, hpadding, s, hshape, h⟩ := h
  have hplanes : HasPlanes s.toShape := hshape ▸ hx.hasPlanes
  have hnarrower := hnarrower kernel padding hkernel hpadding
  cases helements : x.elements with
  | ints type values =>
    rw [helements] at h
    simp only [bind_eq_ok_iff, Prod.exists] at h
    obtain ⟨padded, size, hpad, pooled, out, hpool, h⟩ := h
    obtain ⟨hout, hvalues⟩ := zeros_maxPool? (Z := (· = 0)) ranked_ints (by rintro _ rfl; decide)
      hplanes (hx.of_ints helements) hnarrower hpad hpool
    exact zeros_of_intTensor hout hvalues h
  | reals values =>
    rw [helements] at h
    simp only [bind_eq_ok_iff, Prod.exists] at h
    obtain ⟨padded, size, hpad, pooled, out, hpool, h⟩ := h
    obtain ⟨hout, hvalues⟩ := zeros_maxPool? (Z := IsZero) ranked_reals
      (fun _ hv => (denotes_self hv.isFinite).isNaN_eq) hplanes (hx.of_reals helements) hnarrower
      hpad hpool
    exact zeros_of_realTensor hout hvalues h

section Pieces

variable {α : Type} {size count : ℕ} {values : Array α}

/-- There are as many pieces as asked for, if there are elements for all of them. -/
theorem length_pieces (hpos : 1 ≤ size) (hsize : values.size = count * size) :
    (pieces size count values).length = count := by
  have hquotient : (values.size + size - 1) / size = count := by
    rw [hsize, Nat.add_sub_assoc hpos, Nat.add_comm, Nat.add_mul_div_right _ _ hpos,
      Nat.div_eq_of_lt (Nat.sub_one_lt (by omega)), Nat.zero_add]
  simp [pieces, max_eq_right hpos, hquotient]

theorem mem_of_mem_pieces {piece : List α} (h : piece ∈ pieces size count values) {v : α}
    (hv : v ∈ piece) : v ∈ values := by
  obtain ⟨i, -, rfl⟩ := List.mem_map.mp h
  obtain ⟨j, hj, rfl⟩ := Array.mem_iff_getElem.mp (Array.mem_toList_iff.mp hv)
  rw [Array.getElem_extract]
  exact Array.getElem_mem _

/-- Pieces have elements. -/
theorem size_pos_of_mem_pieces {piece : List α} (h : piece ∈ pieces size count values) :
    1 ≤ values.size := by
  obtain ⟨i, hi, -⟩ := List.mem_map.mp h
  by_contra hempty
  have hnone : (values.size + max 1 size - 1) / max 1 size = 0 := Nat.div_eq_of_lt (by omega)
  rw [List.mem_range, hnone, Nat.min_zero] at hi
  exact Nat.not_lt_zero i hi

end Pieces

/-- Where there are elements, planes have elements also as machine words count them. -/
theorem area_pos_of_mem_pieces {α : Type} {s : Nchw} {values : Array α} {piece : List α}
    (hsize : values.size = word s.volume)
    (h : piece ∈ pieces (Kernel.rows s).area ((Kernel.rows s).batch * (Kernel.rows s).channels)
      values) : 1 ≤ (Kernel.rows s).area := by
  have hsome := size_pos_of_mem_pieces h
  have harea : (Kernel.rows s).area = s.area % twoPow 64 := Nat.one_mul _
  have hvolume : values.size = s.batch * s.channels * (s.area % twoPow 64) % twoPow 64 := by
    rw [hsize, s.volume_eq, word, Nat.mul_mod, Nat.mul_mod (_ * _) (_ % _), Nat.mod_mod]
  by_contra hzero
  have hnone : s.area % twoPow 64 = 0 := by omega
  rw [hnone, Nat.mul_zero, Nat.zero_mod] at hvolume
  omega

/-- A sum of zeros is zero. -/
theorem foldl_add_zeros {xs : List ℤ} (h : ∀ v ∈ xs, v = 0) : xs.foldl (· + ·) 0 = 0 := by
  induction xs with
  | nil => rfl
  | cons v rest ih =>
    rw [List.foldl_cons, h v List.mem_cons_self, add_zero]
    exact ih fun w hw => h w (List.mem_cons_of_mem _ hw)

/-- **A mean of zeros is zero**, since no plane is empty. -/
theorem zeros_averagePoolNode (hx : x.Zeros) (h : averagePoolNode x = .ok y) : y.Zeros := by
  unfold averagePoolNode at h
  simp only [bind_eq_ok_iff, Nchw.ofShape?_eq_ok_iff] at h
  obtain ⟨s, hshape, h⟩ := h
  have hplanes : HasPlanes s.pooled.toShape := hasPlanes_toShape fun _ => ⟨le_rfl, le_rfl⟩
  have hsize : x.elements.size = word s.volume := by
    rw [x.size_eq, hshape, Nchw.elementCount_toShape]
  cases helements : x.elements with
  | ints type values =>
    rw [helements] at h hsize
    refine zeros_of_intTensor hplanes (fun v hv => ?_) h
    obtain ⟨plane, hplane, rfl⟩ := List.mem_map.mp (List.mem_toArray.mp hv)
    have hsum := foldl_add_zeros fun w hw => hx.of_ints helements w (mem_of_mem_pieces hplane hw)
    rw [hsum]
    exact (IsZero.div (by decide +kernel) (zero_lt_ofInt (by exact_mod_cast area_pos_of_mem_pieces hsize hplane))).toInt64_roundEven
  | reals values =>
    rw [helements] at h hsize
    refine zeros_of_realTensor hplanes (fun v hv => ?_) h
    obtain ⟨plane, hplane, rfl⟩ := List.mem_map.mp (List.mem_toArray.mp hv)
    exact (isZero_sum fun w hw =>
      hx.of_reals helements w (mem_of_mem_pieces hplane hw)).div (zero_lt_ofInt (by exact_mod_cast area_pos_of_mem_pieces hsize hplane))

/-! ### Scales -/

theorem clampInt_signed_zero (bits : ℕ) : clampInt (signedMin bits) (signedMax bits) 0 = 0 := by
  have hpos := twoPow_pos (bits - 1)
  refine clampInt_eq_self ?_ ?_
  · unfold signedMin
    omega
  · unfold signedMax
    omega

theorem quantizeValue_of_isZero {scale v : Binary64} {bits : ℕ}
    (hscale : (zero false).lt scale = true) (hv : v.IsZero) :
    quantizeValue node scale bits v = .ok 0 := by
  unfold quantizeValue saturate
  rw [if_pos hv.isFinite, (hv.div hscale).toInt64_roundEven]
  exact congrArg _ (clampInt_signed_zero _)

/-- Zero is quantized to zero, at every scale and to every width. -/
theorem zeros_quantize {I : Interpreter} (hx : x.Zeros) (h : I.quantize node x = .ok y) :
    y.Zeros := by
  unfold Interpreter.quantize quantizeTensor at h
  simp only [bind_eq_ok_iff, Prod.exists] at h
  obtain ⟨params, hparams, type, bits, -, codes, hcodes, h⟩ := h
  have hscale := (Interpreter.valid_params hparams).zero_lt_scale
  have hmap := mapM_eq_ok_map (f := quantizeValue node params.scale bits) (g := fun _ => (0 : ℤ))
    (l := x.toReals.toList) fun v hv =>
      quantizeValue_of_isZero hscale (hx.toReals v (Array.mem_toList_iff.mp hv))
  obtain rfl := Except.ok.inj (hmap.symm.trans hcodes)
  refine zeros_of_intTensor hx.hasPlanes (fun v hv => ?_) h
  obtain ⟨_, -, rfl⟩ := List.mem_map.mp (List.mem_toArray.mp hv)
  rfl

/-- Zero stands for zero. -/
theorem zeros_dequantize {I : Interpreter} (hx : x.Zeros) (h : I.dequantize node x = .ok y) :
    y.Zeros := by
  unfold Interpreter.dequantize dequantizeTensor at h
  simp only [bind_eq_ok_iff, integers_eq_ok_iff, Tensor.ints?_eq_some_iff] at h
  obtain ⟨params, hparams, values, ⟨type, helements⟩, h⟩ := h
  have hscale := (Interpreter.valid_params hparams).scale.isFinite
  refine zeros_of_realTensor hx.hasPlanes (fun v hv => ?_) h
  obtain ⟨w, hw, rfl⟩ := Array.mem_map.mp hv
  rw [hx.of_ints helements w hw]
  exact IsZero.mul (by decide +kernel) hscale

/-! ### Convolution -/

namespace Operands

variable {operands : Operands}

/-- **The convolution of zeros without a bias is zero**, whatever the weights are and whatever the
loops read. -/
theorem eq_zero_of_result (hwell : operands.WellFormed) (hdata : ∀ v ∈ operands.data, v = 0)
    (hbias : ∀ v ∈ operands.bias, v = 0) {b oc oy ox : ℕ} {products : List (ℤ × ℤ)}
    (hreads : operands.reads? b oc oy ox = .ok products) :
    operands.requantize.apply (dot products) (operands.biasAt oc) = 0 := by
  have hbiasAt : operands.biasAt oc = 0 := by
    unfold biasAt
    rw [Array.getD_eq_getD_getElem?]
    cases hget : operands.bias[oc]? with
    | none => rfl
    | some w => exact hbias w (Array.mem_of_getElem? hget)
  have hproducts : ∀ p ∈ products, p.1 * p.2 = 0 := by
    intro p hp
    obtain ⟨hread, -⟩ := Kernel.mem_of_window? hreads p hp
    exact mul_eq_zero_of_left ((Kernel.mem_of_pad? hwell.padded _ hread).elim id (hdata _)) _
  have hsums : ∀ initial, initial <+: products → exactDot initial = 0 :=
    fun initial hinitial => List.sum_eq_zero fun w hw => by
      obtain ⟨p, hp, rfl⟩ := List.mem_map.mp hw
      exact hproducts p (hinitial.subset hp)
  have hfits : Fits64 0 := ⟨by decide, by decide⟩
  have htotal : operands.total products oc = 0 := by
    rw [total, hsums _ List.prefix_rfl, hbiasAt, zero_mul, zero_mul, add_zero]
  have hfitsAll : operands.Fits products oc :=
    { products := fun p hp => hproducts p hp ▸ hfits
      sums := fun initial hinitial => hsums initial hinitial ▸ hfits
      shiftedSum := by rwa [hsums _ List.prefix_rfl, zero_mul]
      shiftedBias := by rwa [hbiasAt, zero_mul]
      total := htotal ▸ hfits }
  rw [apply_eq_total hwell hfitsAll, htotal]
  simp [clampInt_signed_zero]

/-- The result of a quantized convolution without a bias. -/
theorem zeros_result (hwell : operands.WellFormed) (hx : x.Zeros)
    (hdata : x.ints? = some operands.data) (hbias : ∀ v ∈ operands.bias, v = 0)
    (h : operands.result = .ok y) : y.Zeros := by
  obtain ⟨out, values, hout, -, hy, helements, -, hvalues⟩ := of_result h
  obtain ⟨type, hints⟩ := Tensor.ints?_eq_some_iff.mp hdata
  refine ⟨?_, ?_⟩
  · obtain ⟨-, rfl⟩ := convolved?_eq_ok_iff.mp hout
    rw [hy]
    exact hasPlanes_toShape fun _ => ⟨Nat.le_add_left 1 _, Nat.le_add_left 1 _⟩
  · rw [helements]
    intro v hv
    obtain ⟨b, oc, oy, ox, products, hreads, rfl⟩ := hvalues v hv
    exact eq_zero_of_result hwell (hx.of_ints hints) hbias hreads

end Operands

/-! ### Nodes -/

namespace Interpreter

variable {I : Interpreter} {e f : Environment} {nodes : List Node}
  {format : Option FixedPoint.Format} {values : List (String × Tensor)}

/-- **What a node needs to give zeros for zeros.**  Its data is not a constant; if it pools for the
largest element, its padding is narrower than the window; and if it is a quantized convolution, it
has a bias of zeros. -/
structure KeepsZeros (interpreter : Interpreter) (node : Node) : Prop where
  data : ∀ name, node.input? 0 = some name → interpreter.graph.initializers.get? name = none
  narrower : node.operator = .maxPool → ∀ kernel padding, node.kernelShape? = .ok kernel →
    node.pads? = .ok padding → Narrower padding kernel
  bias : node.operator = .qlinearConv → ∀ x operands, interpreter.operands node x = .ok operands →
    ∀ v ∈ operands.bias, v = 0

/-- Of most operators only the data matters. -/
theorem KeepsZeros.of_data {interpreter : Interpreter}
    (hdata : ∀ name, node.input? 0 = some name → interpreter.graph.initializers.get? name = none)
    (hpool : node.operator ≠ .maxPool) (hquantized : node.operator ≠ .qlinearConv) :
    KeepsZeros interpreter node where
  data := hdata
  narrower hoperator := absurd hoperator hpool
  bias hoperator := absurd hoperator hquantized

/-- What a node reads that is not a constant is the value of an earlier node. -/
theorem zeros_of_value {index : ℕ} (henvironment : ∀ p ∈ e.values, p.2.Zeros)
    (hconstant : ∀ name, node.input? index = some name → I.graph.initializers.get? name = none)
    (h : I.value e node index = .ok x) : x.Zeros := by
  obtain ⟨name, hname, hfound⟩ := value_eq_ok_iff.mp h
  rw [hconstant name hname, Option.or_none] at hfound
  obtain ⟨front, back, hsplit, -⟩ := List.lookup_eq_some_iff.mp hfound
  exact henvironment (name, x) (hsplit ▸ List.mem_append_right _ List.mem_cons_self)

/-- Operators that leave the format as it is. -/
theorem zeros_of_unchanged {value : Except Error Tensor} {f : Tensor → Except Error Tensor}
    {left : Option FixedPoint.Format} (hvalue : ∀ x, value = .ok x → x.Zeros)
    (hf : ∀ x y, x.Zeros → f x = .ok y → y.Zeros)
    (h : (value >>= fun x => (fun y => (y, left)) <$> f x) = .ok (y, format)) : y.Zeros := by
  obtain ⟨x, hx, h⟩ := bind_eq_ok_iff.mp h
  obtain ⟨z, hz, hpair⟩ := map_eq_ok_iff.mp h
  cases hpair
  exact hf x y (hvalue x hx) hz

/-- **A node gives zeros for zeros.** -/
theorem zeros_of_evalNode (hconfig : I.config.Valid) (henvironment : ∀ p ∈ e.values, p.2.Zeros)
    (hnode : KeepsZeros I node) (h : I.evalNode e node = .ok (y, format)) : y.Zeros := by
  have hvalue : ∀ x, I.value e node 0 = .ok x → x.Zeros := fun x =>
    zeros_of_value henvironment hnode.data
  unfold evalNode at h
  cases hoperator : node.operator with
  | conv =>
    rw [hoperator] at h
    cases h
  | other name =>
    rw [hoperator] at h
    cases h
  | qlinearConv =>
    rw [hoperator] at h
    unfold convolution at h
    simp only [bind_eq_ok_iff, Prod.exists, Except.ok.injEq, Prod.mk.injEq] at h
    obtain ⟨x, hx, _, _, ⟨operands, hoperands, _, hresult, rfl, -⟩, _, -, rfl, -⟩ := h
    obtain ⟨hwell, -, hdata, -⟩ := operands_wellFormed hconfig hoperands
    exact operands.zeros_result hwell (hvalue x hx) hdata
      (hnode.bias hoperator x operands hoperands) hresult
  | quantizeLinear =>
    rw [hoperator] at h
    exact zeros_of_unchanged hvalue (fun _ _ => zeros_quantize) h
  | dequantizeLinear =>
    rw [hoperator] at h
    exact zeros_of_unchanged hvalue (fun _ _ => zeros_dequantize) h
  | pad =>
    rw [hoperator] at h
    exact zeros_of_unchanged hvalue (fun _ _ => zeros_padNode) h
  | maxPool =>
    rw [hoperator] at h
    exact zeros_of_unchanged hvalue (fun _ _ => zeros_maxPoolNode (hnode.narrower hoperator)) h
  | globalAveragePool =>
    rw [hoperator] at h
    exact zeros_of_unchanged hvalue (fun _ _ => zeros_averagePoolNode) h
  | relu =>
    rw [hoperator] at h
    exact zeros_of_unchanged hvalue (fun _ _ => zeros_elementwise
      (fun _ hv => (rectify_of_isZero hv).symm ▸ hv) rfl) h
  | leakyRelu =>
    rw [hoperator] at h
    obtain ⟨given, -, h⟩ := bind_eq_ok_iff.mp h
    exact zeros_of_unchanged hvalue (fun _ _ => zeros_elementwise
      (fun _ hv => (leakyRectify_of_isZero _ _ hv).symm ▸ hv) rfl) h

/-! ### Runs -/

/-- **A run gives zeros for zeros**, at every node: all values that it binds and all that it traces
are zeros. -/
theorem zeros_of_steps (hconfig : I.config.Valid) (henvironment : ∀ p ∈ e.values, p.2.Zeros)
    (hnodes : ∀ node ∈ nodes, KeepsZeros I node) (h : I.steps e nodes = .ok (f, values)) :
    (∀ p ∈ f.values, p.2.Zeros) ∧ ∀ p ∈ values, p.2.Zeros := by
  induction nodes generalizing e values with
  | nil =>
    cases h
    exact ⟨henvironment, by simp⟩
  | cons node rest ih =>
    rw [steps] at h
    simp only [bind_eq_ok_iff, Prod.exists, Except.ok.injEq, Prod.mk.injEq] at h
    obtain ⟨middle, y, hstep, last, later, hrest, rfl, rfl⟩ := h
    obtain ⟨hnode, hnodes⟩ := List.forall_mem_cons.mp hnodes
    obtain ⟨⟨z, format⟩, heval, hbind⟩ := bind_eq_ok_iff.mp hstep
    have hz := zeros_of_evalNode hconfig henvironment hnode heval
    cases houtput : node.output? with
    | none =>
      rw [houtput] at hbind
      cases hbind
    | some name =>
      rw [houtput] at hbind
      cases hbind
      have hnext : ∀ p ∈ (name, y) :: e.values, p.2.Zeros :=
        List.forall_mem_cons.mpr ⟨hz, henvironment⟩
      obtain ⟨hvalues, htraced⟩ := ih hnext hnodes hrest
      exact ⟨hvalues, List.forall_mem_cons.mpr ⟨hz, htraced⟩⟩

/-- The trace of a run on zeros, which has an entry for each node. -/
theorem zeros_of_run? {input result : Tensor} (hconfig : I.config.Valid)
    (hnodes : ∀ node ∈ I.graph.nodes, KeepsZeros I node) (hinput : input.Zeros)
    (h : I.run? input = .ok result) :
    ∃ values, I.trace? input = .ok values ∧
      values.map (·.1) = I.graph.nodes.map Node.label ∧ ∀ p ∈ values, p.2.Zeros := by
  obtain ⟨⟨_, values⟩, hexecute, -⟩ := map_eq_ok_iff.mp h
  refine ⟨values, map_eq_ok_iff.mpr ⟨_, hexecute, rfl⟩, ?_⟩
  obtain ⟨inputName, -, hexecute⟩ := bind_eq_ok_iff.mp hexecute
  obtain ⟨⟨final, _⟩, hsteps, hresult⟩ := bind_eq_ok_iff.mp hexecute
  dsimp only at hresult
  split at hresult
  · cases hresult
    obtain ⟨-, hlabels, -⟩ := steps_eq_ok hsteps
    exact ⟨hlabels, (zeros_of_steps hconfig (by simpa using hinput) hnodes hsteps).2⟩
  · cases hresult

end Interpreter

end Eval

end DyadicNet
