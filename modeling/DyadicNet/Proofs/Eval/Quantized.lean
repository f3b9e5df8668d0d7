import Mathlib
import DyadicNet.Eval.Quantized
import DyadicNet.Proofs.Binary64.Arithmetic
import DyadicNet.Proofs.Eval.Rows
import DyadicNet.Proofs.Tensor

/-!
# The exact value of a quantized convolution

What a quantized convolution computes from integers, shifts and padding is **one rational number for
each position, rounded once**: the convolution in real arithmetic, divided by the scale of the output.

The loops work on buffers, and what they read is what the convolution asks for as long as data, weights
and result fit into buffers.  Whatever they read, they sum it up, shift it and clamp it in the same
way.

The three shifts have one meaning.  Sum and bias are brought to the finer one of their scales, so
that their total counts units of `2 ^ (min ex 0 + ew)` for data in units of `2 ^ ex` and weights in
units of `2 ^ ew`; the last shift divides by what is left to the scale of the output.  As long as
nothing leaves 64 bits on the way, no saturation takes place before the last one.

## Main Definitions

* `Operands.dataAt` — the data in integer coordinates, zero outside;
* `Operands.terms` — the factors of a window in the order of the loops;
* `Operands.Fits` — that no exact intermediate value of an element leaves 64 bits;
* `Operands.realSum` — the convolution in real arithmetic;
* `Operands.WellFormed`, `Operands.Convolvable` — what an evaluation checks before the loops, and
  what the loops check;
* `Operands.Addressable` — that everything fits into buffers.

## Main Statements

* `Operands.of_result` — what a result is computed from;
* `Operands.reads?_eq_terms` — what the loops read if everything fits;
* `Operands.exists_result_iff` — when a convolution has a result then;
* `Operands.apply_eq_total`, `Operands.element_eq` — its elements in real arithmetic.
-/

namespace DyadicNet.Eval

/-! ### Tensors -/

/-- Integers of a type are a tensor for every shape that asks for as many. -/
theorem exists_intTensor {shape : List ℕ} {type : IntType} {values : Array ℤ}
    (hsize : values.size = elementCount shape) (hrange : values.all type.holds = true) :
    ∃ y, intTensor shape (.int type) values = .ok y ∧ y.shape = shape ∧
      y.elements = .ints type values :=
  ⟨⟨shape, .ints type values, hsize, hrange⟩,
    mapError_eq_ok_iff.mpr (Tensor.ofInts?_eq_ok_iff.mpr ⟨⟨hsize, hrange⟩, rfl, rfl⟩), rfl, rfl⟩

theorem exists_realTensor {shape : List ℕ} {values : Array Binary64}
    (hsize : values.size = elementCount shape) :
    ∃ y, realTensor shape values = .ok y ∧ y.shape = shape ∧ y.elements = .reals values :=
  ⟨⟨shape, .reals values, hsize, rfl⟩,
    mapError_eq_ok_iff.mpr (Tensor.ofReals?_eq_ok_iff.mpr ⟨hsize, rfl, rfl⟩), rfl, rfl⟩

/-! ### Checks -/

theorem integers_eq_ok_iff {node : Node} {x : Tensor} {values : Array ℤ} :
    integers node x = .ok values ↔ x.ints? = some values := by
  unfold integers
  split
  · next given h => rw [h, Except.ok.injEq, Option.some.injEq]
  · next h =>
    rw [h]
    exact ⟨nofun, nofun⟩

theorem checkShifts_eq_ok_iff {node : Node} {shifts : Shifts} {u : Unit} :
    checkShifts node shifts = .ok u ↔ shifts.areSmall = true := by
  unfold checkShifts
  cases shifts.areSmall with
  | false => exact ⟨nofun, nofun⟩
  | true => exact ⟨fun _ => rfl, fun _ => rfl⟩

theorem areSmall_iff {shifts : Shifts} :
    shifts.areSmall = true ↔
      shifts.input.natAbs ≤ 62 ∧ shifts.bias.natAbs ≤ 62 ∧ shifts.output.natAbs ≤ 62 := by
  unfold Shifts.areSmall maxShift
  simp only [List.all_cons, List.all_nil, Bool.and_true, Bool.and_eq_true, decide_eq_true_eq]
  omega

namespace Operands

variable (operands : Operands)

/-! ### The convolution in real arithmetic -/

/-- The integer of the data at a place of a plane, which may lie outside: there is zero. -/
def dataAt (b c : ℕ) (y x : ℤ) : ℤ :=
  if 0 ≤ y ∧ y < operands.dataShape.height ∧ 0 ≤ x ∧ x < operands.dataShape.width then
    operands.dataShape.read operands.data 0 b c y.toNat x.toNat
  else 0

/-- The integer of a weight. -/
def weightAt (oc c ky kx : ℕ) : ℤ :=
  operands.weightShape.read operands.weights 0 oc c ky kx

/-- The integer of the bias of a channel. -/
def biasAt (oc : ℕ) : ℤ :=
  operands.bias.getD oc 0

/-- The data and the weight that meet in a place of the window at a position. -/
def term (b oc oy ox c ky kx : ℕ) : ℤ × ℤ :=
  (operands.dataAt b c (oy * operands.stride.height + ky - operands.padding.top)
      (ox * operands.stride.width + kx - operands.padding.left),
    operands.weightAt oc c ky kx)

/-- All of them, in the order of the loops. -/
def terms (b oc oy ox : ℕ) : List (ℤ × ℤ) :=
  (taps operands.dataShape.channels operands.weightShape.height operands.weightShape.width).map
    fun (c, ky, kx) => operands.term b oc oy ox c ky kx

/-- The convolution in real arithmetic: every integer stands for its product with its scale. -/
def realSum (b oc oy ox : ℕ) : ℚ :=
  (∑ c ∈ Finset.range operands.dataShape.channels,
    ∑ ky ∈ Finset.range operands.weightShape.height,
      ∑ kx ∈ Finset.range operands.weightShape.width,
        ((operands.term b oc oy ox c ky kx).1 * operands.dataParams.scale.toRat)
          * ((operands.term b oc oy ox c ky kx).2 * operands.weightParams.scale.toRat))
    + operands.biasAt oc * operands.weightParams.scale.toRat

/-- The extents of the result. -/
def outputShape : Nchw :=
  let size := operands.dataShape.padded operands.padding
  ⟨operands.dataShape.batch, operands.weightShape.batch,
    (size.height - operands.weightShape.height) / operands.stride.height + 1,
    (size.width - operands.weightShape.width) / operands.stride.width + 1⟩

/-- The sum of some products and the bias of a channel, at their common scale. -/
def total (products : List (ℤ × ℤ)) (oc : ℕ) : ℤ :=
  exactDot products * twoPow operands.shifts.input.toNat
    + operands.biasAt oc * twoPow operands.shifts.bias.toNat

/-- No exact intermediate value of an element leaves 64 bits: neither a product, nor a sum of the
first products, nor the shifted sum, the shifted bias and their sum. -/
structure Fits (ps : List (ℤ × ℤ)) (oc : ℕ) : Prop where
  products : ∀ p ∈ ps, Fits64 (p.1 * p.2)
  sums : ∀ initial, initial <+: ps → Fits64 (exactDot initial)
  shiftedSum : Fits64 (exactDot ps * twoPow operands.shifts.input.toNat)
  shiftedBias : Fits64 (operands.biasAt oc * twoPow operands.shifts.bias.toNat)
  total : Fits64 (operands.total ps oc)

/-- Whether it is so can be computed. -/
instance (ps : List (ℤ × ℤ)) (oc : ℕ) : Decidable (operands.Fits ps oc) :=
  decidable_of_iff
    ((∀ p ∈ ps, Fits64 (p.1 * p.2)) ∧ (∀ initial ∈ ps.inits, Fits64 (exactDot initial)) ∧
      Fits64 (exactDot ps * twoPow operands.shifts.input.toNat) ∧
      Fits64 (operands.biasAt oc * twoPow operands.shifts.bias.toNat) ∧
      Fits64 (operands.total ps oc))
    ⟨fun ⟨hproducts, hsums, hsum, hbias, htotal⟩ =>
      ⟨hproducts, fun initial hinitial => hsums initial ((List.mem_inits _ _).mpr hinitial), hsum,
        hbias, htotal⟩,
      fun h => ⟨h.products, fun initial hinitial => h.sums initial ((List.mem_inits _ _).mp hinitial),
        h.shiftedSum, h.shiftedBias, h.total⟩⟩

/-- What an evaluation has made sure of before the loops.  The numbers of elements are machine words,
and the data has been padded. -/
structure WellFormed : Prop where
  dataScale : operands.dataParams.scale.toRat = 2 ^ operands.dataParams.exponent
  weightScale : operands.weightParams.scale.toRat = 2 ^ operands.weightParams.exponent
  outputScale : operands.outputParams.scale.toRat = 2 ^ operands.outputParams.exponent
  data_size : operands.data.size = word operands.dataShape.volume
  weights_size : operands.weights.size = word operands.weightShape.volume
  padded : Kernel.pad? operands.dataShape operands.padding 0 operands.data
    = .ok (operands.padded, operands.paddedShape)
  shifts_small : operands.shifts.areSmall = true
  bits_pos : 1 ≤ operands.bits
  bits_le : operands.bits ≤ 32
  bits_le_type : operands.bits ≤ operands.type.bits
  stride_height_pos : 0 < operands.stride.height
  stride_width_pos : 0 < operands.stride.width

/-- What the loops check: the channels and the bias belong to the weights, and the window fits the
padded data. -/
structure Convolvable : Prop where
  channels : operands.weightShape.channels = operands.dataShape.channels
  bias : operands.bias.size = operands.weightShape.batch
  height_pos : 0 < operands.weightShape.height
  height_le : operands.weightShape.height
    ≤ operands.dataShape.height + operands.padding.top + operands.padding.bottom
  width_pos : 0 < operands.weightShape.width
  width_le : operands.weightShape.width
    ≤ operands.dataShape.width + operands.padding.left + operands.padding.right

/-- The padded data and the result fit into buffers, and the weights can be counted. -/
structure Addressable : Prop where
  data : Eval.Addressable operands.dataShape operands.padding
  weights : operands.weightShape.volume < twoPow 64
  output : operands.outputShape.volume ≤ maxElements

/-- What the loops read for a position. -/
def reads? (b oc oy ox : ℕ) : Except Error (List (ℤ × ℤ)) :=
  Kernel.window? operands.padded operands.paddedShape operands.weights operands.weightShape
    operands.stride b oc oy ox

/-- The shifts and the width of the output, as the loops take them. -/
def requantize : Requantize :=
  ⟨operands.shifts.input.toNat, operands.shifts.bias.toNat, operands.shifts.output, operands.bits⟩

/-! ### The result -/

variable {operands} {b oc oy ox : ℕ}

/-- **What a result is computed from**: each element from what the loops read for its position. -/
theorem of_result {y : Tensor} (h : operands.result = .ok y) :
    ∃ out values,
      convolved? operands.paddedShape operands.weightShape operands.bias.size operands.stride = .ok out
        ∧ out.volume ≤ maxElements ∧ y.shape = out.toShape ∧
      y.elements = .ints operands.type values ∧
      (∀ b oc oy ox, out.Inside b oc oy ox → ∃ products,
        operands.reads? b oc oy ox = .ok products ∧ values[out.index b oc oy ox]?
          = some (operands.requantize.apply (dot products) (operands.biasAt oc))) ∧
      ∀ v ∈ values, ∃ b oc oy ox products, operands.reads? b oc oy ox = .ok products ∧
        operands.requantize.apply (dot products) (operands.biasAt oc) = v := by
  unfold result intTensor at h
  simp only [bind_eq_ok_iff, Prod.exists, mapError_eq_ok_iff, Tensor.ofInts?_eq_ok_iff] at h
  obtain ⟨values, out, hconvolve, -, hshape, helements⟩ := h
  obtain ⟨hout, hvolume, -, hinside, hmem⟩ := Kernel.of_convolve? hconvolve
  exact ⟨out, values, hout, hvolume, hshape, helements, hinside, hmem⟩

/-- A convolution with a result has passed its checks. -/
theorem convolvable_of_result (h : operands.WellFormed) {y : Tensor}
    (hresult : operands.result = .ok y) : operands.Convolvable := by
  obtain ⟨out, -, hout, -⟩ := of_result hresult
  obtain ⟨hsize, -, -⟩ := Kernel.pad?_eq_ok_iff.mp h.padded
  rw [hsize] at hout
  obtain ⟨⟨hchannels, hbias, hheight, hwidth⟩, -⟩ := convolved?_eq_ok_iff.mp hout
  exact ⟨hchannels, hbias, hheight.1, hheight.2.1.trans (word_le _), hwidth.1,
    hwidth.2.1.trans (word_le _)⟩

/-- Whatever the loops read, the elements are clamped to the width of the output. -/
theorem mem_range_of_result (h : operands.WellFormed) {y : Tensor} (hresult : operands.result = .ok y)
    {type : IntType} {values : Array ℤ} (helements : y.elements = .ints type values) :
    ∀ v ∈ values, signedMin operands.bits ≤ v ∧ v ≤ signedMax operands.bits := by
  obtain ⟨_, _, -, -, -, helements', -, hmem⟩ := of_result hresult
  obtain ⟨-, rfl⟩ := Elements.ints.inj (helements.symm.trans helements')
  intro v hv
  obtain ⟨b, oc, oy, ox, products, -, rfl⟩ := hmem v hv
  exact Requantize.apply_mem (r := operands.requantize) h.bits_pos (h.bits_le.trans (by decide)) _ _

/-! ### The factors of a window -/

section Addressable

variable (h : operands.WellFormed) (haddressable : operands.Addressable)
include h haddressable

/-- Data that fits has been padded as the formula says. -/
theorem padded_eq : operands.padded = pad operands.dataShape operands.padding 0 operands.data ∧
    operands.paddedShape = operands.dataShape.padded operands.padding := by
  have hsize := h.data_size.trans (word_of_lt haddressable.data.volume_lt)
  have hpadded := h.padded
  rw [Kernel.pad?_eq haddressable.data 0 hsize] at hpadded
  obtain ⟨hdata, hshape⟩ := Prod.mk.inj (Except.ok.inj hpadded)
  exact ⟨hdata.symm, hshape.symm⟩

theorem convolved?_eq (hconv : operands.Convolvable) :
    convolved? operands.paddedShape operands.weightShape operands.bias.size operands.stride
      = .ok operands.outputShape := by
  rw [(padded_eq h haddressable).2, convolved?_eq_ok_iff]
  exact ⟨⟨hconv.channels, hconv.bias, ⟨hconv.height_pos, hconv.height_le, h.stride_height_pos⟩,
    hconv.width_pos, hconv.width_le, h.stride_width_pos⟩, rfl⟩

theorem size_padded : operands.padded.size = operands.paddedShape.volume := by
  obtain ⟨hdata, hshape⟩ := padded_eq h haddressable
  rw [hdata, hshape]
  exact Nchw.size_tabulate _ _

theorem volume_paddedShape_lt : operands.paddedShape.volume < twoPow 64 := by
  rw [(padded_eq h haddressable).2]
  exact haddressable.data.volume_le.trans_lt maxElements_lt

theorem size_weights : operands.weights.size = operands.weightShape.volume :=
  h.weights_size.trans (word_of_lt haddressable.weights)

/-- A window of the padded data has the terms of the sum: reading the padded data is reading the data
in integer coordinates. -/
theorem window_eq_terms (hconv : operands.Convolvable)
    (hpos : operands.outputShape.Inside b oc oy ox) :
    window operands.padded operands.paddedShape operands.weights operands.weightShape operands.stride
        b oc oy ox
      = operands.terms b oc oy ox := by
  obtain ⟨hdata, hshape⟩ := padded_eq h haddressable
  rw [hdata, hshape]
  unfold window terms
  refine List.map_congr_left ?_
  rintro ⟨c, ky, kx⟩ htap
  obtain ⟨hc, hky, hkx⟩ := mem_taps.mp htap
  have hinside : (operands.dataShape.padded operands.padding).Inside b c
      (oy * operands.stride.height + ky) (ox * operands.stride.width + kx) :=
    ⟨hpos.batch, hc, place_lt hconv.height_le hpos.row hky,
      place_lt hconv.width_le hpos.column hkx⟩
  have hrow : (oy : ℤ) * operands.stride.height + ky
      = ((oy * operands.stride.height + ky : ℕ) : ℤ) := by push_cast; rfl
  have hcolumn : (ox : ℤ) * operands.stride.width + kx
      = ((ox * operands.stride.width + kx : ℕ) : ℤ) := by push_cast; rfl
  dsimp only
  rw [Nchw.read_pad _ _ _ hinside, term, dataAt, weightAt, hrow, hcolumn]
  congr 1
  -- inside the data both conditions hold, and the places are the same
  by_cases hin : operands.padding.top ≤ oy * operands.stride.height + ky ∧
      oy * operands.stride.height + ky < operands.padding.top + operands.dataShape.height ∧
      operands.padding.left ≤ ox * operands.stride.width + kx ∧
      ox * operands.stride.width + kx < operands.padding.left + operands.dataShape.width
  · rw [if_pos hin, if_pos (by omega)]
    congr 1 <;> omega
  · rw [if_neg hin, if_neg (by omega)]

/-- **The loops read the terms of the sum.** -/
theorem reads?_eq_terms (hconv : operands.Convolvable)
    (hpos : operands.outputShape.Inside b oc oy ox) :
    operands.reads? b oc oy ox = .ok (operands.terms b oc oy ox) := by
  unfold reads?
  rw [Kernel.window?_eq (size_padded h haddressable) (volume_paddedShape_lt h haddressable)
    (size_weights h haddressable) haddressable.weights (convolved?_eq h haddressable hconv) hpos,
    window_eq_terms h haddressable hconv hpos]

/-- The loops give the elements of all positions. -/
theorem loops_eq (hconv : operands.Convolvable) :
    Kernel.convolve? operands.padded operands.paddedShape operands.weights operands.weightShape
        operands.bias operands.stride operands.requantize
      = .ok (operands.outputShape.tabulate fun b oc oy ox =>
          operands.requantize.apply (dot (operands.terms b oc oy ox)) (operands.biasAt oc),
        operands.outputShape) := by
  have hout := convolved?_eq h haddressable hconv
  rw [Kernel.convolve?_eq (size_padded h haddressable) (volume_paddedShape_lt h haddressable)
    (size_weights h haddressable) haddressable.weights fun out hconvolved => ?_]
  · unfold convolve?
    rw [hout, ok_bind]
    dsimp only
    rw [Nchw.tabulate_congr fun b oc oy ox hin => by
      rw [window_eq_terms h haddressable hconv hin]]
    rfl
  · obtain rfl := Except.ok.inj (hout.symm.trans hconvolved)
    exact haddressable.output

/-- **A convolution of what fits has a result exactly if it passes its checks.** -/
theorem exists_result_iff : (∃ y, operands.result = .ok y) ↔ operands.Convolvable := by
  refine ⟨fun ⟨y, hy⟩ => convolvable_of_result h hy, fun hconv => ?_⟩
  set values := operands.outputShape.tabulate fun b oc oy ox =>
    operands.requantize.apply (dot (operands.terms b oc oy ox)) (operands.biasAt oc) with hvalues
  have hsize : values.size = elementCount operands.outputShape.toShape := by
    rw [Nchw.elementCount_toShape, word_of_le haddressable.output, hvalues, Nchw.size_tabulate]
  have hholds : values.all operands.type.holds = true := by
    have hmin : operands.type.least ≤ signedMin operands.bits :=
      signedMin_le_signedMin h.bits_le_type
    have hmax : signedMax operands.bits ≤ operands.type.greatest :=
      signedMax_le_signedMax h.bits_le_type
    rw [Array.all_eq_true']
    intro v hv
    obtain ⟨b, oc, oy, ox, -, rfl⟩ := Nchw.exists_of_mem_tabulate hv
    obtain ⟨hlow, hhigh⟩ := Requantize.apply_mem (r := operands.requantize) h.bits_pos
      (h.bits_le.trans (by decide)) (dot (operands.terms b oc oy ox)) (operands.biasAt oc)
    exact decide_eq_true ⟨hmin.trans hlow, hhigh.trans hmax⟩
  obtain ⟨y, hy, -⟩ := exists_intTensor hsize hholds
  refine ⟨y, ?_⟩
  show (Kernel.convolve? _ _ _ _ _ _ operands.requantize >>= _) = _
  rw [loops_eq h haddressable hconv]
  exact hy

/-- The extents and elements of a result, at their positions. -/
theorem getElem?_of_result {y : Tensor} (hresult : operands.result = .ok y) :
    y.shape = operands.outputShape.toShape ∧ ∃ values, y.elements = .ints operands.type values ∧
      ∀ b oc oy ox, operands.outputShape.Inside b oc oy ox →
        values[operands.outputShape.index b oc oy ox]?
          = some (operands.requantize.apply (dot (operands.terms b oc oy ox))
              (operands.biasAt oc)) := by
  have hconv := convolvable_of_result h hresult
  obtain ⟨out, values, hout, -, hshape, helements, hinside, -⟩ := of_result hresult
  obtain rfl := Except.ok.inj (hout.symm.trans (convolved?_eq h haddressable hconv))
  refine ⟨hshape, values, helements, fun b oc oy ox hin => ?_⟩
  obtain ⟨products, hproducts, hvalue⟩ := hinside b oc oy ox hin
  obtain rfl := Except.ok.inj (hproducts.symm.trans (reads?_eq_terms h haddressable hconv hin))
  exact hvalue

end Addressable

/-! ### The elements in real arithmetic -/

/-- The sum over a window, as a sum over channels, rows and columns. -/
theorem cast_exactDot_terms :
    (exactDot (operands.terms b oc oy ox) : ℚ)
      = ∑ c ∈ Finset.range operands.dataShape.channels,
          ∑ ky ∈ Finset.range operands.weightShape.height,
            ∑ kx ∈ Finset.range operands.weightShape.width,
              ((operands.term b oc oy ox c ky kx).1 : ℚ) * (operands.term b oc oy ox c ky kx).2 := by
  rw [← sum_taps, exactDot, terms, Int.cast_list_sum, List.map_map, List.map_map]
  congr 1
  apply List.map_congr_left
  rintro ⟨c, ky, kx⟩ -
  simp

/-- The sum in real arithmetic, counted in units of the output: what the three shifts compute. -/
theorem realSum_div (h : operands.WellFormed) :
    operands.realSum b oc oy ox / operands.outputParams.scale.toRat
      = (operands.total (operands.terms b oc oy ox) oc : ℚ) / 2 ^ operands.shifts.output := by
  unfold total
  set ex := operands.dataParams.exponent with hex
  set ew := operands.weightParams.exponent with hew
  set ey := operands.outputParams.exponent with hey
  have hinput : ((operands.shifts.input.toNat : ℕ) : ℤ) = ex - min ex 0 :=
    Int.toNat_of_nonneg (by show 0 ≤ ex - min ex 0; omega)
  have hbias : ((operands.shifts.bias.toNat : ℕ) : ℤ) = -min ex 0 :=
    Int.toNat_of_nonneg (by show 0 ≤ -min ex 0; omega)
  have houtput : operands.shifts.output = ey - ew - min ex 0 := rfl
  have hsum : operands.realSum b oc oy ox
      = exactDot (operands.terms b oc oy ox) * 2 ^ (ex + ew) + operands.biasAt oc * 2 ^ ew := by
    rw [realSum, cast_exactDot_terms, h.dataScale, h.weightScale, zpow_two_add]
    simp only [Finset.sum_mul]
    congr 1
    refine Finset.sum_congr rfl fun c _ => Finset.sum_congr rfl fun ky _ =>
      Finset.sum_congr rfl fun kx _ => ?_
    ring
  push_cast
  rw [hsum, h.outputScale, houtput, cast_twoPow, cast_twoPow, hinput, hbias, ← hey,
    div_eq_mul_inv, div_eq_mul_inv, ← zpow_neg, ← zpow_neg, add_mul, add_mul, mul_assoc, mul_assoc,
    mul_assoc, mul_assoc, ← zpow_two_add, ← zpow_two_add, ← zpow_two_add, ← zpow_two_add]
  congr 3 <;> ring

/-- Where nothing leaves 64 bits, an element is what exact integers give: sum and bias are shifted and
added, and the total is divided by the last shift, rounded and clamped. -/
theorem apply_eq_total (h : operands.WellFormed) {products : List (ℤ × ℤ)}
    (hfits : operands.Fits products oc) :
    operands.requantize.apply (dot products) (operands.biasAt oc)
      = clampInt (signedMin operands.bits) (signedMax operands.bits)
          (roundHalfEven ((operands.total products oc : ℚ) / 2 ^ operands.shifts.output)) := by
  obtain ⟨hinput, hbias, houtput⟩ := areSmall_iff.mp h.shifts_small
  rw [dot_eq_sum hfits.products hfits.sums]
  have hinput' : operands.shifts.input.toNat ≤ 62 := by omega
  have hbias' : operands.shifts.bias.toNat ≤ 62 := by omega
  exact Requantize.apply_eq (r := operands.requantize) hinput' hbias' houtput h.bits_pos
    (h.bits_le.trans (by decide)) hfits.shiftedSum hfits.shiftedBias hfits.total

/-- An element is the convolution in real arithmetic, divided by the scale of the output, rounded and
clamped. -/
theorem element_eq (h : operands.WellFormed)
    (hfits : operands.Fits (operands.terms b oc oy ox) oc) :
    operands.requantize.apply (dot (operands.terms b oc oy ox)) (operands.biasAt oc)
      = clampInt (signedMin operands.bits) (signedMax operands.bits)
          (roundHalfEven (operands.realSum b oc oy ox / operands.outputParams.scale.toRat)) := by
  rw [apply_eq_total h hfits, realSum_div h]

end Operands

end DyadicNet.Eval
