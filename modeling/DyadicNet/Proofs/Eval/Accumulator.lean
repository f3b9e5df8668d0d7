import Mathlib
import DyadicNet.Proofs.Eval.QuantizedNode

/-!
# The width of the accumulator

A quantized convolution adds up its products in 64 bits, and each of its operations saturates.
Whether one of them ever does is a matter of counting bits: a product of data of `a` bits and weights
of `b` bits has `a + b - 2` bits and a sign, a sum of as many products as a window has places adds
the bits of that number, and the shift to the common scale adds up to `b` more.  **If all of these
fit, nothing saturates before the clamp to the width of the output**, in whatever order the products
are added.

The bounds are kept clear of: no value that occurs is the least or the greatest integer of 64 bits,
so that even a machine that takes note of saturation has nothing to note.

## Main Definitions

* `Clear64` — that an integer lies strictly between the bounds;
* `Operands.Clear` — that all values of an element do;
* `Operands.Bounded` — the widths of data, weights and bias;
* `Operands.tapCount` — the number of places of a window;
* `Operands.Exact` — a result that no saturation has touched.

## Main Statements

* `natAbs_exactDot_le` — the bound of a sum;
* `Operands.Bounded.clear` — the bits that are enough;
* `Operands.exact_of_clear` — the result of a convolution that stays clear of the bounds;
* `Interpreter.natAbs_le_of_quantize` — the width of quantized data.
-/

namespace DyadicNet.Eval

/-! ### Sums of products -/

/-- The sum of as many products as there are is at most that many times their bound. -/
theorem natAbs_exactDot_le {products : List (ℤ × ℤ)} {bound : ℕ}
    (h : ∀ p ∈ products, (p.1 * p.2).natAbs ≤ bound) :
    (exactDot products).natAbs ≤ products.length * bound := by
  induction products with
  | nil => exact Nat.zero_le _
  | cons p rest ih =>
    have hhead := h p List.mem_cons_self
    have htail := ih fun q hq => h q (List.mem_cons_of_mem _ hq)
    have hsum : exactDot (p :: rest) = p.1 * p.2 + exactDot rest := rfl
    calc (exactDot (p :: rest)).natAbs ≤ (p.1 * p.2).natAbs + (exactDot rest).natAbs :=
          hsum ▸ Int.natAbs_add_le _ _
      _ ≤ bound + rest.length * bound := Nat.add_le_add hhead htail
      _ = (p :: rest).length * bound := by rw [List.length_cons, Nat.succ_mul, Nat.add_comm]

theorem length_taps (channels height width : ℕ) :
    (taps channels height width).length = channels * height * width := by
  simp [taps, Nat.mul_assoc]

/-! ### Clear of the bounds -/

/-- An integer that lies strictly between the bounds of 64 bits. -/
def Clear64 (v : ℤ) : Prop :=
  signedMin 64 < v ∧ v < signedMax 64

theorem Clear64.fits {v : ℤ} (h : Clear64 v) : Fits64 v :=
  ⟨h.1.le, h.2.le⟩

theorem clear64_of_natAbs_lt {v : ℤ} (h : v.natAbs < twoPow 63 - 1) : Clear64 v := by
  have h63 : twoPow 63 = 9223372036854775808 := by decide
  have hmin : signedMin 64 = -9223372036854775808 := by decide
  have hmax : signedMax 64 = 9223372036854775807 := by decide
  constructor <;> omega

/-- An integer of a width is no larger than the power that goes with it. -/
theorem natAbs_le_of_mem {v : ℤ} {m n : ℕ} (hwidth : m ≤ n) (hlow : signedMin m ≤ v)
    (hhigh : v ≤ signedMax m) : v.natAbs ≤ twoPow (n - 1) := by
  have hpow := twoPow_le_twoPow (Nat.sub_le_sub_right hwidth 1)
  unfold signedMin at hlow
  unfold signedMax at hhigh
  omega

/-- A division that rounds does not make an integer larger. -/
theorem natAbs_roundHalfEven_div_le (v : ℤ) {shift : ℤ} (h : 0 ≤ shift) :
    (roundHalfEven ((v : ℚ) / 2 ^ shift)).natAbs ≤ v.natAbs := by
  have hpow : (1 : ℚ) ≤ 2 ^ shift := one_le_zpow₀ one_le_two h
  have hvalue : |(v : ℚ) / 2 ^ shift| ≤ (v.natAbs : ℤ) := by
    rw [abs_div, abs_of_pos (zpow_two_pos shift), Int.cast_natCast, ← abs_cast_eq]
    exact div_le_self (abs_nonneg _) hpow
  obtain ⟨hlow, hhigh⟩ := abs_le.mp hvalue
  have hle := roundHalfEven_le hhigh
  have hge : -(v.natAbs : ℤ) ≤ roundHalfEven ((v : ℚ) / 2 ^ shift) :=
    le_roundHalfEven (by push_cast at hlow ⊢; exact hlow)
  omega

namespace Operands

variable (operands : Operands) {products : List (ℤ × ℤ)} {b oc oy ox : ℕ}

/-- The number of places of a window, over all input channels. -/
def tapCount : ℕ :=
  operands.weightShape.channels * operands.weightShape.height * operands.weightShape.width

/-- **No value of an element comes to a bound of 64 bits**: no product, no sum of the first products,
no shifted sum and no shifted bias, not the total, and not what the last shift leaves of it. -/
structure Clear (ps : List (ℤ × ℤ)) (oc : ℕ) : Prop where
  products : ∀ p ∈ ps, Clear64 (p.1 * p.2)
  sums : ∀ initial, initial <+: ps → Clear64 (exactDot initial)
  shiftedSum : Clear64 (exactDot ps * twoPow operands.shifts.input.toNat)
  shiftedBias : Clear64 (operands.biasAt oc * twoPow operands.shifts.bias.toNat)
  total : Clear64 (operands.total ps oc)
  shiftedTotal : Clear64
    (roundHalfEven ((operands.total ps oc : ℚ) / 2 ^ operands.shifts.output))

/-- Data has `dataBits` bits, and weights and bias have `weightBits` bits; the sum is shifted by no
more bits than weights have, the bias not at all, and the total to the right. -/
structure Bounded (dataBits weightBits : ℕ) : Prop where
  data : ∀ v ∈ operands.data, v.natAbs ≤ twoPow (dataBits - 1)
  weights : ∀ v ∈ operands.weights, v.natAbs ≤ twoPow (weightBits - 1)
  bias : ∀ v ∈ operands.bias, v.natAbs ≤ twoPow (weightBits - 1)
  inputShift_le : operands.shifts.input.toNat ≤ weightBits
  biasShift_eq : operands.shifts.bias.toNat = 0
  outputShift_nonneg : 0 ≤ operands.shifts.output

variable {operands} {dataBits weightBits : ℕ}

theorem Clear.fits (h : operands.Clear products oc) : operands.Fits products oc :=
  { products := fun p hp => (h.products p hp).fits
    sums := fun initial hinitial => (h.sums initial hinitial).fits
    shiftedSum := h.shiftedSum.fits
    shiftedBias := h.shiftedBias.fits
    total := h.total.fits }

/-- A window has the same number of places wherever it is. -/
theorem length_of_reads? (hwell : operands.WellFormed)
    (hchannels : operands.weightShape.channels = operands.dataShape.channels)
    (h : operands.reads? b oc oy ox = .ok products) : products.length = operands.tapCount := by
  obtain ⟨hshape, -, -⟩ := Kernel.pad?_eq_ok_iff.mp hwell.padded
  rw [length_of_mapM h, length_taps, tapCount, hchannels, hshape]
  rfl

namespace Bounded

variable (h : operands.Bounded dataBits weightBits)
include h

/-- A product has the bits of its factors: what is read is an integer of the data, or zero, and one of
the weights. -/
theorem natAbs_product_le (hwell : operands.WellFormed)
    (hreads : operands.reads? b oc oy ox = .ok products) :
    ∀ p ∈ products, (p.1 * p.2).natAbs ≤ twoPow (dataBits - 1) * twoPow (weightBits - 1) := by
  intro p hp
  obtain ⟨hdata, hweight⟩ := Kernel.mem_of_window? hreads p hp
  rw [Int.natAbs_mul]
  refine Nat.mul_le_mul ?_ (h.weights _ hweight)
  rcases Kernel.mem_of_pad? hwell.padded _ hdata with hzero | hmem
  · rw [hzero]
    exact Nat.zero_le _
  · exact h.data _ hmem

theorem natAbs_bias_le : (operands.biasAt oc).natAbs ≤ twoPow (weightBits - 1) := by
  unfold biasAt
  rw [Array.getD_eq_getD_getElem?]
  cases hget : operands.bias[oc]? with
  | none => exact Nat.zero_le _
  | some v => exact h.bias v (Array.mem_of_getElem? hget)

/-- **The bits that are enough.**  If the number of places of a window, times the range of data and
twice that of weights, is at most `2 ^ 64`, no value comes to a bound. -/
theorem clear (hwell : operands.WellFormed)
    (hchannels : operands.weightShape.channels = operands.dataShape.channels)
    (hdata : 1 ≤ dataBits) (hweights : 1 ≤ weightBits) (hwidth : weightBits ≤ 32)
    (htaps : operands.tapCount * twoPow (dataBits + 2 * weightBits) ≤ twoPow 64)
    (hreads : operands.reads? b oc oy ox = .ok products) : operands.Clear products oc := by
  set product := twoPow (dataBits - 1) * twoPow (weightBits - 1) with hproduct
  have hproducts := h.natAbs_product_le hwell hreads
  have hcount : products.length = operands.tapCount := length_of_reads? hwell hchannels hreads
  -- two bits of the bound are the signs of data and weights
  have hrange : twoPow (dataBits + 2 * weightBits) = 4 * (product * twoPow weightBits) := by
    rw [show dataBits + 2 * weightBits = 2 + (dataBits - 1 + (weightBits - 1) + weightBits) by omega,
      twoPow_add, twoPow_add, twoPow_add]
    rfl
  have hshifted : products.length * product * twoPow weightBits ≤ twoPow 62 := by
    have h64 : twoPow 64 = 4 * twoPow 62 := by decide
    rw [← hcount, hrange, h64] at htaps
    have hsame : products.length * (4 * (product * twoPow weightBits))
        = 4 * (products.length * product * twoPow weightBits) := by ring
    omega
  have hsum : products.length * product ≤ twoPow 62 :=
    (Nat.le_mul_of_pos_right _ (twoPow_pos weightBits)).trans hshifted
  have hbias : (operands.biasAt oc).natAbs ≤ twoPow 31 :=
    h.natAbs_bias_le.trans (twoPow_le_twoPow (by omega))
  have h31 : twoPow 31 = 2147483648 := by decide
  have h62 : twoPow 62 = 4611686018427387904 := by decide
  have h63 : twoPow 63 = 9223372036854775808 := by decide
  have hshiftedSum : (exactDot products * twoPow operands.shifts.input.toNat).natAbs
      ≤ twoPow 62 := by
    rw [Int.natAbs_mul, Int.natAbs_natCast]
    exact (Nat.mul_le_mul (natAbs_exactDot_le hproducts) (twoPow_le_twoPow h.inputShift_le)).trans
      hshifted
  have hshiftedBias : (operands.biasAt oc * twoPow operands.shifts.bias.toNat).natAbs
      ≤ twoPow 31 := by
    rw [h.biasShift_eq]
    simpa [twoPow] using hbias
  have htotal : (operands.total products oc).natAbs ≤ twoPow 62 + twoPow 31 :=
    (Int.natAbs_add_le _ _).trans (Nat.add_le_add hshiftedSum hshiftedBias)
  have hrounded := natAbs_roundHalfEven_div_le (operands.total products oc) h.outputShift_nonneg
  refine
    { products := fun p hp => clear64_of_natAbs_lt ?_
      sums := fun initial hinitial => clear64_of_natAbs_lt ?_
      shiftedSum := clear64_of_natAbs_lt (by omega)
      shiftedBias := clear64_of_natAbs_lt (by omega)
      total := clear64_of_natAbs_lt (by omega)
      shiftedTotal := clear64_of_natAbs_lt (by omega) }
  · have hone := (hproducts p hp).trans
      (Nat.le_mul_of_pos_left product (List.length_pos_of_mem hp))
    omega
  · have hpartial : (exactDot initial).natAbs ≤ initial.length * product :=
      natAbs_exactDot_le fun q hq => hproducts q (hinitial.subset hq)
    have hshorter := Nat.mul_le_mul_right product hinitial.length_le
    omega

end Bounded

/-! ### Results -/

/-- A sum over some first places of a window does not saturate either. -/
theorem Clear.dot_eq (h : operands.Clear products oc) {initial : List (ℤ × ℤ)}
    (hinitial : initial <+: products) : dot initial = exactDot initial :=
  dot_eq_sum (fun _ hp => (h.products _ (hinitial.subset hp)).fits)
    fun _ hshorter => (h.sums _ (hshorter.trans hinitial)).fits

/-- **An element that no saturation has touched** before the clamp to the width of the output: the loop
has the exact sum at every place on its way, and the element is the total of its products and its
bias, divided by the last shift, rounded and clamped. -/
structure ExactElement (operands : Operands) (products : List (ℤ × ℤ)) (oc : ℕ) (v : ℤ) : Prop where
  clear : operands.Clear products oc
  sums : ∀ initial, initial <+: products → dot initial = exactDot initial
  value : v = clampInt (signedMin operands.bits) (signedMax operands.bits)
    (roundHalfEven ((operands.total products oc : ℚ) / 2 ^ operands.shifts.output))

/-- **A result that no saturation has touched**: every element is exact for what the loops read for
its position.  For data that fits into a buffer with its padding, that is the data and the weights
under the window. -/
def Exact (operands : Operands) (y : Tensor) : Prop :=
  ∃ out values, y.shape = out.toShape ∧ y.elements = .ints operands.type values ∧
    (∀ b oc oy ox, out.Inside b oc oy ox → ∃ products v,
      operands.reads? b oc oy ox = .ok products ∧ values[out.index b oc oy ox]? = some v ∧
        operands.ExactElement products oc v) ∧
    (operands.Addressable → out = operands.outputShape ∧ ∀ b oc oy ox, out.Inside b oc oy ox →
      operands.reads? b oc oy ox = .ok (operands.terms b oc oy ox))

/-- **What stays clear of the bounds is exact.** -/
theorem exact_of_clear {y : Tensor} (hwell : operands.WellFormed)
    (hresult : operands.result = .ok y)
    (hclear : ∀ b oc oy ox products, operands.reads? b oc oy ox = .ok products →
      operands.Clear products oc) : operands.Exact y := by
  obtain ⟨out, values, hout, -, hshape, helements, hinside, -⟩ := of_result hresult
  refine ⟨out, values, hshape, helements, fun b oc oy ox hin => ?_, fun haddressable => ?_⟩
  · obtain ⟨products, hreads, hvalue⟩ := hinside b oc oy ox hin
    have hclear := hclear b oc oy ox products hreads
    exact ⟨products, _, hreads, hvalue, hclear, fun _ => hclear.dot_eq,
      apply_eq_total hwell hclear.fits⟩
  · have hconv := convolvable_of_result hwell hresult
    obtain rfl := Except.ok.inj (hout.symm.trans (convolved?_eq hwell haddressable hconv))
    exact ⟨rfl, fun b oc oy ox hin => reads?_eq_terms hwell haddressable hconv hin⟩

end Operands

/-! ### Quantized data -/

/-- **Quantized data has the width of an activation.** -/
theorem Interpreter.natAbs_le_of_quantize {I : Interpreter} {node : Node} {x y : Tensor}
    {values : Array ℤ} (hconfig : I.config.Valid) (h : I.quantize node x = .ok y)
    (hvalues : y.ints? = some values) :
    ∀ v ∈ values, v.natAbs ≤ twoPow (I.config.activationBits - 1) := by
  unfold Interpreter.quantize at h
  simp only [bind_eq_ok_iff, Prod.exists] at h
  obtain ⟨params, -, type, bits, htype, h⟩ := h
  obtain rfl := quantizedType_bits htype
  have hpos : 1 ≤ min I.config.activationBits type.bits :=
    le_min hconfig.activationBits_pos type.one_le_bits
  unfold quantizeTensor intTensor at h
  simp only [bind_eq_ok_iff, mapError_eq_ok_iff, Tensor.ofInts?_eq_ok_iff] at h
  obtain ⟨codes, hcodes, -, -, helements⟩ := h
  obtain ⟨type', hints⟩ := Tensor.ints?_eq_some_iff.mp hvalues
  obtain ⟨-, rfl⟩ := Elements.ints.inj (helements.symm.trans hints)
  intro v hv
  obtain ⟨value, -, hvalue⟩ := exists_mem_of_mapM hcodes v (List.mem_toArray.mp hv)
  unfold quantizeValue at hvalue
  split_ifs at hvalue
  obtain rfl := Except.ok.inj hvalue
  have hwidth : min I.config.activationBits type.bits ≤ 63 :=
    (Nat.min_le_left _ _).trans (hconfig.activationBits_le.trans (by decide))
  rw [saturate_eq hpos hwidth]
  exact natAbs_le_of_mem (Nat.min_le_left _ _) (le_clampInt _ _ _)
    (clampInt_le (signedMin_le_signedMax _) _)

end DyadicNet.Eval
