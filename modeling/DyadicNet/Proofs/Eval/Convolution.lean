import Mathlib
import DyadicNet.Eval.Convolution
import DyadicNet.Proofs.Eval.Nchw
import DyadicNet.Proofs.Except
import DyadicNet.Proofs.Rounding

/-!
# The loops of a quantized convolution

A quantized convolution is a loop over flat arrays that saturates at every step and shifts three
times.  Two facts take the saturation out of it: a sum of which **no partial sum leaves 64 bits** is
the sum of the integers, and three shifts with one clamp at the end are **one rounded division**.

## Main Definitions

* `exactDot` — the sum of products as an integer without bounds.

## Main Statements

* `dot_eq_sum` — a sum that never saturates is a sum;
* `sum_taps` — the loops are a sum over channels, rows and columns;
* `Requantize.apply_eq` — the three shifts together;
* `convolved?_eq_ok_iff` — when a convolution has extents, and which.
-/

namespace DyadicNet.Eval

/-! ### Sums that do not saturate -/

/-- The sum of products as an integer without bounds. -/
def exactDot (products : List (ℤ × ℤ)) : ℤ :=
  (products.map fun (x, w) => x * w).sum

theorem exactDot_append (ps : List (ℤ × ℤ)) (p : ℤ × ℤ) :
    exactDot (ps ++ [p]) = exactDot ps + p.1 * p.2 := by
  simp [exactDot]

/-- If no product and no partial sum leaves 64 bits, the saturating sum is the sum. -/
theorem dot_eq_sum {products : List (ℤ × ℤ)} (hproducts : ∀ p ∈ products, Fits64 (p.1 * p.2))
    (hsums : ∀ initial, initial <+: products → Fits64 (exactDot initial)) :
    dot products = exactDot products := by
  induction products using List.reverseRecOn with
  | nil => rfl
  | append_singleton ps p ih =>
    have hrest : dot ps = exactDot ps := by
      apply ih
      · intro q hq
        exact hproducts q (List.mem_append_left _ hq)
      · intro initial hinitial
        exact hsums initial (hinitial.trans (List.prefix_append ps [p]))
    have hproduct := hproducts p (List.mem_append_right _ (List.mem_singleton_self p))
    have hsum := hsums (ps ++ [p]) List.prefix_rfl
    rw [exactDot_append] at hsum ⊢
    calc dot (ps ++ [p]) = saturate64 (dot ps + saturate64 (p.1 * p.2)) := by
          unfold dot
          rw [List.foldl_append]
          rfl
      _ = exactDot ps + p.1 * p.2 := by
          rw [hrest, hproduct.saturate64_eq, hsum.saturate64_eq]

theorem mem_taps {channels height width c ky kx : ℕ} :
    (c, ky, kx) ∈ taps channels height width ↔ c < channels ∧ ky < height ∧ kx < width := by
  simp [taps]

/-- The loops over channel, row and column are a sum over the three. -/
theorem sum_taps (channels height width : ℕ) (f : ℕ → ℕ → ℕ → ℚ) :
    ((taps channels height width).map fun (c, ky, kx) => f c ky kx).sum
      = ∑ c ∈ Finset.range channels, ∑ ky ∈ Finset.range height, ∑ kx ∈ Finset.range width,
          f c ky kx := by
  have hloop : ∀ (n : ℕ) (g : ℕ → List (ℕ × ℕ × ℕ)) (F : ℕ × ℕ × ℕ → ℚ),
      (((List.range n).flatMap g).map F).sum = ∑ i ∈ Finset.range n, ((g i).map F).sum := by
    intro n g F
    rw [List.map_flatMap, List.flatMap_def, List.sum_flatten, List.map_map]
    rfl
  unfold taps
  rw [hloop]
  refine Finset.sum_congr rfl fun c _ => ?_
  rw [hloop]
  refine Finset.sum_congr rfl fun ky _ => ?_
  rw [List.map_map]
  rfl

/-! ### The shifts -/

theorem shiftLeft_eq {value : ℤ} {shift : ℕ} (hshift : shift ≤ 62)
    (h : Fits64 (value * twoPow shift)) : shiftLeft value shift = value * twoPow shift := by
  rw [shiftLeft, Nat.min_eq_left (by omega)]
  exact shiftHalfEven_neg h

theorem signedMin_le_signedMin {m n : ℕ} (h : m ≤ n) : signedMin n ≤ signedMin m := by
  have := twoPow_le_twoPow (Nat.sub_le_sub_right h 1)
  unfold signedMin
  omega

theorem signedMax_le_signedMax {m n : ℕ} (h : m ≤ n) : signedMax m ≤ signedMax n := by
  have := twoPow_le_twoPow (Nat.sub_le_sub_right h 1)
  unfold signedMax
  omega

theorem signedMin_le_signedMax (bits : ℕ) : signedMin bits ≤ signedMax bits := by
  have := twoPow_pos (bits - 1)
  unfold signedMin signedMax
  omega

theorem saturate_eq {bits : ℕ} (hpos : 1 ≤ bits) (hle : bits ≤ 63) (value : ℤ) :
    saturate value bits = clampInt (signedMin bits) (signedMax bits) value := by
  unfold saturate
  dsimp only
  rw [Nat.min_eq_left hle, Nat.max_eq_right hpos]

/-- Whatever is shifted and summed, the output has its width. -/
theorem Requantize.apply_mem {r : Requantize} (hpos : 1 ≤ r.bits) (hbits : r.bits ≤ 63)
    (sum bias : ℤ) :
    signedMin r.bits ≤ r.apply sum bias ∧ r.apply sum bias ≤ signedMax r.bits := by
  unfold Requantize.apply
  dsimp only
  rw [saturate_eq hpos hbits]
  exact ⟨le_clampInt _ _ _, clampInt_le (signedMin_le_signedMax _) _⟩

/-- Two shifts to the left, a sum and a shift in either direction are one rounded division, clamped to
the width of the output. -/
theorem Requantize.apply_eq {r : Requantize} {sum bias : ℤ} (hinput : r.inputShift ≤ 62)
    (hbias : r.biasShift ≤ 62) (houtput : r.outputShift.natAbs ≤ 62) (hpos : 1 ≤ r.bits)
    (hbits : r.bits ≤ 63) (hfitsSum : Fits64 (sum * twoPow r.inputShift))
    (hfitsBias : Fits64 (bias * twoPow r.biasShift))
    (hfits : Fits64 (sum * twoPow r.inputShift + bias * twoPow r.biasShift)) :
    r.apply sum bias = clampInt (signedMin r.bits) (signedMax r.bits)
      (roundHalfEven ((sum * twoPow r.inputShift + bias * twoPow r.biasShift : ℤ)
        / 2 ^ r.outputShift)) := by
  unfold Requantize.apply
  dsimp only
  rw [shiftLeft_eq hinput hfitsSum, shiftLeft_eq hbias hfitsBias, hfits.saturate64_eq,
    saturate_eq hpos hbits,
    clampInt_shiftHalfEven (signedMin_le_signedMax _) (signedMin_le_signedMin (by omega))
      (signedMax_le_signedMax (by omega)) _ houtput]

/-! ### The loop over the positions -/

/-- A window fits an axis if it has an extent that the axis is large enough for. -/
theorem windowCount?_eq_ok_iff {size extent step n : ℕ} :
    windowCount? size extent step = .ok n
      ↔ (0 < extent ∧ extent ≤ size ∧ 0 < step) ∧ n = (size - extent) / step + 1 := by
  unfold windowCount?
  split_ifs with h
  · constructor
    · intro herror
      cases herror
    · rintro ⟨hfits, -⟩
      omega
  · rw [Except.ok.injEq]
    constructor
    · rintro rfl
      exact ⟨by omega, rfl⟩
    · rintro ⟨-, rfl⟩
      rfl

/-- The places that a window reads lie on the axis. -/
theorem place_lt {size extent step i k : ℕ} (hfits : extent ≤ size)
    (hi : i < (size - extent) / step + 1) (hk : k < extent) : i * step + k < size := by
  have hle : i * step ≤ size - extent :=
    (Nat.mul_le_mul_right step (Nat.le_of_lt_succ hi)).trans (Nat.div_mul_le_self _ _)
  omega

/-- A convolution has extents exactly if the channels and the bias belong to the weights and the window
fits. -/
theorem convolved?_eq_ok_iff {s ws out : Nchw} {biasSize : ℕ} {stride : Node.Extents} :
    convolved? s ws biasSize stride = .ok out ↔
      (ws.channels = s.channels ∧ biasSize = ws.batch ∧
        (0 < ws.height ∧ ws.height ≤ s.height ∧ 0 < stride.height) ∧
        (0 < ws.width ∧ ws.width ≤ s.width ∧ 0 < stride.width)) ∧
      out = ⟨s.batch, ws.batch, (s.height - ws.height) / stride.height + 1,
        (s.width - ws.width) / stride.width + 1⟩ := by
  unfold convolved?
  simp only [check_eq_ok_iff, bind_eq_ok_iff, windowCount?_eq_ok_iff, not_not, Except.ok.injEq]
  constructor
  · rintro ⟨hchannels, hbias, height, ⟨hheight, rfl⟩, width, ⟨hwidth, rfl⟩, rfl⟩
    exact ⟨⟨hchannels, hbias, hheight, hwidth⟩, rfl⟩
  · rintro ⟨⟨hchannels, hbias, hheight, hwidth⟩, rfl⟩
    exact ⟨hchannels, hbias, _, ⟨hheight, rfl⟩, _, ⟨hwidth, rfl⟩, rfl⟩

end DyadicNet.Eval
