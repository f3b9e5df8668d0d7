import Mathlib
import DyadicNet.Proofs.Binary64.Logarithm
import DyadicNet.Proofs.Quantize.Statistics

/-!
# The format covers the layer

The bits before the point are chosen by a logarithm of the largest magnitude, rounded up.  The
logarithm is a double, so it can be wrong by its own rounding.  As long as that does not change the
integer above it, the number of bits is the **least one whose range reaches the magnitude**, unless
there are not so many.

The range of a two's complement format is not symmetric: it reaches the magnitude on the negative
side, and ends one last bit before it on the positive side.  A number between this end and the
magnitude is kept at the end, and then the error is not half of a last bit but up to a whole one.

## Main Definitions

* `Close` — how far a code may be from its number;
* `Covers` — that the integers of a tensor are close to numbers.

## Main Statements

* `integerWidth_of_pos` — the bits before the point, by the logarithm;
* `isLeast_of_ceil` — the least number of bits that reaches a magnitude;
* `close_nearest` — the nearest codewords of a format are close to the numbers in its reach;
* `analyze_covers` — the format of a layer.
-/

namespace DyadicNet

namespace Binary64

variable {x : Binary64} {q : ℚ}

/-- The least integer that is not less, for a number that is not negative. -/
theorem Denotes.ceil {n : ℕ} (h : x.Denotes false q) (hq : q ≤ n) (hn : n ≤ twoPow 53) :
    x.ceil.Denotes false ⌈q⌉₊ := by
  obtain ⟨hfinite, hsign, rfl⟩ := h
  obtain ⟨negative, m, e, hc, rfl⟩ := exists_finite hfinite
  obtain rfl : negative = false := hsign
  have hnonneg : 0 ≤ (finite false m e hc).magnitude := (denotes_self hfinite).nonneg
  have hceil : (finite false m e hc).magnitude.ceil = (⌈(finite false m e hc).magnitude⌉₊ : ℤ) := by
    rw [Int.natCast_ceil_eq_ceil hnonneg]
    exact eq_of_forall_ge_iff fun k => Rat.ceil_le_iff.trans Int.ceil_le.symm
  have hvalue := denotes_ofMagnitude false
    (isMagnitude_natCast ((Nat.ceil_le.mpr hq).trans hn))
  show (ofMagnitude false ((finite false m e hc).magnitude.ceil : ℚ)).Denotes _ _
  rwa [hceil, Int.cast_natCast]

/-- The greater one of a number and zero. -/
theorem denotes_maxNum_zero (hx : x.isFinite = true) :
    (x.maxNum (zero false)).Denotes false (max 0 x.toRat) := by
  have hzero := denotes_zero false
  rw [maxNum_of_isFinite hx hzero.isFinite, hzero.toRat_pos]
  split_ifs with hpos
  · rw [max_eq_right hpos.le]
    exact denotes_of_pos hx hpos
  · rw [max_eq_left (not_lt.mp hpos)]
    exact hzero

/-- The lesser one of two natural numbers. -/
theorem denotes_minNum {y : Binary64} {m n : ℕ} (hx : x.Denotes false m) (hy : y.Denotes false n) :
    (x.minNum y).Denotes false (min m n : ℕ) := by
  rw [minNum_of_isFinite hx.isFinite hy.isFinite, hx.toRat_pos, hy.toRat_pos, Nat.cast_min]
  split_ifs with hlt
  · rwa [min_eq_left hlt.le]
  · rwa [min_eq_right (not_lt.mp hlt)]

end Binary64

/-- The bits before the point are those that were asked for. -/
theorem FixedPoint.Format.intBits_of_ofTotalBits? {totalBits intBits : ℕ}
    {format : FixedPoint.Format} (h : ofTotalBits? totalBits intBits = .ok format) :
    format.intBits = intBits := by
  unfold ofTotalBits? make? at h
  split_ifs at h
  obtain rfl := Except.ok.inj h
  rfl

namespace Quantize

open Binary64 FixedPoint

/-! ### The bits before the point -/

/-- The bits before the point are one more than the logarithm, rounded up and not below zero, unless
there are not so many. -/
theorem integerWidth_of_pos {value : Binary64} {maxBits : ℕ} (hfinite : value.isFinite = true)
    (hpos : 0 < value.toRat) (hone : 1 ≤ maxBits) (hle : maxBits ≤ 255) :
    integerWidth value maxBits = min (⌈max 0 value.log2.toRat⌉₊ + 1) maxBits := by
  obtain ⟨hlog, -, hhigh⟩ := logarithm_bounds hfinite hpos
  set width := ⌈max 0 value.log2.toRat⌉₊ with hwidth
  have hsmall : width ≤ 1024 := Nat.ceil_le.mpr (max_le (by norm_num) (by exact_mod_cast hhigh))
  have h53 : twoPow 53 = 9007199254740992 := by decide
  have hceil := (denotes_maxNum_zero hlog).ceil (n := 1024)
    (max_le (by norm_num) (by exact_mod_cast hhigh)) (by omega)
  have hsum := hceil.add (denotes_ofInt_natCast (n := 1) (by omega))
    (by exact_mod_cast isMagnitude_natCast (n := width + 1) (by omega))
  rw [← hwidth, ← Nat.cast_add] at hsum
  have hmin := denotes_minNum hsum (denotes_ofInt_natCast (n := maxBits) (by omega))
  have hless : (zero false).lt value = true := by
    rw [(denotes_zero false).lt_iff (denotes_self hfinite), (denotes_zero false).toRat_pos]
    exact hpos
  unfold integerWidth
  dsimp only
  rw [if_pos hless]
  have hint := hmin.toInt 0 255
  rw [if_neg Bool.false_ne_true, clampInt_eq_self (by omega) (by omega)] at hint
  have hnat : ((((value.log2.maxNum (zero false)).ceil + .ofInt 1).minNum
      (.ofInt maxBits)).toInt 0 255).toNat = min (width + 1) maxBits :=
    (congrArg Int.toNat hint).trans (Int.toNat_natCast _)
  rw [hnat]
  omega

theorem integerWidth_of_zero {value : Binary64} (hfinite : value.isFinite = true)
    (hzero : value.toRat ≤ 0) (maxBits : ℕ) : integerWidth value maxBits = 1 := by
  have hless : ¬(zero false).lt value = true := by
    rw [(denotes_zero false).lt_iff (denotes_self hfinite), (denotes_zero false).toRat_pos]
    exact not_lt.mpr hzero
  unfold integerWidth
  exact if_neg hless

/-- The numbers of bits before the point whose range reaches a magnitude. -/
def reaching (q : ℚ) : Set ℕ :=
  {bits | 1 ≤ bits ∧ q ≤ 2 ^ ((bits : ℤ) - 1)}

/-- A magnitude of zero is reached by the sign alone. -/
theorem isLeast_reaching_zero : IsLeast (reaching 0) 1 :=
  ⟨⟨le_rfl, (zpow_two_pos _).le⟩, fun _ hbits => hbits.1⟩

/-- **The least number of bits is one more than the logarithm**, rounded up and not below zero. -/
theorem isLeast_of_ceil {q : ℚ} (hpos : 0 < q) {width : ℕ}
    (hwidth : (width : ℤ) = max 0 ⌈Real.logb 2 q⌉) : IsLeast (reaching q) (width + 1) := by
  have hreal : (0 : ℝ) < q := by exact_mod_cast hpos
  -- a power reaches the magnitude exactly if its exponent is not below the logarithm
  have hreach : ∀ e : ℤ, q ≤ 2 ^ e ↔ ⌈Real.logb 2 q⌉ ≤ e := by
    intro e
    have hlog : ⌈Real.logb 2 q⌉ = Int.clog 2 (q : ℝ) := by
      exact_mod_cast Real.ceil_logb_natCast (b := 2) hreal.le
    rw [hlog, ← Int.le_zpow_iff_clog_le one_lt_two hreal, ← Rat.cast_le (K := ℝ), Rat.cast_zpow,
      Rat.cast_ofNat, Nat.cast_ofNat]
  constructor
  · refine ⟨by omega, (hreach _).mpr ?_⟩
    push_cast
    omega
  · rintro bits ⟨hone, hbits⟩
    have := (hreach _).mp hbits
    omega

/-! ### The error of a code -/

/-- A number inside a range of integers, or up to one beyond its end, is off by at most one half
when it is rounded and kept in the range; beyond the end it may be off by one. -/
theorem abs_sub_clampInt_le {lo hi : ℤ} {u : ℚ} (hlow : lo ≤ u) (hhigh : u ≤ hi + 1)
    (hlh : lo ≤ hi) :
    |u - clampInt lo hi (roundHalfEven u)| ≤ 1 ∧
      (u ≤ hi → |u - clampInt lo hi (roundHalfEven u)| ≤ 1 / 2) := by
  have hround : lo ≤ roundHalfEven u := le_roundHalfEven hlow
  have hinside : u ≤ hi → |u - clampInt lo hi (roundHalfEven u)| ≤ 1 / 2 := by
    intro hu
    rw [clampInt_eq_self hround (roundHalfEven_le hu)]
    exact (roundHalfEven_spec u).near
  refine ⟨?_, hinside⟩
  rcases le_or_gt u hi with hu | hu
  · exact (hinside hu).trans (by norm_num)
  · rw [clampInt_of_ge hlh (le_roundHalfEven hu.le), abs_le]
    constructor <;> linarith

/-- How far a code may be from its number: one last bit, and half of it if the number is not beyond
the largest value. -/
structure Close (format : Format) (value : Binary64) (code : ℤ) : Prop where
  near : |value.toRat - code * format.step| ≤ format.step
  nearer : value.toRat ≤ format.maxValue.toRat →
    |value.toRat - code * format.step| ≤ format.step / 2

/-- **Up to the magnitude of the sign bit the nearest codewords are close.** -/
theorem close_nearest {format : Format} {value : Binary64} (hsigned : format.signed = true)
    (hfinite : value.isFinite = true) (hreach : |value.toRat| ≤ 2 ^ ((format.intBits : ℤ) - 1)) :
    Close format value (format.nearest value) := by
  have hstep := format.step_pos
  set u : ℚ := value.toRat * 2 ^ (format.fracBits : ℤ) with hu
  have hvalue : value.toRat = u * format.step := by
    rw [hu, format.mul_units_eq, div_mul_cancel₀ _ hstep.ne']
  have hbound : (2 : ℚ) ^ ((format.intBits : ℤ) - 1) = (format.greatest + 1 : ℤ) * format.step := by
    have hint := format.sign_bit hsigned
    rw [format.greatest_of_signed hsigned, signedMax, sub_add_cancel, Int.cast_natCast, cast_twoPow,
      Format.step, ← zpow_two_add, Format.totalBits]
    congr 1
    omega
  have hends : -(format.greatest + 1) = format.least := by
    rw [format.greatest_of_signed hsigned, format.least_of_signed hsigned, signedMax, signedMin]
    ring
  obtain ⟨hlow, hhigh⟩ := abs_le.mp hreach
  rw [hbound, hvalue] at hhigh
  rw [hbound, hvalue, ← neg_mul, ← Int.cast_neg, hends] at hlow
  have herror := abs_sub_clampInt_le (le_of_mul_le_mul_right hlow hstep)
    (by exact_mod_cast le_of_mul_le_mul_right hhigh hstep) format.least_le_greatest
  rw [← format.nearest_of_isFinite hfinite] at herror
  have hdistance : |value.toRat - format.nearest value * format.step|
      = |u - format.nearest value| * format.step := by
    rw [hvalue, ← sub_mul, abs_mul, abs_of_pos hstep]
  constructor
  · rw [hdistance]
    exact mul_le_of_le_one_left hstep.le herror.1
  · intro hmax
    rw [format.toRat_maxValue, hvalue] at hmax
    rw [hdistance, div_eq_inv_mul, ← one_div]
    exact mul_le_mul_of_nonneg_right (herror.2 (le_of_mul_le_mul_right hmax hstep)) hstep.le

/-! ### Layers -/

/-- The integers of a tensor are as many as the numbers, and each is close to its number. -/
structure Covers (format : Format) (values : Array Binary64) (codes : Array ℤ) : Prop where
  size_eq : codes.size = values.size
  close : ∀ (i : ℕ) (value : Binary64) (code : ℤ),
    values[i]? = some value → codes[i]? = some code → Close format value code

theorem covers_map_nearest {format : Format} {values : Array Binary64}
    (h : ∀ value ∈ values, Close format value (format.nearest value)) :
    Covers format values (values.map format.nearest) := by
  refine ⟨Array.size_map, fun i value code hvalue hcode => ?_⟩
  rw [Array.getElem?_map, hvalue] at hcode
  obtain rfl := Option.some.inj hcode
  exact h value (Array.mem_of_getElem? hvalue)

section Layers

variable {totalBits : ℕ} {weights bias : Tensor} {ws bs : Array Binary64} {top : Binary64} {q : ℚ}

/-- The largest magnitude is the one that the analysis computes. -/
theorem eq_highest (hweights : FiniteReals weights ws) (hsome : ws.size ≠ 0)
    (hbias : FiniteReals bias bs) (htop : top.Denotes false q)
    (hgreatest : IsGreatest {p | ∃ v ∈ ws.toList ++ bs.toList, |v.toRat| = p} q) :
    highest (ws.toList ++ bs.toList) = top := by
  have hfinite := isFinite_of_mem_append hweights hbias
  have hnonempty : ws.toList ++ bs.toList ≠ [] := by
    intro hnil
    exact hsome (by simpa using congrArg List.length (List.append_eq_nil_iff.mp hnil).1)
  obtain ⟨p, hp, hmagnitude⟩ := denotes_highest hnonempty hfinite
  have hsame : {p | ∃ v ∈ ws.toList ++ bs.toList, v.magnitude = p}
      = {p | ∃ v ∈ ws.toList ++ bs.toList, |v.toRat| = p} :=
    Set.ext fun p => exists_congr fun v => and_congr_right fun hv => by
      rw [(denotes_self (hfinite v hv)).abs_toRat]
  rw [hsame] at hmagnitude
  obtain rfl := hmagnitude.unique hgreatest
  exact hp.unique htop

/-- **The format of a layer covers it**, for all finite weights, of which there are some, all finite
biases and every width.  Let `top` be the largest magnitude of the weights and biases, and unless it
is zero, let its logarithm as a double have the same integer above it as the exact one.  Then the
layer exists, and the bits before the point are the least number that reaches the magnitude, or all
bits if there are not so many.  Whenever they reach the magnitude, the code of every number is off
by at most one last bit, and by at most half of it unless the number is beyond the largest
value. -/
theorem analyze_covers (node : String) (hpos : 1 ≤ totalBits) (hle : totalBits ≤ 32)
    (hweights : FiniteReals weights ws) (hsome : ws.size ≠ 0) (hbias : FiniteReals bias bs)
    (htop : top.Denotes false q)
    (hgreatest : IsGreatest {p | ∃ v ∈ ws.toList ++ bs.toList, |v.toRat| = p} q)
    (hlog : 0 < q → ⌈top.log2.toRat⌉ = ⌈Real.logb 2 q⌉) :
    ∃ layer, analyze node weights bias totalBits = .ok layer ∧
      layer.format.signed = true ∧ layer.format.totalBits = totalBits ∧
      (∃ bits, IsLeast (reaching q) bits ∧ layer.format.intBits = min bits totalBits) ∧
      (q ≤ 2 ^ ((layer.format.intBits : ℤ) - 1) →
        (∃ codes, layer.weights.ints? = some codes ∧ Covers layer.format ws codes) ∧
        ∃ codes, layer.bias.ints? = some codes ∧ Covers layer.format bs codes) := by
  obtain ⟨layer, hlayer⟩ := exists_analyze node hpos hle hweights.isFiniteReal hbias.isFiniteReal
    (hweights.size_ne_zero hsome)
  obtain ⟨hsigned, hwidth⟩ := format_of_analyze hlayer
  obtain ⟨hwencoded, hbencoded, -⟩ := encoded_of_analyze hlayer
  refine ⟨layer, hlayer, hsigned, hwidth, ?_, fun hreach => ?_⟩
  · have hformat := (format_stats_of_analyze hweights.elements hbias.elements hlayer).1
    rw [eq_highest hweights hsome hbias htop hgreatest] at hformat
    rw [Format.intBits_of_ofTotalBits? hformat]
    rcases htop.nonneg.eq_or_lt with rfl | hq
    · refine ⟨1, isLeast_reaching_zero, ?_⟩
      rw [integerWidth_of_zero htop.isFinite htop.toRat_pos.le]
      omega
    · have hpositive : 0 < top.toRat := htop.toRat_pos.symm ▸ hq
      refine ⟨_, isLeast_of_ceil hq ?_,
        integerWidth_of_pos htop.isFinite hpositive hpos (by omega)⟩
      rw [← hlog hq, Int.natCast_ceil_eq_ceil (le_max_left _ _), Int.ceil_mono.map_max,
        Int.ceil_zero]
  · have hclose : ∀ v ∈ ws.toList ++ bs.toList, Close layer.format v (layer.format.nearest v) :=
      fun v hv => close_nearest hsigned (isFinite_of_mem_append hweights hbias v hv)
        ((hgreatest.2 ⟨v, hv, rfl⟩).trans hreach)
    constructor
    · exact ⟨_, Tensor.ints?_eq_some_iff.mpr ⟨_, hwencoded.elements_eq hweights⟩,
        covers_map_nearest fun v hv => hclose v (by simp [hv])⟩
    · exact ⟨_, Tensor.ints?_eq_some_iff.mpr ⟨_, hbencoded.elements_eq hbias⟩,
        covers_map_nearest fun v hv => hclose v (by simp [hv])⟩

end Layers

/-! ### One layer -/

/-- Four weights, of which the largest two have the magnitude of a power of two. -/
def fours : Tensor :=
  ⟨[4], .reals #[ofRat (-4), ofRat 4, ofRat 2, ofRat (-2)], by decide, rfl⟩

/-- Three bits before the point reach four, on the negative side.  On the positive side the range
ends one last bit before it, and this is the error. -/
theorem analyze_covers_fours :
    FiniteReals fours fours.toReals ∧ fours.toReals.size ≠ 0 ∧
      FiniteReals tenth tenth.toReals ∧ (ofRat 4).Denotes false 4 ∧
      IsGreatest {p | ∃ v ∈ fours.toReals.toList ++ tenth.toReals.toList, |v.toRat| = p} 4 ∧
      ⌈(ofRat 4).log2.toRat⌉ = ⌈Real.logb 2 (4 : ℚ)⌉ ∧
      ∃ layer, analyze "conv" fours tenth 8 = .ok layer ∧ layer.format.intBits = 3 ∧
        ∃ codes, layer.weights.ints? = some codes ∧ Covers layer.format fours.toReals codes ∧
          codes = #[-128, 127, 64, -64] := by
  have hweights : FiniteReals fours fours.toReals := ⟨rfl, by decide +kernel⟩
  have hbias : FiniteReals tenth tenth.toReals := ⟨rfl, by decide +kernel⟩
  have hsome : fours.toReals.size ≠ 0 := by decide
  have htop : (ofRat 4).Denotes false 4 := ⟨by decide +kernel, by decide +kernel, by decide +kernel⟩
  have hgreatest :
      IsGreatest {p | ∃ v ∈ fours.toReals.toList ++ tenth.toReals.toList, |v.toRat| = p} 4 := by
    have hle : ∀ v ∈ fours.toReals.toList ++ tenth.toReals.toList, |v.toRat| ≤ 4 := by
      decide +kernel
    refine ⟨⟨ofRat 4, by decide +kernel, by decide +kernel⟩, ?_⟩
    rintro _ ⟨v, hv, rfl⟩
    exact hle v hv
  have hlog : ⌈(ofRat 4).log2.toRat⌉ = ⌈Real.logb 2 (4 : ℚ)⌉ := by
    have hcomputed : (ofRat 4).log2.toRat = 2 := by decide +kernel
    have hexact : Real.logb 2 ((4 : ℚ) : ℝ) = 2 := by
      rw [show ((4 : ℚ) : ℝ) = 2 ^ 2 by norm_num, Real.logb_pow, Real.logb_self_eq_one one_lt_two]
      norm_num
    rw [hcomputed, hexact, Int.ceil_ofNat, Int.ceil_ofNat]
  obtain ⟨layer, hlayer, -, -, -, hcovers⟩ :=
    analyze_covers "conv" (show 1 ≤ 8 by decide) (by decide) hweights hsome hbias htop hgreatest
      fun _ => hlog
  have hrun : (analyze "conv" fours tenth 8).map (fun layer =>
      (layer.format.intBits, layer.weights.ints?)) = .ok (3, some #[-128, 127, 64, -64]) := by
    decide +kernel
  rw [hlayer] at hrun
  obtain ⟨hbits, hcodes⟩ := Prod.mk.inj (Except.ok.inj hrun)
  obtain ⟨⟨codes, hints, hcover⟩, -⟩ := hcovers (by rw [hbits]; norm_num)
  exact ⟨hweights, hsome, hbias, htop, hgreatest, hlog, layer, hlayer, hbits, codes, hints, hcover,
    Option.some.inj (hints.symm.trans hcodes)⟩

end Quantize

end DyadicNet
