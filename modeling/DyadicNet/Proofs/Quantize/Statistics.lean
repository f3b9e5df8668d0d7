import Mathlib
import DyadicNet.Proofs.FixedPoint.RoundTrip
import DyadicNet.Proofs.Quantize.Extremes

/-!
# The statistics of a layer

An analysis gives the codes of all numbers and some statistics of the codes of the weights: how many
are zero or a power of two, and the mean magnitude, from which the scales of later layers follow.
The statistics are taken from the rounded weights as doubles.  Each of these is a code times a power
of two, so what is counted are the codes.

The mean is a sum of doubles from left to right, divided by their number.  **As long as the
magnitudes of the codes add up to at most `2 ^ 53`, no partial sum is rounded**, for it counts a
short number of last bits.  Then only the division rounds, and the order of the weights makes no
difference.

## Main Definitions

* `Counts` — statistics that count codes;
* `FiniteReals` — a tensor and the finite numbers that it holds.

## Main Statements

* `isPowerOfTwo_rounded` — which rounded weights are powers of two;
* `denotes_foldl_add` — partial sums are exact;
* `mean_rounded` — the mean is rounded once;
* `analyze_exact` — the analysis of a layer.
-/

namespace DyadicNet

namespace Binary64

variable {x : Binary64}

theorem isPowerOfTwo_iff :
    x.isPowerOfTwo = true ↔ x.isFinite = true ∧ ∃ e : ℤ, x.magnitude = 2 ^ e := by
  unfold isPowerOfTwo
  rw [Option.isSome_iff_exists]
  simp only [exactLog2_eq_some_iff, exists_and_left]

theorem ofRat_of_nonneg {q : ℚ} (h : 0 ≤ q) : ofRat q = ofMagnitude false q :=
  if_neg (not_lt.mpr h)

end Binary64

namespace Quantize

open Binary64 FixedPoint

/-! ### Counting -/

/-- A natural number that is a power of two with any exponent has one that is not negative. -/
theorem exists_eq_zpow_iff {n : ℕ} : (∃ e : ℤ, (n : ℚ) = 2 ^ e) ↔ n.isPowerOfTwo := by
  constructor
  · rintro ⟨e, he⟩
    have hone : (1 : ℚ) ≤ n := by
      have hne : n ≠ 0 := by
        rintro rfl
        exact zpow_two_ne_zero e (by simpa using he.symm)
      exact_mod_cast Nat.one_le_iff_ne_zero.mpr hne
    have hnonneg : 0 ≤ e := by
      by_contra hneg
      have hlt : (2 : ℚ) ^ e < 1 := zpow_lt_one_of_neg₀ one_lt_two (not_le.mp hneg)
      exact absurd (he ▸ hone) (not_le.mpr hlt)
    obtain ⟨k, rfl⟩ := Int.eq_ofNat_of_zero_le hnonneg
    exact ⟨k, by exact_mod_cast he⟩
  · rintro ⟨k, rfl⟩
    exact ⟨k, by push_cast; rfl⟩

/-- **A code is rounded to a power of two exactly if its magnitude is one.** -/
theorem isPowerOfTwo_rounded (format : Format) {c : ℤ} (hc : c.natAbs ≤ twoPow 53) :
    (ofInt c * format.lsb).isPowerOfTwo = true ↔ c.natAbs.isPowerOfTwo := by
  have hvalue := denotes_ofInt_mul_lsb format hc
  rw [isPowerOfTwo_iff, hvalue.magnitude, abs_cast_eq, ← exists_eq_zpow_iff, Format.step]
  constructor
  · rintro ⟨-, e, he⟩
    refine ⟨e + format.fracBits, ?_⟩
    rw [zpow_two_add, ← he, mul_assoc, ← zpow_two_add, neg_add_cancel, zpow_zero, mul_one]
  · rintro ⟨e, he⟩
    exact ⟨hvalue.isFinite, e - format.fracBits, by rw [he, ← zpow_two_add, sub_eq_add_neg]⟩

/-- Elements of two kinds that exclude each other, and all others. -/
theorem countP_add_countP {α : Type} {p q : α → Bool} (l : List α)
    (h : ∀ a, p a = true → q a = false) :
    l.countP p + l.countP q + l.countP (fun a => !p a && !q a) = l.length := by
  induction l with
  | nil => rfl
  | cons a rest ih =>
    simp only [List.countP_cons, List.length_cons, ← ih]
    cases hp : p a with
    | true =>
      rw [h a hp]
      simp
      omega
    | false =>
      cases q a <;> simp <;> omega

/-! ### The mean -/

section Mean

variable {format : Format} {codes : List ℤ} {start : Binary64} {n total : ℕ}

/-- A short number of last bits is a double. -/
theorem isMagnitude_mul_step (format : Format) (h : n ≤ twoPow 53) :
    IsMagnitude (n * format.step) := by
  have hf := format.fracBits_le
  exact (isMagnitude_natCast h).natCast_mul_zpow (by omega) (by omega)

/-- **Partial sums of magnitudes are exact.** -/
theorem denotes_foldl_add (hstart : start.Denotes false (n * format.step))
    (h : n + (codes.map Int.natAbs).sum ≤ twoPow 53) :
    ((codes.map fun c => (ofInt c * format.lsb).abs).foldl (· + ·) start).Denotes false
      ((n + (codes.map Int.natAbs).sum : ℕ) * format.step) := by
  induction codes generalizing start n with
  | nil => exact hstart
  | cons c rest ih =>
    simp only [List.map_cons, List.sum_cons, List.foldl_cons] at h ⊢
    have hcode := (denotes_ofInt_mul_lsb format (show c.natAbs ≤ twoPow 53 by omega)).abs
    rw [abs_cast_eq] at hcode
    have hsum : ((n + c.natAbs : ℕ) : ℚ) * format.step
        = n * format.step + c.natAbs * format.step := by
      push_cast
      ring
    have hnext := hstart.add hcode (hsum ▸ isMagnitude_mul_step format (by omega))
    rw [← hsum] at hnext
    rw [← add_assoc]
    exact ih hnext (by omega)

/-- **The mean of magnitudes is rounded once**, in the division. -/
theorem mean_rounded (hsum : (codes.map Int.natAbs).sum ≤ twoPow 53) (htotal : total ≤ twoPow 53)
    (hpos : total ≠ 0) :
    mean ((codes.map fun c => ofInt c * format.lsb).map Binary64.abs) total
      = ofRat ((codes.map Int.natAbs).sum * format.step / total) := by
  have hzero : (zero false).Denotes false ((0 : ℕ) * format.step) := by
    rw [Nat.cast_zero, zero_mul]
    exact denotes_zero false
  have hfold : ((codes.map fun c => (ofInt c * format.lsb).abs).foldl (· + ·) (zero false)).Denotes
      false ((codes.map Int.natAbs).sum * format.step) := by
    simpa using denotes_foldl_add hzero (by omega)
  unfold mean
  rw [List.map_map]
  have hdiv := hfold.div_eq_ofMagnitude (denotes_ofInt_natCast htotal) (by exact_mod_cast hpos)
  rw [Bool.bne_false] at hdiv
  rw [ofRat_of_nonneg (div_nonneg hfold.nonneg (Nat.cast_nonneg total))]
  exact hdiv

end Mean

/-! ### What is measured -/

section Measure

variable {format : Format} {weights : List Binary64} {codes : List ℤ} {low high : Binary64}

/-- The weights that are counted as powers of two. -/
theorem pow2Count_measure (hshort : ∀ c ∈ codes, c.natAbs ≤ twoPow 53) :
    (measure format weights codes low high).pow2Count
      = codes.countP (fun c => c.natAbs.isPowerOfTwo) := by
  have hzip : codes.zip (codes.map fun c => ofInt c * format.lsb)
      = codes.map fun c => (c, ofInt c * format.lsb) := by
    simpa using List.zip_map' (l := codes) (f := id) (g := fun c => ofInt c * format.lsb)
  unfold measure
  dsimp only
  rw [hzip, List.countP_map]
  refine List.countP_congr fun c hc => ?_
  show (c != 0 && (ofInt c * format.lsb).isPowerOfTwo) = true ↔ _
  rw [Bool.and_eq_true, isPowerOfTwo_rounded format (hshort c hc), decide_eq_true_iff,
    and_iff_right_iff_imp]
  intro hpow
  exact bne_iff_ne.mpr (Int.natAbs_pos.mp (Nat.pos_of_isPowerOfTwo hpow))

/-- The counters count codes: zeros, powers of two, and all others. -/
structure Counts (stats : Stats) (codes : List ℤ) : Prop where
  total : stats.total = codes.length
  zeroCount : stats.zeroCount = codes.countP (fun c => c = 0)
  pow2Count : stats.pow2Count = codes.countP (fun c => c.natAbs.isPowerOfTwo)
  remainingCount :
    stats.remainingCount = codes.countP (fun c => c ≠ 0 ∧ ¬c.natAbs.isPowerOfTwo)
  sum : stats.zeroCount + stats.pow2Count + stats.remainingCount = stats.total

/-- **What is measured is the number of codes of each kind.** -/
theorem counts_measure (hlength : weights.length = codes.length)
    (hshort : ∀ c ∈ codes, c.natAbs ≤ twoPow 53) :
    Counts (measure format weights codes low high) codes := by
  set stats := measure format weights codes low high
  have hpow : stats.pow2Count = codes.countP (fun c => c.natAbs.isPowerOfTwo) :=
    pow2Count_measure hshort
  have hdisjoint : ∀ c : ℤ, decide (c = 0) = true → decide c.natAbs.isPowerOfTwo = false := by
    intro c hc
    have hzero : c.natAbs = 0 := Int.natAbs_eq_zero.mpr (of_decide_eq_true hc)
    exact decide_eq_false fun hpow => (Nat.pos_of_isPowerOfTwo hpow).ne' hzero
  have hkinds := countP_add_countP codes hdisjoint
  have hothers : codes.countP (fun c => c ≠ 0 ∧ ¬c.natAbs.isPowerOfTwo)
      = codes.countP fun c => !decide (c = 0) && !decide c.natAbs.isPowerOfTwo :=
    List.countP_congr fun c _ => by simp
  have htotal : stats.total = codes.length := hlength
  have hzero : stats.zeroCount = codes.countP (fun c => c = 0) := rfl
  -- neither subtraction is cut off, since the three kinds exclude each other
  have hremaining : stats.remainingCount = stats.total - stats.zeroCount - stats.pow2Count := rfl
  exact ⟨htotal, hzero, hpow, by omega, by omega⟩

end Measure

/-! ### Layers -/

/-- A tensor holds these numbers, and all of them are finite. -/
structure FiniteReals (tensor : Tensor) (values : Array Binary64) : Prop where
  elements : tensor.elements = .reals values
  isFinite : ∀ v ∈ values, v.isFinite = true

section Layers

variable {node node' : String} {totalBits : ℕ} {weights weights' bias : Tensor}
  {layer layer' : Layer} {ws ws' bs : Array Binary64}

theorem FiniteReals.isFiniteReal (h : FiniteReals weights ws) : isFiniteReal weights = true := by
  unfold Quantize.isFiniteReal Tensor.reals?
  rw [h.elements]
  exact Array.all_eq_true'.mpr h.isFinite

theorem FiniteReals.size_ne_zero (h : FiniteReals weights ws) (hsome : ws.size ≠ 0) :
    weights.size ≠ 0 := by
  unfold Tensor.size
  rwa [h.elements]

/-- The format and the statistics of a layer. -/
theorem format_stats_of_analyze (hweights : weights.elements = .reals ws)
    (hbias : bias.elements = .reals bs) (h : analyze node weights bias totalBits = .ok layer) :
    Format.ofTotalBits? totalBits (integerWidth (highest (ws.toList ++ bs.toList)) totalBits)
        = .ok layer.format ∧
      ∃ low high, layer.stats
        = measure layer.format ws.toList (ws.toList.map layer.format.nearest) low high := by
  unfold analyze at h
  simp only [check_eq_ok_iff, bind_eq_ok_iff, mapError_eq_ok_iff, Except.ok.injEq,
    finiteValues_eq_ok_iff] at h
  obtain ⟨_, ⟨_, hws, hwfinite, rfl⟩, _, ⟨_, hbs, -, rfl⟩, -, format, hformat, codes, hcodes, _, -,
    _, -, _, -, rfl⟩ := h
  obtain rfl := Elements.reals.inj (hweights.symm.trans hws)
  obtain rfl := Elements.reals.inj (hbias.symm.trans hbs)
  have hnearest : codes = ws.toList.map format.nearest := by
    rw [← Array.toList_map, ← mapM_code_eq_ok hwfinite hcodes]
  exact ⟨hformat, _, _, by rw [← hnearest]⟩

/-- The integers of a tensor of codewords are the nearest ones of all numbers. -/
theorem Encoded.elements_eq {format : Format} {type : IntType} {source codes : Tensor}
    (h : Encoded format type source codes) (hsource : FiniteReals source ws) :
    codes.elements = .ints type (ws.map format.nearest) := by
  obtain ⟨values, hvalues, -, helements⟩ := h.elements
  obtain rfl := Elements.reals.inj (hsource.elements.symm.trans hvalues)
  exact helements

/-- The numbers of a layer, weights and biases, are finite. -/
theorem isFinite_of_mem_append (hweights : FiniteReals weights ws) (hbias : FiniteReals bias bs) :
    ∀ v ∈ ws.toList ++ bs.toList, v.isFinite = true := by
  intro v hv
  rcases List.mem_append.mp hv with hv | hv
  · exact hweights.isFinite v (Array.mem_toList_iff.mp hv)
  · exact hbias.isFinite v (Array.mem_toList_iff.mp hv)

/-- **The format of a layer does not depend on the order of the weights.** -/
theorem format_eq_of_perm (hweights : FiniteReals weights ws) (hweights' : FiniteReals weights' ws')
    (hbias : FiniteReals bias bs) (hperm : ws'.toList.Perm ws.toList)
    (h : analyze node weights bias totalBits = .ok layer)
    (h' : analyze node' weights' bias totalBits = .ok layer') : layer'.format = layer.format := by
  have hformat := (format_stats_of_analyze hweights.elements hbias.elements h).1
  have hformat' := (format_stats_of_analyze hweights'.elements hbias.elements h').1
  have hsame : highest (ws'.toList ++ bs.toList) = highest (ws.toList ++ bs.toList) :=
    highest_perm (hperm.append_right _) (isFinite_of_mem_append hweights' hbias)
  rw [hsame, hformat] at hformat'
  exact (Except.ok.inj hformat').symm

/-- The mean magnitude of a layer is rounded once. -/
theorem meanAbsValue_of_analyze (hweights : weights.elements = .reals ws)
    (hbias : bias.elements = .reals bs) (h : analyze node weights bias totalBits = .ok layer)
    (hsome : ws.size ≠ 0) (hsize : ws.size ≤ twoPow 53)
    (hsum : ((ws.toList.map layer.format.nearest).map Int.natAbs).sum ≤ twoPow 53) :
    layer.stats.meanAbsValue
      = ofRat (((ws.toList.map layer.format.nearest).map Int.natAbs).sum * layer.format.step
          / ws.size) := by
  obtain ⟨-, low, high, hstats⟩ := format_stats_of_analyze hweights hbias h
  rw [hstats]
  unfold measure
  dsimp only
  rw [Array.length_toList]
  exact mean_rounded hsum hsize hsome

/-- **The mean magnitude of a layer does not depend on the order of the weights.** -/
theorem meanAbsValue_eq_of_perm (hweights : FiniteReals weights ws)
    (hweights' : FiniteReals weights' ws') (hbias : FiniteReals bias bs)
    (hperm : ws'.toList.Perm ws.toList) (h : analyze node weights bias totalBits = .ok layer)
    (h' : analyze node' weights' bias totalBits = .ok layer') (hsome : ws.size ≠ 0)
    (hsize : ws.size ≤ twoPow 53)
    (hsum : ((ws.toList.map layer.format.nearest).map Int.natAbs).sum ≤ twoPow 53) :
    layer'.stats.meanAbsValue = layer.stats.meanAbsValue := by
  have hformat := format_eq_of_perm hweights hweights' hbias hperm h h'
  have hcount : ws'.size = ws.size := hperm.length_eq
  have hsame : ((ws'.toList.map layer'.format.nearest).map Int.natAbs).sum
      = ((ws.toList.map layer.format.nearest).map Int.natAbs).sum := by
    rw [hformat]
    exact ((hperm.map _).map _).sum_eq
  rw [meanAbsValue_of_analyze hweights.elements hbias.elements h hsome hsize hsum,
    meanAbsValue_of_analyze hweights'.elements hbias.elements h' (hcount ▸ hsome) (hcount ▸ hsize)
      (hsame ▸ hsum), hformat, hcount]
  rw [hformat] at hsame
  rw [hsame]

/-- **The analysis of a layer is exact**, for all finite weights, of which there are some, all
finite biases and every width.  It succeeds; the format is signed and has this width; and the
tensors keep their shapes and hold the code of each number, which is the number counted in last
bits, rounded half to even and kept in the range of the width.  The counters count the codes of the
weights that are zero, a power of two, and anything else.  If there are at most `2 ^ 53` weights,
and the magnitudes of their codes add up to at most `2 ^ 53`, then the mean magnitude is the exact
one, rounded once; and with the weights in any other order it is the same. -/
theorem analyze_exact (node : String) (hpos : 1 ≤ totalBits) (hle : totalBits ≤ 32)
    (hweights : FiniteReals weights ws) (hsome : ws.size ≠ 0) (hbias : FiniteReals bias bs) :
    ∃ layer, analyze node weights bias totalBits = .ok layer ∧
      (layer.format.signed = true ∧ layer.format.totalBits = totalBits) ∧
      (layer.weights.shape = weights.shape ∧ layer.bias.shape = bias.shape) ∧
      let code := fun v : Binary64 => clampInt (signedMin totalBits) (signedMax totalBits)
        (roundHalfEven (v.toRat * 2 ^ (layer.format.fracBits : ℤ)))
      let codes := ws.toList.map code
      let sum := (codes.map Int.natAbs).sum
      (layer.weights.elements = .ints (.forBits totalBits) (ws.map code) ∧
        layer.bias.elements = .ints .i32 (bs.map code)) ∧
      Counts layer.stats codes ∧
      (ws.size ≤ twoPow 53 → sum ≤ twoPow 53 →
        layer.stats.meanAbsValue = ofRat (sum * 2 ^ (-(layer.format.fracBits : ℤ)) / ws.size) ∧
        ∀ (node' : String) (weights' : Tensor) (ws' : Array Binary64),
          weights'.elements = .reals ws' → ws'.toList.Perm ws.toList →
          ∃ layer', analyze node' weights' bias totalBits = .ok layer' ∧
            layer'.stats.meanAbsValue = layer.stats.meanAbsValue) := by
  obtain ⟨layer, hlayer⟩ := exists_analyze node hpos hle hweights.isFiniteReal hbias.isFiniteReal
    (hweights.size_ne_zero hsome)
  obtain ⟨hsigned, hwidth⟩ := format_of_analyze hlayer
  obtain ⟨hwencoded, hbencoded, -⟩ := encoded_of_analyze hlayer
  refine ⟨layer, hlayer, ⟨hsigned, hwidth⟩, ⟨hwencoded.shape_eq, hbencoded.shape_eq⟩, ?_⟩
  intro code codes sum
  have hcode : ∀ v : Binary64, v.isFinite = true → layer.format.nearest v = code v := by
    intro v hv
    rw [layer.format.nearest_of_signed hsigned hv, hwidth]
  have hcodes : ws.toList.map layer.format.nearest = codes :=
    List.map_congr_left fun v hv => hcode v (hweights.isFinite v (Array.mem_toList_iff.mp hv))
  obtain ⟨low, high, hstats⟩ := (format_stats_of_analyze hweights.elements hbias.elements hlayer).2
  refine ⟨⟨?_, ?_⟩, ?_, fun hsize hsum => ⟨?_, ?_⟩⟩
  · rw [hwencoded.elements_eq hweights]
    exact congrArg _ (Array.map_congr_left fun v hv => hcode v (hweights.isFinite v hv))
  · rw [hbencoded.elements_eq hbias]
    exact congrArg _ (Array.map_congr_left fun v hv => hcode v (hbias.isFinite v hv))
  · rw [hstats, ← hcodes]
    refine counts_measure (by rw [List.length_map]) fun c hc => ?_
    obtain ⟨v, -, rfl⟩ := List.mem_map.mp hc
    exact (natAbs_le_of_range _ (layer.format.least_le_nearest v)
      (layer.format.nearest_le_greatest v)).trans (twoPow_le_twoPow (by decide))
  · have hmean := meanAbsValue_of_analyze hweights.elements hbias.elements hlayer hsome hsize
    rw [hcodes] at hmean
    exact hmean hsum
  · intro node' weights' ws' helements hperm
    have hweights' : FiniteReals weights' ws' := ⟨helements, fun v hv =>
      have hmem := hperm.mem_iff.mp (Array.mem_toList_iff.mpr hv)
      hweights.isFinite v (Array.mem_toList_iff.mp hmem)⟩
    have hcount : ws'.size = ws.size := hperm.length_eq
    obtain ⟨layer', hlayer'⟩ := exists_analyze node' hpos hle hweights'.isFiniteReal
      hbias.isFiniteReal (hweights'.size_ne_zero (hcount ▸ hsome))
    exact ⟨layer', hlayer', meanAbsValue_eq_of_perm hweights hweights' hbias hperm hlayer hlayer'
      hsome hsize (hcodes ▸ hsum)⟩

end Layers

/-! ### One layer -/

/-- Four weights. -/
def eighths : Tensor :=
  ⟨[4], .reals #[ofRat (1 / 2), zero true, ofRat (-1 / 4), ofRat (3 / 8)], by decide, rfl⟩

/-- One bias, which is not a multiple of the last bit. -/
def tenth : Tensor :=
  ⟨[1], .reals #[ofRat (1 / 10)], by decide, rfl⟩

/-- One of the weights becomes zero, two become powers of two, and the mean magnitude is nine parts
of 32. -/
theorem analyze_exact_eighths :
    FiniteReals eighths eighths.toReals ∧ eighths.toReals.size ≠ 0 ∧
      FiniteReals tenth tenth.toReals ∧
      ∃ layer, analyze "conv" eighths tenth 8 = .ok layer ∧ layer.format.fracBits = 7 ∧
        layer.weights.elements = .ints .i8 #[64, 0, -32, 48] ∧
        layer.bias.elements = .ints .i32 #[13] ∧
        layer.stats.zeroCount = 1 ∧ layer.stats.pow2Count = 2 ∧ layer.stats.remainingCount = 1 ∧
        layer.stats.meanAbsValue = ofRat (9 / 32) := by
  have hweights : FiniteReals eighths eighths.toReals := ⟨rfl, by decide +kernel⟩
  have hbias : FiniteReals tenth tenth.toReals := ⟨rfl, by decide +kernel⟩
  have hsome : eighths.toReals.size ≠ 0 := by decide
  obtain ⟨layer, hlayer, -, -, ⟨hwelements, hbelements⟩, hcounts, hmean⟩ :=
    analyze_exact "conv" (show 1 ≤ 8 by decide) (by decide) hweights hsome hbias
  have hseven : layer.format.fracBits = 7 := by
    have hfrac : (analyze "conv" eighths tenth 8).map (·.format.fracBits) = .ok 7 := by
      decide +kernel
    rw [hlayer] at hfrac
    exact Except.ok.inj hfrac
  rw [hseven] at hwelements hbelements hcounts hmean
  have hcodes : eighths.toReals.toList.map (fun v =>
      clampInt (signedMin 8) (signedMax 8) (roundHalfEven (v.toRat * 2 ^ ((7 : ℕ) : ℤ))))
        = [64, 0, -32, 48] := by decide +kernel
  rw [hcodes] at hcounts hmean
  exact ⟨hweights, hsome, hbias, layer, hlayer, hseven,
    hwelements.trans (congrArg _ (by decide +kernel)),
    hbelements.trans (congrArg _ (by decide +kernel)), hcounts.zeroCount, hcounts.pow2Count,
    hcounts.remainingCount, (hmean (by decide) (by decide)).1.trans (by decide +kernel)⟩

end Quantize

end DyadicNet
