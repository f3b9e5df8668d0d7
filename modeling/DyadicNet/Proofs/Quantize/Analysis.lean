import Mathlib
import DyadicNet.Proofs.Except
import DyadicNet.Proofs.FixedPoint.Encoding
import DyadicNet.Proofs.Tensor
import DyadicNet.Quantize.Analysis

/-!
# The analysis of a layer

A layer of the given width exists for **all finite weights and biases**: the format never has more
bits before the point than the width allows, every finite number has a nearest codeword, and the
codewords are integers of the types in which they are kept.  What the format is can be read off it
afterwards: it is signed and has the width that was asked for, so at least one bit is no fraction.

## Main Definitions

* `isFiniteReal` — that a tensor holds finite real numbers;
* `Encoded` — that a tensor holds the codewords of another one.

## Main Statements

* `integerWidth_le` — the bits before the point fit the width;
* `code_eq_ok` — the code of a number is its nearest codeword;
* `format_of_analyze` — the format of a layer;
* `encoded_of_analyze` — its weights and its bias;
* `exists_analyze` — finite weights and biases can be analyzed.
-/

namespace DyadicNet.Quantize

open Binary64 FixedPoint

variable {totalBits : ℕ} {node name : String} {weights bias tensor : Tensor} {layer : Layer}

/-! ### The bits before the point -/

/-- A number that is kept below an integer does not exceed it as an integer. -/
theorem toInt_minNum_le (x : Binary64) {n : ℕ} (hn : n ≤ 255) :
    (x.minNum (.ofInt n)).toInt 0 255 ≤ n := by
  have hbound : (Binary64.ofInt n).Denotes false n :=
    denotes_ofInt_natCast (hn.trans (by decide))
  unfold minNum
  split_ifs with hlt
  · rw [hbound.isNaN_eq, Bool.false_or] at hlt
    cases x with
    | nan => simp [Binary64.lt, compare?] at hlt
    | infinity negative =>
      rw [hbound.infinity_lt] at hlt
      rw [hlt]
      exact Int.natCast_nonneg n
    | finite negative m e hc =>
      have hx := denotes_finite negative hc
      rw [hx.lt_iff hbound, hbound.toRat_pos, hx.toRat_eq] at hlt
      have hwhole : (0 : ℤ) ≤ ((m : ℚ) * 2 ^ e).floor := Int.floor_nonneg.mpr hx.nonneg
      show clampInt 0 255
        (if negative then -((m : ℚ) * 2 ^ e).floor else ((m : ℚ) * 2 ^ e).floor) ≤ n
      unfold clampInt
      split_ifs at hlt ⊢ with hsign
      · omega
      · have hfloor : ((m : ℚ) * 2 ^ e).floor ≤ n := by
          have := (Int.floor_le ((m : ℚ) * 2 ^ e)).trans hlt.le
          exact_mod_cast this
        omega
  · rw [hbound.toInt, if_neg Bool.false_ne_true, clampInt_eq_self (by omega) (by omega)]

theorem one_le_integerWidth (value : Binary64) (maxBits : ℕ) : 1 ≤ integerWidth value maxBits := by
  unfold integerWidth
  dsimp only
  split_ifs
  · exact le_max_left _ _
  · exact le_rfl

/-- **No more bits stand before the point than there are.** -/
theorem integerWidth_le (value : Binary64) {maxBits : ℕ} (hpos : 1 ≤ maxBits)
    (hle : maxBits ≤ 255) : integerWidth value maxBits ≤ maxBits := by
  unfold integerWidth
  dsimp only
  split_ifs
  · have hmin := toInt_minNum_le ((value.log2.maxNum (zero false)).ceil + .ofInt 1) hle
    omega
  · exact hpos

/-! ### Codes -/

/-- **The code of a number is its nearest codeword**, as an integer. -/
theorem code_eq_ok (format : Format) {value : Binary64} (h : value.isNaN = false) :
    code format value = .ok (format.nearest value) := by
  obtain ⟨codeword, hencode, hvalue⟩ := exists_encode format h
  unfold code
  rw [hencode, ← hvalue]
  rfl

/-- The codewords of a signed format are integers of every type that is wide enough. -/
theorem holds_nearest {format : Format} {type : IntType} (hsigned : format.signed = true)
    (hbits : format.totalBits ≤ type.bits) (value : Binary64) :
    type.holds (format.nearest value) = true := by
  have hlow := format.least_le_nearest value
  have hhigh := format.nearest_le_greatest value
  have hpow : twoPow (format.totalBits - 1) ≤ twoPow (type.bits - 1) :=
    twoPow_le_twoPow (Nat.sub_le_sub_right hbits 1)
  rw [format.least_of_signed hsigned, signedMin] at hlow
  rw [format.greatest_of_signed hsigned, signedMax] at hhigh
  unfold IntType.holds IntType.least IntType.greatest signedMin signedMax
  exact decide_eq_true ⟨by omega, by omega⟩

theorem le_bits_forBits {bits : ℕ} (h : bits ≤ 32) : bits ≤ (IntType.forBits bits).bits := by
  unfold IntType.forBits
  split_ifs <;> simp only [IntType.bits] <;> omega

/-- Nearest codewords of finite numbers are the elements of a tensor. -/
theorem exists_ofInts? {format : Format} {type : IntType} {shape : List ℕ}
    {values : Array Binary64} (hsigned : format.signed = true)
    (hbits : format.totalBits ≤ type.bits) (hsize : values.size = elementCount shape) :
    ∃ tensor, Tensor.ofInts? shape (.int type) (values.toList.map format.nearest).toArray
      = .ok tensor := by
  have hcount : (values.toList.map format.nearest).toArray.size = elementCount shape := by
    simpa using hsize
  have hrange : (values.toList.map format.nearest).toArray.all type.holds = true := by
    simp [holds_nearest hsigned hbits]
  unfold Tensor.ofInts?
  rw [dif_pos hcount]
  dsimp only
  rw [dif_pos hrange]
  exact ⟨_, rfl⟩

/-! ### Layers -/

/-- **The format of a layer is signed and has the width that was asked for.** -/
theorem format_of_analyze (h : analyze node weights bias totalBits = .ok layer) :
    layer.format.signed = true ∧ layer.format.totalBits = totalBits := by
  unfold analyze at h
  simp only [check_eq_ok_iff, bind_eq_ok_iff, mapError_eq_ok_iff, Except.ok.injEq] at h
  obtain ⟨_, -, _, -, -, format, hformat, _, -, _, -, _, -, _, -, rfl⟩ := h
  exact Format.ofTotalBits?_eq_ok hformat

/-- Not all bits of a layer are after the point. -/
theorem fracBits_lt_of_analyze (h : analyze node weights bias totalBits = .ok layer) :
    layer.format.fracBits < totalBits := by
  obtain ⟨hsigned, hwidth⟩ := format_of_analyze h
  have hsign := layer.format.sign_bit hsigned
  unfold Format.totalBits at hwidth
  omega

theorem finiteValues_eq_ok_iff {values : List Binary64} :
    finiteValues node name tensor = .ok values ↔ ∃ array, tensor.elements = .reals array ∧
      (∀ value ∈ array, value.isFinite = true) ∧ array.toList = values := by
  unfold finiteValues Tensor.reals?
  cases tensor.elements with
  | ints type ints => exact ⟨nofun, nofun⟩
  | reals array =>
    dsimp only
    split_ifs with hfinite
    · rw [Array.all_eq_true'] at hfinite
      rw [Except.ok.injEq]
      constructor
      · exact fun hvalues => ⟨array, rfl, hfinite, hvalues⟩
      · rintro ⟨_, hsame, -, rfl⟩
        rw [Elements.reals.inj hsame]
    · rw [Array.all_eq_true'] at hfinite
      constructor
      · exact nofun
      · rintro ⟨_, hsame, hall, -⟩
        cases hsame
        exact absurd hall hfinite

/-- A tensor holds the nearest codewords of the finite numbers of another one. -/
structure Encoded (format : Format) (type : IntType) (source codes : Tensor) : Prop where
  shape_eq : codes.shape = source.shape
  elements : ∃ values, source.elements = .reals values ∧
    (∀ value ∈ values, value.isFinite = true) ∧
    codes.elements = .ints type (values.map format.nearest)

/-- The codes of finite numbers are their nearest codewords. -/
theorem mapM_code_eq_ok {format : Format} {values : Array Binary64} {codes : List ℤ}
    (hfinite : ∀ value ∈ values, value.isFinite = true)
    (h : values.toList.mapM (code format) = .ok codes) :
    codes.toArray = values.map format.nearest := by
  have hcodes : values.toList.mapM (code format) = .ok (values.toList.map format.nearest) :=
    mapM_eq_ok_map fun value hvalue =>
      code_eq_ok format (denotes_self (hfinite value (Array.mem_toList_iff.mp hvalue))).isNaN_eq
  obtain rfl := Except.ok.inj (hcodes.symm.trans h)
  rw [← Array.toList_map, Array.toArray_toList]

/-- **The weights and the bias of a layer are the nearest codewords** of those that it is made from,
and there are some weights. -/
theorem encoded_of_analyze (h : analyze node weights bias totalBits = .ok layer) :
    Encoded layer.format (.forBits totalBits) weights layer.weights ∧
      Encoded layer.format .i32 bias layer.bias ∧ weights.size ≠ 0 := by
  unfold analyze at h
  simp only [check_eq_ok_iff, bind_eq_ok_iff, mapError_eq_ok_iff, Except.ok.injEq,
    finiteValues_eq_ok_iff, Tensor.ofInts?_eq_ok_iff] at h
  obtain ⟨_, ⟨ws, hws, hwfinite, rfl⟩, _, ⟨bs, hbs, hbfinite, rfl⟩, hsome, format, -, _, hwcodes, _,
    hbcodes, _, ⟨-, hwshape, hwelements⟩, _, ⟨-, hbshape, hbelements⟩, rfl⟩ := h
  rw [mapM_code_eq_ok hwfinite hwcodes] at hwelements
  rw [mapM_code_eq_ok hbfinite hbcodes] at hbelements
  refine ⟨⟨hwshape, ws, hws, hwfinite, hwelements⟩, ⟨hbshape, bs, hbs, hbfinite, hbelements⟩, ?_⟩
  unfold Tensor.size
  rw [hws]
  simpa [Elements.size] using hsome

/-- The integers of a tensor of codewords have the width of the format. -/
theorem Encoded.natAbs_le {format : Format} {type : IntType} {source codes : Tensor}
    (h : Encoded format type source codes) (hsigned : format.signed = true) {values : Array ℤ}
    (hvalues : codes.ints? = some values) :
    ∀ v ∈ values, v.natAbs ≤ twoPow (format.totalBits - 1) := by
  obtain ⟨reals, -, -, helements⟩ := h.elements
  obtain ⟨type', hints⟩ := Tensor.ints?_eq_some_iff.mp hvalues
  obtain ⟨-, rfl⟩ := Elements.ints.inj (helements.symm.trans hints)
  intro v hv
  obtain ⟨value, -, rfl⟩ := Array.mem_map.mp hv
  have hlow := format.least_le_nearest value
  have hhigh := format.nearest_le_greatest value
  rw [format.least_of_signed hsigned, signedMin] at hlow
  rw [format.greatest_of_signed hsigned, signedMax] at hhigh
  omega

/-- Whether a tensor holds finite real numbers. -/
def isFiniteReal (tensor : Tensor) : Bool :=
  tensor.reals?.any fun values => values.all Binary64.isFinite

theorem exists_finiteValues (h : isFiniteReal tensor = true) (node name : String) :
    ∃ values, tensor.elements = .reals values ∧
      finiteValues node name tensor = .ok values.toList ∧
      ∀ value ∈ values.toList, value.isNaN = false := by
  unfold isFiniteReal Tensor.reals? at h
  cases helements : tensor.elements with
  | ints type values =>
    rw [helements] at h
    cases h
  | reals values =>
    rw [helements] at h
    have hfinite : values.all Binary64.isFinite = true := h
    refine ⟨values, rfl, ?_, ?_⟩
    · unfold finiteValues Tensor.reals?
      rw [helements]
      exact if_pos hfinite
    · intro value hvalue
      have hvalue := Array.all_eq_true'.mp hfinite value (Array.mem_toList_iff.mp hvalue)
      exact (denotes_self hvalue).isNaN_eq

/-- **Finite weights, of which there are some, and finite biases can be analyzed** at every width. -/
theorem exists_analyze (node : String) (hpos : 1 ≤ totalBits) (hwidth : totalBits ≤ 32)
    (hweights : isFiniteReal weights = true) (hbias : isFiniteReal bias = true)
    (hsome : weights.size ≠ 0) : ∃ layer, analyze node weights bias totalBits = .ok layer := by
  obtain ⟨ws, hws, hwvalues, hwnan⟩ := exists_finiteValues hweights node "weights"
  obtain ⟨bs, hbs, hbvalues, hbnan⟩ := exists_finiteValues hbias node "bias"
  have hwsize : ws.size = elementCount weights.shape := by
    have := weights.size_eq
    rwa [hws] at this
  have hbsize : bs.size = elementCount bias.shape := by
    have := bias.size_eq
    rwa [hbs] at this
  have hnonempty : ¬ws.toList.isEmpty = true := by
    unfold Tensor.size at hsome
    rw [hws] at hsome
    simpa [Elements.size] using hsome
  set low := (extremes (ws.toList ++ bs.toList)).1
  set high := (extremes (ws.toList ++ bs.toList)).2
  obtain ⟨format, hformat⟩ := Format.exists_ofTotalBits?
    (one_le_integerWidth (high.abs.maxNum low.abs) totalBits)
    (integerWidth_le (high.abs.maxNum low.abs) hpos (by omega)) hwidth
  obtain ⟨hsigned, htotal⟩ := Format.ofTotalBits?_eq_ok hformat
  obtain ⟨quantizedWeights, hquantizedWeights⟩ := exists_ofInts? hsigned
    (htotal.trans_le (le_bits_forBits hwidth)) hwsize
  have hword : format.totalBits ≤ IntType.i32.bits := htotal.trans_le hwidth
  obtain ⟨quantizedBias, hquantizedBias⟩ := exists_ofInts? hsigned hword hbsize
  refine ⟨⟨format, quantizedWeights, quantizedBias,
    measure format ws.toList (ws.toList.map format.nearest) low high⟩, ?_⟩
  unfold analyze
  simp only [check_eq_ok_iff, bind_eq_ok_iff, mapError_eq_ok_iff]
  exact ⟨_, hwvalues, _, hbvalues, hnonempty, format, hformat,
    _, mapM_eq_ok_map fun value hvalue => code_eq_ok format (hwnan value hvalue),
    _, mapM_eq_ok_map fun value hvalue => code_eq_ok format (hbnan value hvalue),
    _, hquantizedWeights, _, hquantizedBias, rfl⟩

end DyadicNet.Quantize
