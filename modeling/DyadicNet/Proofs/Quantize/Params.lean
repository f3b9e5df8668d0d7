import Mathlib
import DyadicNet.Proofs.Binary64.Arithmetic
import DyadicNet.Proofs.Config
import DyadicNet.Proofs.Except
import DyadicNet.Proofs.Tensor
import DyadicNet.Quantize.Params

/-!
# Scales are powers of two

Parameters are checked where they enter: from a configuration, from the constants of a graph, and
when the scale of an output is propagated.  Whatever passed the check has **a scale that is exactly
`2 ^ exponent`** and zero as its zero point.

## Main Definitions

* `Params.Valid` — what the check makes sure of;
* `Params.CarriedBy` — that a table has the two constants of parameters;
* `Params.Constants` — that two constants of a graph are those of parameters;
* `propagateBy?` — the scale of an output for a given exponent.

## Main Statements

* `Params.make?_eq_ok_iff` — the check;
* `Params.valid_of_ofConstants?` — the parameters in a graph are valid;
* `Params.ofConstants?_of_carriedBy` — the constants of parameters carry them;
* `exists_propagateBy?`, `exponent_of_propagateScale?` — the scale of an output.
-/

namespace DyadicNet.Quantize.Params

open Binary64

/-- The scale is the power that the exponent says, and zero stands for zero. -/
structure Valid (params : Params) : Prop where
  zeroPoint_eq : params.zeroPoint = 0
  scale : params.scale.Denotes false (2 ^ params.exponent)

theorem Valid.toRat_scale {params : Params} (h : params.Valid) :
    params.scale.toRat = 2 ^ params.exponent :=
  h.scale.toRat_pos

/-- A scale is a positive number. -/
theorem Valid.zero_lt_scale {params : Params} (h : params.Valid) :
    (zero false).lt params.scale = true := by
  rw [(denotes_zero false).lt_iff h.scale, (denotes_zero false).toRat_pos, h.toRat_scale]
  exact zpow_two_pos _

/-- The parameters that pass the check for a scale are those that are valid and have it. -/
theorem make?_eq_ok_iff {scale : Binary64} {zeroPoint : ℤ} {params : Params} :
    make? scale zeroPoint = .ok params ↔
      params.Valid ∧ params.scale = scale ∧ params.zeroPoint = zeroPoint := by
  unfold make?
  constructor
  · intro h
    split_ifs at h with hzero hsign
    cases hlog : scale.exactLog2 with
    | none =>
      rw [hlog] at h
      cases h
    | some exponent =>
      -- the scale is a power up to its sign, and the sign has been checked
      rw [hlog] at h
      obtain rfl := Except.ok.inj h
      obtain ⟨hfin, hmag⟩ := exactLog2_eq_some_iff.mp hlog
      have hpos : (zero false).lt scale = true := by simpa using hsign
      rw [(denotes_zero false).lt_iff (denotes_self hfin), (denotes_zero false).toRat_pos,
        (denotes_self hfin).toRat_eq, hmag] at hpos
      have hneg : scale.isNegative = false := by
        by_contra hcon
        rw [Bool.not_eq_false] at hcon
        rw [if_pos hcon] at hpos
        linarith [zpow_two_pos exponent]
      exact ⟨⟨not_not.mp hzero, hfin, hneg, hmag⟩, rfl, rfl⟩
  · rintro ⟨hvalid, rfl, rfl⟩
    rw [if_neg (not_not.mpr hvalid.zeroPoint_eq), hvalid.zero_lt_scale, hvalid.scale.exactLog2]
    rfl

theorem valid_of_ofConstants? {graph : Graph} {node scaleName zeroPointName : String}
    {params : Params} (h : ofConstants? graph node scaleName zeroPointName = .ok params) :
    params.Valid := by
  unfold ofConstants? at h
  simp only [bind_eq_ok_iff] at h
  obtain ⟨scale, -, zeroPoint, -, h⟩ := h
  split_ifs at h
  exact (make?_eq_ok_iff.mp h).1

/-! ### The constants of parameters -/

/-- Under two names stand the constants of the parameters, for quantized tensors of a type. -/
structure CarriedBy (params : Params) (type : IntType) (lookup : String → Option Tensor)
    (scaleName zeroPointName : String) : Prop where
  scale : lookup scaleName = some (.scalarReal params.scale)
  zeroPoint : ∃ zeroPoint : Tensor, lookup zeroPointName = some zeroPoint ∧
    zeroPoint.shape = [] ∧ zeroPoint.elements = .ints type #[params.zeroPoint]

variable {params : Params} {type : IntType} {scaleName zeroPointName : String}

/-- Whoever finds at least as much finds the constants. -/
theorem CarriedBy.mono {lookup lookup' : String → Option Tensor}
    (h : params.CarriedBy type lookup scaleName zeroPointName)
    (hmore : ∀ name tensor, lookup name = some tensor → lookup' name = some tensor) :
    params.CarriedBy type lookup' scaleName zeroPointName := by
  obtain ⟨zeroPoint, hget, hzero⟩ := h.zeroPoint
  exact ⟨hmore _ _ h.scale, zeroPoint, hmore _ _ hget, hzero⟩

theorem toTensors?_eq_ok {scale zeroPoint : Tensor}
    (h : params.toTensors? (.int type) = .ok (scale, zeroPoint)) :
    scale = .scalarReal params.scale ∧ zeroPoint.shape = [] ∧
      zeroPoint.elements = .ints type #[params.zeroPoint] := by
  unfold toTensors? Tensor.scalarInt? at h
  simp only [bind_eq_ok_iff, mapError_eq_ok_iff, Tensor.ofInts?_eq_ok_iff, Except.ok.injEq,
    Prod.mk.injEq] at h
  obtain ⟨_, ⟨-, hshape, helements⟩, rfl, rfl⟩ := h
  exact ⟨rfl, hshape, helements⟩

/-- Parameters with zero as their zero point have constants, for quantized tensors of every integer
type. -/
theorem exists_toTensors? (hzeroPoint : params.zeroPoint = 0) (type : IntType) :
    ∃ zeroPoint, params.toTensors? (.int type) = .ok (.scalarReal params.scale, zeroPoint) := by
  have hholds : (#[(0 : ℤ)]).all type.holds = true := by simp [type.holds_zero]
  have hsize : (#[(0 : ℤ)]).size = elementCount [] := by decide
  let zeroPoint : Tensor := ⟨[], .ints type #[0], hsize, hholds⟩
  have hzero : Tensor.scalarInt? (.int type) 0 = .ok zeroPoint :=
    Tensor.ofInts?_eq_ok_iff.mpr ⟨⟨hsize, hholds⟩, rfl, rfl⟩
  refine ⟨zeroPoint, ?_⟩
  unfold toTensors?
  rw [hzeroPoint, hzero]
  rfl

/-- What a graph gives for a constant with one element. -/
theorem scalar?_eq_ok {graph : Graph} {node name : String} {tensor : Tensor} {value : Binary64}
    (h : graph.initializers.get? name = some tensor) (hscalar : tensor.scalar? = some value) :
    graph.scalar? node name = .ok value := by
  unfold Graph.scalar? Graph.constant?
  rw [h, ok_bind, hscalar]

/-- Two constants with one element, of which the second is a zero of either sign, are checked like a
scale. -/
theorem ofConstants?_eq_make? {graph : Graph} {node : String} {scale : Binary64} {negative : Bool}
    (hscale : graph.scalar? node scaleName = .ok scale)
    (hzero : graph.scalar? node zeroPointName = .ok (.zero negative)) :
    ofConstants? graph node scaleName zeroPointName = make? scale 0 := by
  have hintegral : (zero negative).isIntegral = true := by cases negative <;> decide +kernel
  have hint : (zero negative).toInt64 = 0 := by cases negative <;> decide +kernel
  unfold ofConstants?
  rw [hscale, hzero]
  show (if (zero negative).isIntegral = true then make? scale (zero negative).toInt64 else _) = _
  rw [if_pos hintegral, hint]

/-- The constants of parameters are checked like their scale. -/
theorem ofConstants?_eq_make?_of_carriedBy {graph : Graph} (hzeroPoint : params.zeroPoint = 0)
    (h : params.CarriedBy type graph.initializers.get? scaleName zeroPointName) (node : String) :
    ofConstants? graph node scaleName zeroPointName = make? params.scale 0 := by
  obtain ⟨zeroPoint, hget, hshape, helements⟩ := h.zeroPoint
  have hscale : graph.scalar? node scaleName = .ok params.scale := scalar?_eq_ok h.scale rfl
  have hzero : graph.scalar? node zeroPointName = .ok (.zero false) :=
    scalar?_eq_ok hget (Tensor.scalar?_of_zero (hzeroPoint ▸ helements))
  exact ofConstants?_eq_make? hscale hzero

/-- The constants of valid parameters are read back as the parameters. -/
theorem ofConstants?_of_carriedBy {graph : Graph} (hvalid : params.Valid)
    (h : params.CarriedBy type graph.initializers.get? scaleName zeroPointName) (node : String) :
    ofConstants? graph node scaleName zeroPointName = .ok params := by
  rw [ofConstants?_eq_make?_of_carriedBy hvalid.zeroPoint_eq h]
  exact make?_eq_ok_iff.mpr ⟨hvalid, rfl, hvalid.zeroPoint_eq⟩

/-- Under two names stand constants with one element: a positive power of two, and a zero. -/
structure Constants (graph : Graph) (scaleName zeroPointName : String) : Prop where
  scale : ∃ tensor ∈ graph.initializers.get? scaleName, ∃ value ∈ tensor.scalar?,
    (Binary64.zero false).lt value = true ∧ value.isPowerOfTwo = true
  zeroPoint : ∃ tensor ∈ graph.initializers.get? zeroPointName, ∃ negative,
    tensor.scalar? = some (.zero negative)

instance (graph : Graph) (scaleName zeroPointName : String) :
    Decidable (Constants graph scaleName zeroPointName) :=
  decidable_of_iff (_ ∧ _)
    ⟨fun ⟨scale, zeroPoint⟩ => ⟨scale, zeroPoint⟩, fun ⟨scale, zeroPoint⟩ => ⟨scale, zeroPoint⟩⟩

/-- A positive power of two is the scale of parameters. -/
theorem exists_make? {scale : Binary64} (hpos : (zero false).lt scale = true)
    (hpower : scale.isPowerOfTwo = true) : ∃ params, make? scale 0 = .ok params := by
  obtain ⟨exponent, hlog⟩ := Option.isSome_iff_exists.mp hpower
  refine ⟨⟨scale, 0, exponent⟩, ?_⟩
  unfold make?
  rw [hpos, hlog]
  rfl

/-- Such constants carry parameters, whichever node reads them. -/
theorem Constants.exists_ofConstants? {graph : Graph} (h : Constants graph scaleName zeroPointName)
    (node : String) : ∃ params, ofConstants? graph node scaleName zeroPointName = .ok params := by
  obtain ⟨scaleTensor, hscaleTensor, scale, hscale, hpos, hpower⟩ := h.scale
  obtain ⟨zeroTensor, hzeroTensor, negative, hzero⟩ := h.zeroPoint
  rw [ofConstants?_eq_make? (scalar?_eq_ok hscaleTensor hscale) (scalar?_eq_ok hzeroTensor hzero)]
  exact exists_make? hpos hpower

end DyadicNet.Quantize.Params

namespace DyadicNet.Quantize

/-- The parameters of the output of a convolution, for the exponent of the mean magnitude of its
weights, whichever way this is found. -/
def propagateBy? (node : String) (input : Params) (exponent : ℤ) (totalBits : ℕ) :
    Except Error Params :=
  let raw := Binary64.powerOfTwo (wrap32 (input.exponent - exponent))
  let scale := raw.clamp (.ofInt 1) (.powerOfTwo totalBits)
  if scale.isPowerOfTwo then Params.make? scale 0
  else .error (.scaleOutOfRange node scale)

theorem propagateScale?_eq (node : String) (input : Params) (mean : Binary64) (totalBits : ℕ) :
    propagateScale? node input mean totalBits
      = propagateBy? node input (meanExponent mean) totalBits := rfl

/-- **Every output has a scale, whatever the exponents are**: the power of two whose exponent is
kept between `0` and the width. -/
theorem exists_propagateBy? (node : String) (input : Params) (exponent : ℤ) {totalBits : ℕ}
    (hbits : totalBits ≤ 1023) :
    ∃ output, propagateBy? node input exponent totalBits = .ok output ∧ output.Valid ∧
      output.exponent = clampInt 0 totalBits (wrap32 (input.exponent - exponent)) := by
  have hclamp := Binary64.denotes_clamp_powerOfTwo hbits (wrap32 (input.exponent - exponent))
  have hpower : ((Binary64.powerOfTwo (wrap32 (input.exponent - exponent))).clamp
      (.ofInt 1) (.powerOfTwo totalBits)).isPowerOfTwo = true := by
    unfold Binary64.isPowerOfTwo
    rw [hclamp.exactLog2]
    rfl
  unfold propagateBy?
  dsimp only
  rw [if_pos hpower]
  exact ⟨⟨_, 0, _⟩, Params.make?_eq_ok_iff.mpr ⟨⟨rfl, hclamp⟩, rfl, rfl⟩, ⟨rfl, hclamp⟩, rfl⟩

/-- The parameters of an output are valid. -/
theorem valid_of_propagateScale? {node : String} {input output : Params} {mean : Binary64}
    {totalBits : ℕ} (h : propagateScale? node input mean totalBits = .ok output) :
    output.Valid := by
  unfold propagateScale? at h
  dsimp only at h
  split_ifs at h
  exact (Params.make?_eq_ok_iff.mp h).1

/-- **The scale of an output is the power of two whose exponent is kept between `0` and the width.** -/
theorem exponent_of_propagateScale? {node : String} {input output : Params} {mean : Binary64}
    {totalBits : ℕ} (hbits : totalBits ≤ 1023)
    (h : propagateScale? node input mean totalBits = .ok output) :
    output.exponent = clampInt 0 totalBits (wrap32 (input.exponent - meanExponent mean)) := by
  obtain ⟨output', houtput, -, hexponent⟩ :=
    exists_propagateBy? node input (meanExponent mean) hbits
  rw [propagateScale?_eq, houtput] at h
  rwa [← Except.ok.inj h]

/-- **Every output has a scale**, whatever the scale of its input and the mean magnitude are. -/
theorem exists_propagateScale? (node : String) (input : Params) (mean : Binary64) {totalBits : ℕ}
    (hbits : totalBits ≤ 1023) :
    ∃ output, propagateScale? node input mean totalBits = .ok output :=
  let ⟨output, houtput, _⟩ := exists_propagateBy? node input (meanExponent mean) hbits
  ⟨output, houtput⟩

/-- A network scale that passes the check of the settings is one of parameters. -/
theorem exists_make?_of_validate {config : Config} (h : config.validate = .ok ()) :
    ∃ params, Params.make? config.inputScale 0 = .ok params :=
  let ⟨hpos, hpower⟩ := Config.inputScale_of_validate h
  Params.exists_make? hpos hpower

end DyadicNet.Quantize
