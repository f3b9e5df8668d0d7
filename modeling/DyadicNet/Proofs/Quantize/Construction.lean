import Mathlib
import DyadicNet.Proofs.NameTable
import DyadicNet.Proofs.Quantize.Params

/-!
# Parameters as they are constructed

Parameters promise a positive scale that is a power of two, and its exponent.  They are made in four
ways: from a scale, from the constants of a graph, from a format, and from an exponent.  The first
two check the promise, and the third cannot break it, because a format has few bits.

The last one computes the power and **stores it unchecked**.  Beyond `2 ^ 1023` there is no double
for it, and it is infinite; below `2 ^ -1023` it is zero, although the doubles go on down to
`2 ^ -1074`.  Such parameters can be written into a graph like all others, but the constants are no
longer read back.

## Main Definitions

* `Params.Sound` — what parameters promise;
* `Params.Built` — that parameters come from a constructor.

## Main Statements

* `Params.sound_iff_valid` — the promise in terms of what the scale denotes;
* `Params.sound_ofExponent_iff` — the exponents for which the promise is kept;
* `Params.built_sound` — the parameters of all constructors.
-/

namespace DyadicNet.Quantize.Params

open Binary64

variable {params : Params}

/-! ### The promise -/

/-- What parameters promise: the scale is finite, positive and the power with their exponent, and
zero stands for zero. -/
structure Sound (params : Params) : Prop where
  isFinite : params.scale.isFinite = true
  positive : (zero false).lt params.scale = true
  exactLog2_eq : params.scale.exactLog2 = some params.exponent
  zeroPoint_eq : params.zeroPoint = 0

instance (params : Params) : Decidable params.Sound :=
  decidable_of_iff (_ ∧ _ ∧ _ ∧ _)
    ⟨fun ⟨hfinite, hpos, hlog, hzero⟩ => ⟨hfinite, hpos, hlog, hzero⟩,
      fun ⟨hfinite, hpos, hlog, hzero⟩ => ⟨hfinite, hpos, hlog, hzero⟩⟩

/-- The promise is what the check for a scale makes sure of. -/
theorem sound_iff_make? : params.Sound ↔ make? params.scale params.zeroPoint = .ok params := by
  constructor
  · rintro ⟨-, hpos, hlog, hzero⟩
    unfold make?
    rw [if_neg (not_not.mpr hzero), hpos, hlog]
    rfl
  · intro h
    have hvalid := (make?_eq_ok_iff.mp h).1
    exact ⟨hvalid.scale.isFinite, hvalid.zero_lt_scale, hvalid.scale.exactLog2,
      hvalid.zeroPoint_eq⟩

theorem sound_iff_valid : params.Sound ↔ params.Valid := by
  rw [sound_iff_make?, make?_eq_ok_iff]
  exact ⟨And.left, fun h => ⟨h, rfl, rfl⟩⟩

/-! ### Constructors -/

/-- Parameters that a constructor gives, whatever it is given. -/
inductive Built : Params → Prop
  | scale {params : Params} {scale : Binary64} {zeroPoint : ℤ}
      (h : make? scale zeroPoint = .ok params) : Built params
  | exponent (exponent : ℤ) : Built (ofExponent exponent)
  | format (format : FixedPoint.Format) : Built (ofFormat format)
  | constants {params : Params} {graph : Graph} {node scaleName zeroPointName : String}
      (h : ofConstants? graph node scaleName zeroPointName = .ok params) : Built params

/-- **An exponent is that of its scale between `-1023` and `1023`**, and for no other exponent is
the scale a positive number at all. -/
theorem sound_ofExponent_iff {exponent : ℤ} :
    (ofExponent exponent).Sound ↔ -1023 ≤ exponent ∧ exponent ≤ 1023 := by
  constructor
  · rintro ⟨hfinite, hpos, -, -⟩
    by_contra hout
    rcases lt_or_ge exponent (-1023) with htiny | hlow
    · have hzero : (ofExponent exponent).scale = .zero false := powerOfTwo_eq_zero htiny
      rw [hzero, (denotes_zero false).lt_iff (denotes_zero false)] at hpos
      exact absurd hpos (lt_irrefl _)
    · have hinfinity : (ofExponent exponent).scale = .infinity false :=
        powerOfTwo_eq_infinity (by omega)
      rw [hinfinity] at hfinite
      cases hfinite
  · rintro ⟨hlow, hhigh⟩
    exact sound_iff_valid.mpr ⟨rfl, denotes_powerOfTwo hlow hhigh⟩

/-- A format has at most 31 bits after the point, so its scale is far from the smallest one. -/
theorem sound_ofFormat (format : FixedPoint.Format) : (ofFormat format).Sound := by
  have hwidth : format.intBits + format.fracBits ≤ 32 := format.width_le
  exact sound_ofExponent_iff.mpr (by omega)

/-- What a constructor gives keeps the promise, unless it is given an exponent that is too small or
too large. -/
theorem sound_iff_of_built (h : Built params) :
    params.Sound ↔ ∀ exponent, params = ofExponent exponent → -1023 ≤ exponent ∧ exponent ≤ 1023 := by
  have hforced : params.Sound →
      ∀ exponent, params = ofExponent exponent → -1023 ≤ exponent ∧ exponent ≤ 1023 := by
    rintro hsound exponent rfl
    exact sound_ofExponent_iff.mp hsound
  refine ⟨hforced, fun hrange => ?_⟩
  cases h with
  | scale hmake => exact sound_iff_valid.mpr (make?_eq_ok_iff.mp hmake).1
  | exponent exponent => exact sound_ofExponent_iff.mpr (hrange exponent rfl)
  | format format => exact sound_ofFormat format
  | constants hread => exact sound_iff_valid.mpr (valid_of_ofConstants? hread)

/-! ### Writing and reading -/

/-- The zero point of parameters from a constructor is zero, whether or not the scale is sound. -/
theorem zeroPoint_of_built (h : Built params) : params.zeroPoint = 0 := by
  cases h with
  | scale hmake => exact (make?_eq_ok_iff.mp hmake).1.zeroPoint_eq
  | exponent exponent => rfl
  | format format => rfl
  | constants hread => exact (valid_of_ofConstants? hread).zeroPoint_eq

/-- The constants that parameters are written as give the parameters back exactly if these keep the
promise. -/
theorem ofConstants?_eq_ok_iff_sound {type : IntType} {scale zeroPoint : Tensor} {graph : Graph}
    {scaleName zeroPointName : String} (hzero : params.zeroPoint = 0)
    (hwritten : params.toTensors? (.int type) = .ok (scale, zeroPoint))
    (hscale : graph.initializers.get? scaleName = some scale)
    (hzeroPoint : graph.initializers.get? zeroPointName = some zeroPoint) (node : String) :
    ofConstants? graph node scaleName zeroPointName = .ok params ↔ params.Sound := by
  obtain ⟨rfl, hshape, helements⟩ := toTensors?_eq_ok hwritten
  have hcarried : params.CarriedBy type graph.initializers.get? scaleName zeroPointName :=
    ⟨hscale, zeroPoint, hzeroPoint, hshape, helements⟩
  rw [ofConstants?_eq_make?_of_carriedBy hzero hcarried, sound_iff_make?, hzero]

/-- **What constructors give.**  Parameters from a constructor keep their promise exactly if they are
not made from an exponent below `-1023` or above `1023`.  They can be written as constants for every
integer type; and whichever graph has these constants, they are read back as the parameters exactly
if the promise is kept. -/
theorem built_sound (h : Built params) :
    (params.Sound ↔
      ∀ exponent, params = ofExponent exponent → -1023 ≤ exponent ∧ exponent ≤ 1023) ∧
    ∀ type, ∃ scale zeroPoint, params.toTensors? (.int type) = .ok (scale, zeroPoint) ∧
      ∀ (graph : Graph) (node scaleName zeroPointName : String),
        graph.initializers.get? scaleName = some scale →
        graph.initializers.get? zeroPointName = some zeroPoint →
        (ofConstants? graph node scaleName zeroPointName = .ok params ↔ params.Sound) := by
  refine ⟨sound_iff_of_built h, fun type => ?_⟩
  have hzero := zeroPoint_of_built h
  obtain ⟨zeroPoint, hwritten⟩ := exists_toTensors? hzero type
  exact ⟨_, zeroPoint, hwritten, fun graph node _ _ hscale hzeroPoint =>
    ofConstants?_eq_ok_iff_sound hzero hwritten hscale hzeroPoint node⟩

/-- A graph that is nothing but two constants. -/
def constantsOnly (scale zeroPoint : Tensor) : Graph :=
  { name := "constants"
    opset := 9
    inputs := []
    outputs := []
    nodes := []
    initializers := .ofList [("s", scale), ("z", zeroPoint)] }

theorem get?_constantsOnly (scale zeroPoint : Tensor) :
    (constantsOnly scale zeroPoint).initializers.get? "s" = some scale ∧
      (constantsOnly scale zeroPoint).initializers.get? "z" = some zeroPoint := by
  have hnodup : (([("s", scale), ("z", zeroPoint)] : List (String × Tensor)).map (·.1)).Nodup := by
    simp
  constructor <;> exact NameTable.get?_foldl_insert hnodup .empty _

/-- The smallest power that is computed is sound, although it is no longer a normal number, and a
graph that has its constants gives it back. -/
theorem built_sound_smallest :
    Built (ofExponent (-1023)) ∧ (ofExponent (-1023)).Sound ∧
      ∃ scale zeroPoint, (ofExponent (-1023)).toTensors? (.int .i8) = .ok (scale, zeroPoint) ∧
        ofConstants? (constantsOnly scale zeroPoint) "c" "s" "z" = .ok (ofExponent (-1023)) := by
  have hbuilt : Built (ofExponent (-1023)) := .exponent _
  obtain ⟨-, hwritten⟩ := built_sound hbuilt
  have hsound : (ofExponent (-1023)).Sound := by decide +kernel
  obtain ⟨scale, zeroPoint, htensors, hread⟩ := hwritten .i8
  obtain ⟨hgetScale, hgetZero⟩ := get?_constantsOnly scale zeroPoint
  exact ⟨hbuilt, hsound, scale, zeroPoint, htensors,
    (hread _ _ _ _ hgetScale hgetZero).mpr hsound⟩

/-- **The promise can be broken.**  There is a double for `2 ^ -1030`, and it passes the check for a
scale; but the parameters that are made from the exponent have the scale zero, and their constants
are refused. -/
theorem built_unsound_tiny :
    (∃ scale, scale.Denotes false (2 ^ (-1030 : ℤ)) ∧
      make? scale 0 = .ok ⟨scale, 0, -1030⟩) ∧
    Built (ofExponent (-1030)) ∧ ¬(ofExponent (-1030)).Sound ∧
      (ofExponent (-1030)).scale = .zero false ∧
      ∃ scale zeroPoint, (ofExponent (-1030)).toTensors? (.int .i8) = .ok (scale, zeroPoint) ∧
        ofConstants? (constantsOnly scale zeroPoint) "c" "s" "z"
          = .error (.invalidParams (.zero false) 0 .sign) := by
  have hscale : (ofMagnitude false (2 ^ (-1030 : ℤ))).Denotes false (2 ^ (-1030 : ℤ)) :=
    denotes_ofMagnitude false (isMagnitude_zpow (by decide) (by decide))
  have hzero : (ofExponent (-1030)).scale = .zero false :=
    powerOfTwo_eq_zero (show (-1030 : ℤ) < -1023 by decide)
  have hcentered : (ofExponent (-1030)).zeroPoint = 0 := rfl
  obtain ⟨zeroPoint, hwritten⟩ := exists_toTensors? hcentered .i8
  refine ⟨⟨_, hscale, make?_eq_ok_iff.mpr ⟨⟨rfl, hscale⟩, rfl, rfl⟩⟩, .exponent _, ?_, hzero, _,
    zeroPoint, hwritten, ?_⟩
  · rw [sound_ofExponent_iff]
    decide
  · obtain ⟨-, hshape, helements⟩ := toTensors?_eq_ok hwritten
    have hcarried : (ofExponent (-1030)).CarriedBy .i8
        (constantsOnly (.scalarReal (ofExponent (-1030)).scale) zeroPoint).initializers.get?
        "s" "z" :=
      ⟨(get?_constantsOnly _ _).1, zeroPoint, (get?_constantsOnly _ _).2, hshape, helements⟩
    rw [ofConstants?_eq_make?_of_carriedBy rfl hcarried, hzero]
    decide +kernel

end DyadicNet.Quantize.Params
