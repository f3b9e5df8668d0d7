import Mathlib
import DyadicNet.Config
import DyadicNet.Proofs.Except

/-!
# Settings that make sense

What a configuration that passed its check is known to have.
-/

namespace DyadicNet.Config

/-- What the check of a configuration makes sure of. -/
structure Valid (config : Config) : Prop where
  weightBits_pos : 1 ≤ config.weightBits
  weightBits_le : config.weightBits ≤ 32
  activationBits_pos : 1 ≤ config.activationBits
  activationBits_le : config.activationBits ≤ 32

theorem checkWidth_eq_ok_iff {setting : String} {bits : ℕ} {u : Unit} :
    checkWidth setting bits = .ok u ↔ 1 ≤ bits ∧ bits ≤ 32 := by
  unfold checkWidth FixedPoint.maxTotalBits
  split_ifs with h
  · constructor
    · intro herror
      cases herror
    · omega
  · exact ⟨fun _ => by omega, fun _ => rfl⟩

theorem valid_of_validate {config : Config} (h : config.validate = .ok ()) : config.Valid := by
  unfold validate at h
  simp only [bind_eq_ok_iff, checkWidth_eq_ok_iff] at h
  obtain ⟨-, hweight, -, hactivation, -⟩ := h
  exact ⟨hweight.1, hweight.2, hactivation.1, hactivation.2⟩

/-- The scale of the input is a positive power of two. -/
theorem inputScale_of_validate {config : Config} (h : config.validate = .ok ()) :
    (Binary64.zero false).lt config.inputScale = true ∧ config.inputScale.isPowerOfTwo = true := by
  unfold validate at h
  simp only [bind_eq_ok_iff, check_eq_ok_iff] at h
  obtain ⟨-, -, -, -, hscale, -⟩ := h
  simpa using hscale

end DyadicNet.Config
