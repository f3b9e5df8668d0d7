import Mathlib
import DyadicNet.Proofs.Quantize.Analysis

/-!
# The largest magnitude of a layer

The format of a layer is chosen for the largest magnitude among its weights and biases, and this is
found through the least and the largest of the numbers.  Which of several equal numbers is found
depends on their order, and so does the sign of a zero; the magnitude does not.

## Main Definitions

* `Extreme` — the least and the largest of a list;
* `highest` — the largest magnitude, as it is computed.

## Main Statements

* `extreme_extremes` — what the fold over a list finds;
* `denotes_highest` — the largest magnitude is exact;
* `highest_perm` — it does not depend on the order.
-/

namespace DyadicNet

namespace Binary64

variable {x y : Binary64}

/-! ### The greater and the lesser of two numbers -/

theorem maxNum_of_isFinite (hx : x.isFinite = true) (hy : y.isFinite = true) :
    x.maxNum y = if y.toRat < x.toRat then x else y := by
  unfold maxNum
  rw [(denotes_self hy).isNaN_eq, Bool.false_or]
  exact if_congr ((denotes_self hy).lt_iff (denotes_self hx)) rfl rfl

theorem minNum_of_isFinite (hx : x.isFinite = true) (hy : y.isFinite = true) :
    x.minNum y = if x.toRat < y.toRat then x else y := by
  unfold minNum
  rw [(denotes_self hy).isNaN_eq, Bool.false_or]
  exact if_congr ((denotes_self hx).lt_iff (denotes_self hy)) rfl rfl

/-- Plus infinity is the lesser of no two numbers. -/
theorem infinity_minNum (hy : y.isFinite = true) : (infinity false).minNum y = y := by
  obtain ⟨negative, m, e, hc, rfl⟩ := exists_finite hy
  rfl

/-- Minus infinity is the greater of no two numbers. -/
theorem infinity_maxNum (hy : y.isFinite = true) : (infinity true).maxNum y = y := by
  obtain ⟨negative, m, e, hc, rfl⟩ := exists_finite hy
  rfl

end Binary64

namespace Quantize

open Binary64

variable {values seen rest : List Binary64} {low high : Binary64}

/-! ### The least and the largest of a list -/

/-- A least and a largest number of a list. -/
structure Extreme (values : List Binary64) (low high : Binary64) : Prop where
  low_mem : low ∈ values
  high_mem : high ∈ values
  low_le : ∀ v ∈ values, low.toRat ≤ v.toRat
  le_high : ∀ v ∈ values, v.toRat ≤ high.toRat

/-- One more number is either one of the two, or between them. -/
theorem Extreme.concat (h : Extreme seen low high) (hfinite : ∀ v ∈ seen, v.isFinite = true)
    {v : Binary64} (hv : v.isFinite = true) :
    Extreme (seen ++ [v]) (low.minNum v) (high.maxNum v) := by
  have hmem : ∀ {u}, u ∈ seen ++ [v] ↔ u ∈ seen ∨ u = v := by simp
  rw [minNum_of_isFinite (hfinite low h.low_mem) hv,
    maxNum_of_isFinite (hfinite high h.high_mem) hv]
  refine ⟨?_, ?_, fun u hu => ?_, fun u hu => ?_⟩
  · split_ifs
    · exact hmem.mpr (.inl h.low_mem)
    · exact hmem.mpr (.inr rfl)
  · split_ifs
    · exact hmem.mpr (.inl h.high_mem)
    · exact hmem.mpr (.inr rfl)
  · rcases hmem.mp hu with hu | rfl
    · split_ifs with hlt
      · exact h.low_le u hu
      · exact (not_lt.mp hlt).trans (h.low_le u hu)
    · split_ifs with hlt
      · exact hlt.le
      · exact le_rfl
  · rcases hmem.mp hu with hu | rfl
    · split_ifs with hlt
      · exact h.le_high u hu
      · exact (h.le_high u hu).trans (not_lt.mp hlt)
    · split_ifs with hlt
      · exact hlt.le
      · exact le_rfl

/-- **The fold over a list finds a least and a largest number.** -/
theorem extreme_extremes (hsome : values ≠ []) (hfinite : ∀ v ∈ values, v.isFinite = true) :
    Extreme values (extremes values).1 (extremes values).2 := by
  unfold extremes
  induction values using List.reverseRecOn with
  | nil => exact absurd rfl hsome
  | append_singleton seen v ih =>
    have hv : v.isFinite = true := hfinite v (by simp)
    rw [List.foldl_concat]
    by_cases hseen : seen = []
    · -- the first number takes the place of both infinities
      subst hseen
      show Extreme [v] ((infinity false).minNum v) ((infinity true).maxNum v)
      rw [infinity_minNum hv, infinity_maxNum hv]
      exact ⟨by simp, by simp, by simp, by simp⟩
    · have hearlier : ∀ u ∈ seen, u.isFinite = true := fun u hu => hfinite u (by simp [hu])
      exact (ih hseen hearlier).concat hearlier hv

/-! ### The largest magnitude -/

/-- The largest magnitude of a list, as the analysis of a layer computes it. -/
def highest (values : List Binary64) : Binary64 :=
  (extremes values).2.abs.maxNum (extremes values).1.abs

/-- **The largest magnitude is exact.** -/
theorem denotes_highest (hsome : values ≠ []) (hfinite : ∀ v ∈ values, v.isFinite = true) :
    ∃ q, (highest values).Denotes false q ∧ IsGreatest {p | ∃ v ∈ values, v.magnitude = p} q := by
  have h := extreme_extremes hsome hfinite
  have hhigh := (denotes_self (hfinite _ h.high_mem)).abs
  have hlow := (denotes_self (hfinite _ h.low_mem)).abs
  have hbound : ∀ v ∈ values, v.magnitude
      ≤ max (extremes values).1.magnitude (extremes values).2.magnitude := by
    intro v hv
    rw [← (denotes_self (hfinite v hv)).abs_toRat,
      ← (denotes_self (hfinite _ h.low_mem)).abs_toRat,
      ← (denotes_self (hfinite _ h.high_mem)).abs_toRat]
    exact abs_le_max_abs_abs (h.low_le v hv) (h.le_high v hv)
  unfold highest
  rw [maxNum_of_isFinite hhigh.isFinite hlow.isFinite, hhigh.toRat_pos, hlow.toRat_pos]
  split_ifs with hlt
  · refine ⟨_, hhigh, ⟨_, h.high_mem, rfl⟩, ?_⟩
    rintro _ ⟨v, hv, rfl⟩
    exact (hbound v hv).trans_eq (max_eq_right hlt.le)
  · refine ⟨_, hlow, ⟨_, h.low_mem, rfl⟩, ?_⟩
    rintro _ ⟨v, hv, rfl⟩
    exact (hbound v hv).trans_eq (max_eq_left (not_lt.mp hlt))

/-- **The largest magnitude does not depend on the order of a list.** -/
theorem highest_perm {values' : List Binary64} (hperm : values.Perm values')
    (hfinite : ∀ v ∈ values, v.isFinite = true) : highest values = highest values' := by
  rcases eq_or_ne values [] with rfl | hsome
  · rw [List.nil_perm.mp hperm]
  have hsome' : values' ≠ [] := fun hnil => hsome (List.perm_nil.mp (hnil ▸ hperm))
  obtain ⟨q, hq, hgreatest⟩ := denotes_highest hsome hfinite
  obtain ⟨q', hq', hgreatest'⟩ := denotes_highest hsome' fun v hv =>
    hfinite v (hperm.mem_iff.mpr hv)
  have hsame : {p | ∃ v ∈ values, v.magnitude = p} = {p | ∃ v ∈ values', v.magnitude = p} :=
    Set.ext fun p => exists_congr fun v => and_congr_left fun _ => hperm.mem_iff
  rw [← hsame] at hgreatest'
  obtain rfl := hgreatest.unique hgreatest'
  exact hq.unique hq'

end Quantize

end DyadicNet
