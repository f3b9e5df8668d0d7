import Mathlib
import DyadicNet.Json.TextLayer
import DyadicNet.Proofs.Decimal.Layout
import DyadicNet.Proofs.Rounding

/-!
# What is asked of a text layer

Whoever stores a value and reads it again relies on three facts about the text layer: the text that
was written for a value is read as that value; **the shortest digits of a double are read as that
double**; and no number is read as an infinity.  Nothing else is asked of it: not which blanks it
writes, and not what it makes of texts and numerals that it did not write itself.

Nor does it have to know every value.  Integers are those of a machine, with a sign or without one;
numbers are doubles; and lists and objects do not lie inside each other without end, as a reader that
calls itself has to stop at some depth.

## Main Definitions

* `Written` — the values that are written, up to a depth;
* `LawfulTextLayer` — the three facts.
-/

namespace DyadicNet.Json

/-! ### Stored numbers -/

theorem toInt?_eq_some_iff {least greatest v : ℤ} {j : Json} :
    j.toInt? least greatest = some v ↔ j = .integer v ∧ least ≤ v ∧ v ≤ greatest := by
  cases j with
  | integer n =>
    rw [toInt?, Option.ite_none_right_eq_some, Option.some.injEq, Json.integer.injEq]
    constructor
    · rintro ⟨hrange, rfl⟩
      exact ⟨rfl, hrange⟩
    · rintro ⟨rfl, hrange⟩
      exact ⟨hrange, rfl⟩
  | _ => simp [toInt?]

theorem toNat?_eq_some_iff {bits n : ℕ} {j : Json} :
    j.toNat? bits = some n ↔ j = .ofNat n ∧ n < twoPow bits := by
  rw [toNat?, Option.map_eq_some_iff]
  constructor
  · rintro ⟨v, hv, rfl⟩
    obtain ⟨rfl, hlow, hhigh⟩ := toInt?_eq_some_iff.mp hv
    refine ⟨?_, by omega⟩
    rw [ofNat, Int.toNat_of_nonneg hlow]
  · rintro ⟨rfl, hn⟩
    exact ⟨n, toInt?_eq_some_iff.mpr ⟨rfl, by omega, by omega⟩, Int.toNat_natCast n⟩

/-- The doubles that are stored as numbers are the finite ones. -/
theorem exists_ofReal_eq_decimal {x : Binary64} (h : x.isFinite = true) :
    ∃ numeral, realLayout.numeral? x = some numeral ∧ ofReal x = .decimal numeral := by
  obtain ⟨numeral, hnumeral⟩ : ∃ numeral, realLayout.numeral? x = some numeral := by
    cases x with
    | nan => cases h
    | infinity => cases h
    | finite negative m e hcanonical =>
      rcases realLayout.numeral?_finite negative hcanonical with ⟨-, heq⟩ | ⟨-, heq⟩
      · exact ⟨_, heq⟩
      · exact ⟨_, heq⟩
  exact ⟨numeral, hnumeral, by rw [ofReal, hnumeral]⟩

/-! ### Written values -/

/-- How deep lists and objects may lie inside each other. -/
def maxDepth : ℕ := 127

/-- The values that are written: scalars, and whole lists and objects of a depth at most. -/
inductive Written : ℕ → Json → Prop
  | null {depth : ℕ} : Written depth .null
  | bool {depth : ℕ} (value : Bool) : Written depth (.bool value)
  | integer {depth : ℕ} {value : ℤ} (least_le : signedMin 64 ≤ value) (lt : value < twoPow 64) :
      Written depth (.integer value)
  | real {depth : ℕ} {value : Binary64} (finite : value.isFinite = true) :
      Written depth (ofReal value)
  | string {depth : ℕ} (value : String) : Written depth (.string value)
  | array {depth : ℕ} {items : List Json} (h : ∀ item ∈ items, Written depth item) :
      Written (depth + 1) (.array items true)
  | object {depth : ℕ} {members : List (String × Json)}
      (h : ∀ entry ∈ members, Written depth entry.2) : Written (depth + 1) (.object members true)

section Parts

variable {α : Type} {write : α → Json} {depth : ℕ}

theorem written_ofList {l : List α} (h : ∀ a ∈ l, Written depth (write a)) :
    Written (depth + 1) (.ofList (l.map write)) := by
  refine .array fun item hitem => ?_
  obtain ⟨a, ha, rfl⟩ := List.mem_map.mp hitem
  exact h a ha

theorem written_ofInt {v : ℤ} (h : Fits64 v) : Written depth (.ofInt v) := by
  have hgreatest : signedMax 64 < twoPow 64 := by decide
  exact .integer h.1 (h.2.trans_lt hgreatest)

theorem written_ofNat {n : ℕ} (h : n < twoPow 64) : Written depth (.ofNat n) := by
  have hleast : signedMin 64 ≤ 0 := by decide
  exact .integer (by omega) (by omega)

end Parts

/-! ### The laws -/

/-- A text layer that reads what it has written. -/
class LawfulTextLayer [TextLayer] : Prop where
  /-- The text that was written for a value is read as that value, and nothing is left of it. -/
  parse_pretty {j : Json} (h : Written maxDepth j) :
    TextLayer.parse (TextLayer.pretty j) = (some j, true)
  /-- The shortest digits of a double are read as that double. -/
  toReal?_ofReal {x : Binary64} (h : x.isFinite = true) : (ofReal x).toReal? = some x
  /-- No number is read as an infinity. -/
  isFinite_of_toReal? {j : Json} {x : Binary64} (h : j.toReal? = some x) : x.isFinite = true

end DyadicNet.Json
