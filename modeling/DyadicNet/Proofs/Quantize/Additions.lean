import Mathlib
import DyadicNet.Proofs.Quantize.Derived

/-!
# Any additions, one after the other

A conversion stops at the first addition that is refused.  What the constants promise does not depend
on this: **whatever additions are asked for, and whatever becomes of each, names stay apart, the table
of places stays right, and what was once put there stays there.**  So an addition that succeeded finds
its tensor in the end, and one that is refused has changed nothing.

Tensors are compared by value, and zeros of either sign are equal.  The tensor that is kept is the
first one of its name, the later ones equal it.

## Main Definitions

* `Addition` — an addition that is asked for;
* `Derived.attempt`, `Derived.attemptAll` — one addition, and any number of them;
* `Derived.Consistent` — names and places as they should be.

## Main Statements

* `Derived.consistent_attempt`, `Derived.adds_attempt` — one addition;
* `Derived.attempt_eq_ok_iff`, `Derived.conflicts_iff` — when it succeeds, and when it is refused;
* `Derived.attemptAll_consistent` — any number of additions.
-/

namespace DyadicNet.Quantize

/-- An addition that is asked for on behalf of a node. -/
structure Addition where
  node : String
  name : String
  tensor : Tensor

namespace Derived

variable {derived derived' : Derived} {addition : Addition} {name : String} {tensor : Tensor}

/-! ### Names and places -/

/-- The names are distinct and none of them is taken, and the table knows for each of them, and for no
other name, the place of its constant. -/
structure Consistent (derived : Derived) : Prop where
  nodup : derived.names.Nodup
  not_mem_reserved : ∀ name ∈ derived.names, name ∉ derived.reserved
  places_iff : ∀ name place, derived.places.get? name = some place ↔
    ∃ tensor, derived.entries[place]? = some (name, tensor)

/-- Under distinct names, the first place of a name is the only one. -/
theorem places_eq_some_iff (h : derived.names.Nodup) {place : ℕ} :
    derived.places.get? name = some place ↔
      ∃ tensor, derived.entries[place]? = some (name, tensor) := by
  rw [derived.places_eq]
  constructor
  · intro hfirst
    obtain ⟨hplace, hname, -⟩ := List.findIdx?_eq_some_iff_getElem.mp hfirst
    refine ⟨derived.entries[place].2, ?_⟩
    rw [List.getElem?_eq_getElem hplace, ← eq_of_beq hname]
  · rintro ⟨tensor, hentry⟩
    obtain ⟨hplace, hname⟩ := List.getElem?_eq_some_iff.mp hentry
    have hlength : derived.names.length = derived.entries.length := List.length_map _
    have hlater : place < derived.names.length := hlength ▸ hplace
    refine List.findIdx?_eq_some_iff_getElem.mpr ⟨hplace, by simp [hname], fun earlier hlt hsame => ?_⟩
    have hearlier : earlier < derived.names.length := hlt.trans hlater
    have hnames : derived.names[earlier] = derived.names[place] := by
      simpa [names, hname] using eq_of_beq hsame
    exact hlt.ne (h.getElem_inj_iff.mp hnames)

theorem Consistent.of_names (hnodup : derived.names.Nodup)
    (hreserved : ∀ name ∈ derived.names, name ∉ derived.reserved) : derived.Consistent :=
  ⟨hnodup, hreserved, fun _ _ => places_eq_some_iff hnodup⟩

theorem consistent_empty (reserved : List String) : (empty reserved).Consistent :=
  .of_names .nil fun _ h => nomatch h

/-- An addition is refused exactly if its name is taken, or stands for another tensor. -/
theorem conflicts_iff (h : derived.Consistent) :
    derived.conflicts name tensor = true ↔ name ∈ derived.reserved ∨
      ∃ previous, derived.get? name = some previous ∧ previous.sameValues tensor = false := by
  unfold conflicts
  cases hget : derived.get? name with
  | none => simp
  | some previous =>
    have hmem : name ∈ derived.names := isSome_get?_iff.mp (by rw [hget]; rfl)
    simp [h.not_mem_reserved name hmem]

/-! ### One addition -/

/-- What becomes of an addition, and the constants after it. -/
def attempt (derived : Derived) (addition : Addition) : Except Error Unit × Derived :=
  ((register addition.node addition.name addition.tensor).run.run derived).run

/-- **An addition is refused and changes nothing, or it gives what `Derived.add?` gives.** -/
theorem attempt_cases (derived : Derived) (addition : Addition) :
    (derived.conflicts addition.name addition.tensor = true ∧ derived.attempt addition
        = (.error (.malformedNode addition.node (.nameInUse addition.name)), derived)) ∨
      (derived.conflicts addition.name addition.tensor = false ∧ ∃ derived',
        derived.attempt addition = (.ok (), derived') ∧
          derived.add? addition.node addition.name addition.tensor = .ok derived') := by
  unfold attempt
  rw [run_register, add?_eq]
  cases hconflict : derived.conflicts addition.name addition.tensor with
  | true => exact .inl ⟨rfl, rfl⟩
  | false => exact .inr ⟨rfl, _, rfl, rfl⟩

theorem extendsBy_attempt (derived : Derived) (addition : Addition) :
    ∃ added, ExtendsBy added derived (derived.attempt addition).2 := by
  rcases attempt_cases derived addition with ⟨-, heq⟩ | ⟨-, derived', heq, hadd⟩
  · rw [heq]
    exact ⟨[], .refl derived⟩
  · rw [heq]
    exact ⟨[addition.name], extendsBy_of_add? hadd⟩

/-- Names and places stay as they should be. -/
theorem ExtendsBy.consistent {added : List String} (h : ExtendsBy added derived derived')
    (hderived : derived.Consistent) : derived'.Consistent := by
  refine .of_names (h.nodup hderived.nodup) fun name hname => ?_
  rw [h.reserved_eq]
  rcases h.not_reserved name hname with hold | hnew
  · exact hderived.not_mem_reserved name hold
  · exact hnew

/-- An addition fails for one reason only, and then nothing has changed. -/
theorem attempt_error {error : Error} (h : (derived.attempt addition).1 = .error error) :
    error = .malformedNode addition.node (.nameInUse addition.name) ∧
      (derived.attempt addition).2 = derived := by
  rcases attempt_cases derived addition with ⟨-, heq⟩ | ⟨-, derived', heq, -⟩
  · rw [heq] at h ⊢
    exact ⟨(Except.error.inj h).symm, rfl⟩
  · rw [heq] at h
    cases h

/-- **When an addition fails.** -/
theorem exists_error_attempt_iff (h : derived.Consistent) :
    (∃ error, (derived.attempt addition).1 = .error error) ↔
      addition.name ∈ derived.reserved ∨ ∃ previous,
        derived.get? addition.name = some previous ∧
          previous.sameValues addition.tensor = false := by
  rw [← conflicts_iff h]
  rcases attempt_cases derived addition with ⟨hconflict, heq⟩ | ⟨hfree, derived', heq, -⟩
  · simp [hconflict, heq]
  · simp [hfree, heq]

/-- An addition that succeeds finds an equal tensor under its name, and its own if the name is new. -/
theorem exists_get?_attempt (hnumbers : addition.tensor.elements.NaNFree)
    (h : (derived.attempt addition).1 = .ok ()) :
    ∃ stored, (derived.attempt addition).2.get? addition.name = some stored ∧
      stored.sameValues addition.tensor = true ∧
      (addition.name ∉ derived.names → stored = addition.tensor) := by
  rcases attempt_cases derived addition with ⟨-, heq⟩ | ⟨-, derived', heq, hadd⟩
  · rw [heq] at h
    cases h
  · rw [heq]
    rcases add?_cases hadd with ⟨hknown, rfl, previous, hget, hsame⟩ | ⟨hnew, -, rfl⟩
    · exact ⟨previous, hget, hsame, fun hnew => absurd hknown hnew⟩
    · refine ⟨addition.tensor, ?_, Tensor.sameValues_self hnumbers, fun _ => rfl⟩
      rw [get?_put hnew, get?_eq_none_iff.mpr hnew, if_pos rfl]
      rfl

/-! ### Any number of additions -/

/-- The constants after additions one after the other, whatever becomes of each. -/
def attemptAll (derived : Derived) (additions : List Addition) : Derived :=
  additions.foldl (fun derived addition => (derived.attempt addition).2) derived

theorem attemptAll_append (derived : Derived) (earlier later : List Addition) (addition : Addition) :
    derived.attemptAll (earlier ++ addition :: later)
      = ((derived.attemptAll earlier).attempt addition).2.attemptAll later :=
  List.foldl_append

/-- **Additions only ever add.** -/
theorem extendsBy_attemptAll (derived : Derived) (additions : List Addition) :
    ∃ added, ExtendsBy added derived (derived.attemptAll additions) := by
  induction additions generalizing derived with
  | nil => exact ⟨[], .refl derived⟩
  | cons addition rest ih =>
    obtain ⟨first, hfirst⟩ := extendsBy_attempt derived addition
    obtain ⟨others, hothers⟩ := ih (derived.attempt addition).2
    exact ⟨first ++ others, hfirst.trans hothers⟩

/-- **Whatever is asked for, the constants stay consistent, and an addition takes place or does not.**
From no constants, let any additions be attempted, of tensors of numbers.  In the end, the names are
distinct and none is taken, and the table of places is right.  Each of the additions that succeeded
finds its tensor in the end: one of the same values, the very same one if the name was new at that
time or if the tensor is the only one with its values.  Each that was refused left the constants as
they were, and an addition is refused exactly if its name is taken, or stands for another tensor by
then. -/
theorem attemptAll_consistent (reserved : List String) (additions : List Addition)
    (hnumbers : ∀ addition ∈ additions, addition.tensor.elements.NaNFree) :
    let final := (empty reserved).attemptAll additions
    final.Consistent ∧ final.reserved = reserved ∧
      ∀ earlier addition later, additions = earlier ++ addition :: later →
        let before := (empty reserved).attemptAll earlier
        ((before.attempt addition).1 = .ok () →
          ∃ stored, final.get? addition.name = some stored ∧
            stored.sameValues addition.tensor = true ∧
            (addition.name ∉ before.names ∨ addition.tensor.Rigid → stored = addition.tensor)) ∧
        (∀ error, (before.attempt addition).1 = .error error →
          error = .malformedNode addition.node (.nameInUse addition.name) ∧
            (before.attempt addition).2 = before) ∧
        ((∃ error, (before.attempt addition).1 = .error error) ↔
          addition.name ∈ reserved ∨ ∃ previous, before.get? addition.name = some previous ∧
            previous.sameValues addition.tensor = false) := by
  have hempty := consistent_empty reserved
  obtain ⟨_, hfinal⟩ := extendsBy_attemptAll (empty reserved) additions
  refine ⟨hfinal.consistent hempty, hfinal.reserved_eq, ?_⟩
  rintro earlier addition later rfl
  obtain ⟨_, hearlier⟩ := extendsBy_attemptAll (empty reserved) earlier
  refine ⟨fun hok => ?_, fun error => attempt_error, ?_⟩
  · have hmem : addition ∈ earlier ++ addition :: later :=
      List.mem_append_right _ List.mem_cons_self
    obtain ⟨stored, hget, hsame, hnew⟩ := exists_get?_attempt (hnumbers addition hmem) hok
    obtain ⟨_, hlater⟩ := extendsBy_attemptAll _ later
    refine ⟨stored, ?_, hsame, ?_⟩
    · rw [attemptAll_append]
      exact hlater.get?_eq _ _ hget
    · rintro (hname | hrigid)
      · exact hnew hname
      · exact hrigid stored hsame
  · rw [exists_error_attempt_iff (hearlier.consistent hempty), hearlier.reserved_eq]
    rfl

/-- Two additions of one tensor, one of another tensor under their name, and one under a name that is
taken. -/
def clashing : List Addition :=
  [⟨"n", "s", .scalarReal (.powerOfTwo 1)⟩, ⟨"n", "s", .scalarReal (.powerOfTwo 1)⟩,
    ⟨"n", "s", .scalarReal (.powerOfTwo 2)⟩, ⟨"n", "w", .scalarReal (.powerOfTwo 0)⟩]

theorem attemptAll_consistent_clashing :
    (∀ addition ∈ clashing, addition.tensor.elements.NaNFree) ∧
      ((empty ["w"]).attemptAll clashing).Consistent ∧
      ((empty ["w"]).attemptAll clashing).get? "s" = some (.scalarReal (.powerOfTwo 1)) ∧
      (∃ error, (((empty ["w"]).attemptAll (clashing.take 2)).attempt
        ⟨"n", "s", .scalarReal (.powerOfTwo 2)⟩).1 = .error error) ∧
      ∃ error, (((empty ["w"]).attemptAll (clashing.take 3)).attempt
        ⟨"n", "w", .scalarReal (.powerOfTwo 0)⟩).1 = .error error := by
  have hnumbers : ∀ addition ∈ clashing, addition.tensor.elements.NaNFree := by decide +kernel
  obtain ⟨hconsistent, -, hattempts⟩ := attemptAll_consistent ["w"] clashing hnumbers
  obtain ⟨hagain, -, -⟩ := hattempts (clashing.take 1) _ (clashing.drop 2) rfl
  obtain ⟨-, -, hother⟩ := hattempts (clashing.take 2) _ (clashing.drop 3) rfl
  obtain ⟨-, -, htaken⟩ := hattempts (clashing.take 3) _ [] rfl
  refine ⟨hnumbers, hconsistent, ?_, ?_, ?_⟩
  · obtain ⟨stored, hget, -, hsame⟩ := hagain (by decide +kernel)
    have hvalue := Binary64.denotes_powerOfTwo (by decide : -1023 ≤ 1) (by decide)
    exact hget.trans (congrArg some (hsame (.inr (Tensor.rigid_scalarReal hvalue (zpow_two_pos 1)))))
  · exact hother.mpr (.inr ⟨.scalarReal (.powerOfTwo 1), by decide +kernel, by decide +kernel⟩)
  · exact htaken.mpr (.inl (by decide))

end Derived

end DyadicNet.Quantize
