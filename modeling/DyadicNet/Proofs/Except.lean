import Mathlib

/-!
# Computations that can fail

A computation in steps succeeds exactly if each of its steps does.  The lemmas here take a success
apart, one step at a time, so that no proof about such a computation looks at its failures.

Two computations that do the same with different data **agree** if both fail, or both succeed with
related results.  Agreement goes through the steps like equality does, and forgets which error it
was.

Which error a computation ends with matters only as far as it is of a certain kind.  A computation
in steps **avoids** a set of errors if each of its steps does.

## Main Definitions

* `Agree` — agreement up to a relation of the results;
* `Avoids` — that a computation does not fail with an error of a set.

## Main Statements

* `bind_eq_ok_iff`, `map_eq_ok_iff`, `mapError_eq_ok_iff`, `check_eq_ok_iff` — what a success
  consists of;
* `Agree.bind` — agreement in steps;
* `Agree.of_iff` — agreement of computations with the same successes;
* `Avoids.bind` — a computation in steps avoids what its steps avoid.
-/

namespace DyadicNet

variable {ε ε' α β γ : Type}

theorem bind_eq_ok_iff {x : Except ε α} {f : α → Except ε β} {b : β} :
    (x >>= f) = .ok b ↔ ∃ a, x = .ok a ∧ f a = .ok b := by
  cases x with
  | error e => simp [Bind.bind, Except.bind]
  | ok a => simp [Bind.bind, Except.bind]

theorem ok_bind (a : α) (f : α → Except ε β) : (Except.ok a >>= f) = f a := rfl

/-- A step that did not succeed has no rest that matters. -/
theorem bind_congr_ok {x : Except ε α} {f g : α → Except ε β} (h : ∀ a, x = .ok a → f a = g a) :
    (x >>= f) = (x >>= g) := by
  cases x with
  | error e => rfl
  | ok a => exact h a rfl

theorem map_eq_ok_iff {x : Except ε α} {f : α → β} {b : β} :
    x.map f = .ok b ↔ ∃ a, x = .ok a ∧ f a = b := by
  cases x <;> simp [Except.map]

/-- What a result was paired with can be left out again. -/
theorem fst_map_pair (x : Except ε α) (b : β) : Prod.fst <$> ((fun a => (a, b)) <$> x) = x := by
  cases x <;> rfl

theorem mapError_eq_ok_iff {x : Except ε α} {f : ε → ε'} {a : α} :
    x.mapError f = .ok a ↔ x = .ok a := by
  cases x <;> simp [Except.mapError]

theorem toOption_eq_some_iff {x : Except ε α} {a : α} : x.toOption = some a ↔ x = .ok a := by
  cases x <;> simp [Except.toOption]

/-- A success that is seen by computation. -/
theorem exists_of_isOk {x : Except ε α} (h : x.isOk = true) : ∃ a, x = .ok a := by
  cases x with
  | error e => cases h
  | ok a => exact ⟨a, rfl⟩

/-- A check that stops a computation has not stopped one that succeeds. -/
theorem check_eq_ok_iff {c : Prop} [Decidable c] {e : ε} {f : α → Except ε β} {x : Except ε β}
    {b : β} : (if c then .error e >>= f else x) = .ok b ↔ ¬c ∧ x = .ok b := by
  split_ifs with h
  · constructor
    · intro herror
      cases herror
    · intro hok
      exact absurd h hok.1
  · exact ⟨fun hok => ⟨h, hok⟩, fun hok => hok.2⟩

/-- Two functions with the same successes succeed on the same lists. -/
theorem mapM_eq_ok_congr {f g : α → Except ε β} (h : ∀ a b, f a = .ok b ↔ g a = .ok b)
    (l : List α) {l' : List β} : l.mapM f = .ok l' ↔ l.mapM g = .ok l' := by
  induction l generalizing l' with
  | nil => rw [List.mapM_nil, List.mapM_nil]
  | cons a rest ih =>
    rw [List.mapM_cons, List.mapM_cons]
    simp only [bind_eq_ok_iff, h, ih]

/-- A function that succeeds on every element of a list succeeds on the list. -/
theorem mapM_eq_ok_map {f : α → Except ε β} {g : α → β} {l : List α}
    (h : ∀ a ∈ l, f a = .ok (g a)) : l.mapM f = .ok (l.map g) := by
  induction l with
  | nil => rfl
  | cons a rest ih =>
    rw [List.mapM_cons, h a List.mem_cons_self, ok_bind,
      ih fun b hb => h b (List.mem_cons_of_mem _ hb)]
    rfl

/-- A function that undoes another one on every element of a list undoes it on the list. -/
theorem mapM_map_eq_ok {f : α → β} {g : β → Except ε α} {l : List α}
    (h : ∀ a ∈ l, g (f a) = .ok a) : (l.map f).mapM g = .ok l := by
  rw [List.mapM_map]
  exact (mapM_eq_ok_map (f := g ∘ f) (g := id) h).trans (by rw [List.map_id])

theorem exists_mapM {f : α → Except ε β} {l : List α} (h : ∀ a ∈ l, ∃ b, f a = .ok b) :
    ∃ l', l.mapM f = .ok l' := by
  induction l with
  | nil => exact ⟨[], rfl⟩
  | cons a rest ih =>
    obtain ⟨b, hb⟩ := h a List.mem_cons_self
    obtain ⟨l', hl'⟩ := ih fun c hc => h c (List.mem_cons_of_mem _ hc)
    exact ⟨b :: l', by rw [List.mapM_cons, hb, ok_bind, hl']; rfl⟩

/-- Every element of the result comes from one of the list. -/
theorem exists_mem_of_mapM {f : α → Except ε β} {l : List α} {l' : List β}
    (h : l.mapM f = .ok l') : ∀ b ∈ l', ∃ a ∈ l, f a = .ok b := by
  induction l generalizing l' with
  | nil =>
    rw [List.mapM_nil] at h
    cases h
    exact fun _ hb => nomatch hb
  | cons a rest ih =>
    rw [List.mapM_cons] at h
    obtain ⟨first, hfirst, h⟩ := bind_eq_ok_iff.mp h
    obtain ⟨others, hothers, h⟩ := bind_eq_ok_iff.mp h
    cases h
    intro b hb
    rcases List.mem_cons.mp hb with rfl | hb
    · exact ⟨a, List.mem_cons_self, hfirst⟩
    · obtain ⟨a', ha', hread⟩ := ih hothers b hb
      exact ⟨a', List.mem_cons_of_mem _ ha', hread⟩

/-- A function that succeeds on a list succeeds on each of its elements. -/
theorem exists_ok_of_mapM {f : α → Except ε β} {l : List α} {l' : List β}
    (h : l.mapM f = .ok l') : ∀ a ∈ l, ∃ b, f a = .ok b := by
  induction l generalizing l' with
  | nil => exact fun _ ha => nomatch ha
  | cons a rest ih =>
    rw [List.mapM_cons] at h
    obtain ⟨first, hfirst, h⟩ := bind_eq_ok_iff.mp h
    obtain ⟨others, hothers, -⟩ := bind_eq_ok_iff.mp h
    intro a' ha'
    rcases List.mem_cons.mp ha' with rfl | ha'
    · exact ⟨first, hfirst⟩
    · exact ih hothers a' ha'

/-- And its results are those of the elements. -/
theorem mem_of_mapM {f : α → Except ε β} {l : List α} {l' : List β} (h : l.mapM f = .ok l') {a : α}
    {b : β} (ha : a ∈ l) (hb : f a = .ok b) : b ∈ l' := by
  induction l generalizing l' with
  | nil => cases ha
  | cons c rest ih =>
    rw [List.mapM_cons] at h
    obtain ⟨first, hfirst, h⟩ := bind_eq_ok_iff.mp h
    obtain ⟨others, hothers, h⟩ := bind_eq_ok_iff.mp h
    cases h
    rcases List.mem_cons.mp ha with rfl | ha
    · obtain rfl := Except.ok.inj (hfirst.symm.trans hb)
      exact List.mem_cons_self
    · exact List.mem_cons_of_mem _ (ih hothers ha)

theorem length_of_mapM {f : α → Except ε β} {l : List α} {l' : List β} (h : l.mapM f = .ok l') :
    l'.length = l.length := by
  induction l generalizing l' with
  | nil =>
    cases h
    rfl
  | cons a rest ih =>
    rw [List.mapM_cons] at h
    obtain ⟨first, -, h⟩ := bind_eq_ok_iff.mp h
    obtain ⟨others, hothers, h⟩ := bind_eq_ok_iff.mp h
    cases h
    rw [List.length_cons, List.length_cons, ih hothers]

/-- A function after one that succeeds on a list. -/
theorem mapM_map_of_eq_ok (g : β → γ) {f : α → Except ε β} {l : List α} {l' : List β}
    (h : l.mapM f = .ok l') : l.mapM (fun a => g <$> f a) = .ok (l'.map g) := by
  induction l generalizing l' with
  | nil =>
    cases h
    rfl
  | cons a rest ih =>
    rw [List.mapM_cons] at h
    obtain ⟨first, hfirst, h⟩ := bind_eq_ok_iff.mp h
    obtain ⟨others, hothers, h⟩ := bind_eq_ok_iff.mp h
    cases h
    rw [List.mapM_cons, hfirst, ih hothers]
    rfl

/-- A function of each result can be applied to the results together. -/
theorem mapM_map (g : β → γ) (f : α → Except ε β) (l : List α) :
    l.mapM (fun a => g <$> f a) = List.map g <$> l.mapM f := by
  induction l with
  | nil => rfl
  | cons a rest ih =>
    rw [List.mapM_cons, List.mapM_cons, ih]
    cases f a with
    | error e => rfl
    | ok b => cases rest.mapM f <;> rfl

/-- Computations that have been made succeed together if each of them has. -/
theorem mapM_id_eq_ok_iff {l : List (Except ε α)} {l' : List α} :
    l.mapM id = .ok l' ↔ l = l'.map .ok := by
  induction l generalizing l' with
  | nil =>
    rw [List.mapM_nil]
    constructor
    · intro h
      cases h
      rfl
    · intro h
      rw [List.map_eq_nil_iff.mp h.symm]
      rfl
  | cons x rest ih =>
    rw [List.mapM_cons]
    simp only [bind_eq_ok_iff, ih, id]
    constructor
    · rintro ⟨a, rfl, others, rfl, h⟩
      cases h
      rfl
    · intro h
      cases l' with
      | nil => cases h
      | cons a others =>
        obtain ⟨rfl, rfl⟩ := List.cons.inj h
        exact ⟨a, rfl, others, rfl, rfl⟩

/-- What each step of a fold keeps, the fold keeps. -/
theorem invariant_of_foldlM {P : β → Prop} {step : β → α → Except ε β} {l : List α}
    {start final : β} (hstep : ∀ b a b', P b → step b a = .ok b' → P b') (hstart : P start)
    (h : l.foldlM step start = .ok final) : P final := by
  induction l generalizing start with
  | nil =>
    cases h
    exact hstart
  | cons a rest ih =>
    rw [List.foldlM_cons] at h
    obtain ⟨next, hnext, h⟩ := bind_eq_ok_iff.mp h
    exact ih (hstep start a next hstart hnext) h

/-- A fold whose steps go along with a function of the state goes along with it. -/
theorem foldlM_map {step : β → α → Except ε β} {step' : γ → α → Except ε γ} {g : β → γ}
    (h : ∀ b a, step' (g b) a = g <$> step b a) (l : List α) (b : β) :
    l.foldlM step' (g b) = g <$> l.foldlM step b := by
  induction l generalizing b with
  | nil => rfl
  | cons a rest ih =>
    rw [List.foldlM_cons, List.foldlM_cons, h]
    cases step b a with
    | error e => rfl
    | ok b' => exact ih b'

/-- What the step for an element brings about and the other steps keep, a fold has brought about for
all elements. -/
theorem forall_of_foldlM {I : β → Prop} {Q : α → β → Prop} {step : β → α → Except ε β} {l : List α}
    {start final : β} (hinv : ∀ b a b', I b → step b a = .ok b' → I b')
    (hmake : ∀ b a b', I b → step b a = .ok b' → Q a b')
    (hkeep : ∀ c b a b', I b → Q c b → step b a = .ok b' → Q c b') (hstart : I start)
    (h : l.foldlM step start = .ok final) : ∀ a ∈ l, Q a final := by
  induction l generalizing start with
  | nil => exact fun _ ha => nomatch ha
  | cons a rest ih =>
    rw [List.foldlM_cons] at h
    obtain ⟨next, hnext, h⟩ := bind_eq_ok_iff.mp h
    refine List.forall_mem_cons.mpr ⟨?_, ih (hinv start a next hstart hnext) h⟩
    exact (invariant_of_foldlM (P := fun b => I b ∧ Q a b)
      (fun b c b' hb hstep => ⟨hinv b c b' hb.1 hstep, hkeep a b c b' hb.1 hb.2 hstep⟩)
      ⟨hinv start a next hstart hnext, hmake start a next hstart hnext⟩ h).2

/-- Steps that leave the state as it is. -/
theorem foldlM_eq_self {step : β → α → Except ε β} {l : List α} {b : β}
    (h : ∀ a ∈ l, step b a = .ok b) : l.foldlM step b = .ok b := by
  induction l with
  | nil => rfl
  | cons a rest ih =>
    rw [List.foldlM_cons, h a List.mem_cons_self, ok_bind]
    exact ih fun c hc => h c (List.mem_cons_of_mem _ hc)

/-- What a fold over the first numbers establishes step by step, if each step succeeds. -/
theorem exists_foldlM_range {P : ℕ → β → Prop} {step : β → ℕ → Except ε β} {n : ℕ} {b : β}
    (hstart : P 0 b) (hstep : ∀ k b, k < n → P k b → ∃ b', step b k = .ok b' ∧ P (k + 1) b') :
    ∃ b', (List.range n).foldlM step b = .ok b' ∧ P n b' := by
  induction n with
  | zero => exact ⟨b, rfl, hstart⟩
  | succ n ih =>
    obtain ⟨b', hfold, hb'⟩ := ih fun k c hk => hstep k c (hk.trans (Nat.lt_succ_self n))
    obtain ⟨b'', hlast, hb''⟩ := hstep n b' (Nat.lt_succ_self n) hb'
    refine ⟨b'', ?_, hb''⟩
    rw [List.range_succ, List.foldlM_append, hfold]
    rw [ok_bind, List.foldlM_cons, hlast]
    rfl

/-! ### Agreement -/

/-- Both computations fail, or both succeed with related results. -/
inductive Agree {ε ε' α β : Type} (R : α → β → Prop) : Except ε α → Except ε' β → Prop
  | ok {a : α} {b : β} (h : R a b) : Agree R (.ok a) (.ok b)
  | error (e : ε) (e' : ε') : Agree R (.error e) (.error e')

namespace Agree

variable {δ : Type} {R : α → β → Prop} {S : γ → δ → Prop} {x : Except ε α} {y : Except ε' β}

/-- Computations agree if their first parts do, and the rests for related results of those. -/
theorem bind {f : α → Except ε γ} {g : β → Except ε' δ} (h : Agree R x y)
    (hrest : ∀ a b, R a b → Agree S (f a) (g b)) : Agree S (x >>= f) (y >>= g) := by
  cases h with
  | ok hab => exact hrest _ _ hab
  | error e e' => exact .error e e'

/-- Computations with the same successes agree up to whatever their results are known to be. -/
theorem of_iff {x : Except ε α} {y : Except ε' α} {R : α → α → Prop}
    (h : ∀ a, x = .ok a ↔ y = .ok a) (hR : ∀ a, x = .ok a → R a a) : Agree R x y := by
  cases x with
  | ok a =>
    rw [(h a).mp rfl]
    exact .ok (hR a rfl)
  | error e =>
    cases y with
    | ok b => exact absurd ((h b).mpr rfl) nofun
    | error e' => exact .error e e'

theorem refl (x : Except ε α) : Agree (· = ·) x x :=
  of_iff (fun _ => Iff.rfl) fun _ _ => rfl

/-- What agrees up to equality is the same for whoever does not look at the error. -/
theorem toOption_eq {x : Except ε α} {y : Except ε' α} (h : Agree (· = ·) x y) :
    x.toOption = y.toOption := by
  cases h with
  | ok hab =>
    rw [hab]
    rfl
  | error e e' => rfl

end Agree

/-! ### Avoidance -/

section Avoiding

variable {P : ε → Prop} {Q : ε' → Prop} {x : Except ε α}

/-- If a computation fails, its error is not one of these. -/
def Avoids (P : ε → Prop) (x : Except ε α) : Prop :=
  ∀ e, x = .error e → ¬P e

theorem avoids_ok (P : ε → Prop) (a : α) : Avoids P (.ok a : Except ε α) :=
  fun _ h => nomatch h

theorem avoids_error {e : ε} (h : ¬P e) : Avoids P (.error e : Except ε α) := by
  rintro e' he
  cases he
  exact h

theorem avoids_of_eq_ok {a : α} (h : x = .ok a) : Avoids P x :=
  h ▸ avoids_ok P a

theorem Avoids.mono {R : ε → Prop} (h : Avoids P x) (hsub : ∀ e, R e → P e) : Avoids R x :=
  fun e he hR => h e he (hsub e hR)

theorem Avoids.bind {f : α → Except ε β} (h : Avoids P x)
    (hrest : ∀ a, x = .ok a → Avoids P (f a)) : Avoids P (x >>= f) := by
  cases x with
  | error e => exact avoids_error (h e rfl)
  | ok a => exact hrest a rfl

theorem Avoids.map (h : Avoids P x) (f : α → β) : Avoids P (f <$> x) := by
  cases x with
  | error e => exact avoids_error (h e rfl)
  | ok a => exact avoids_ok P (f a)

/-- An error that is wrapped is avoided if what it comes from is. -/
theorem Avoids.mapError {f : ε → ε'} (h : Avoids P x) (hf : ∀ e, Q (f e) → P e) :
    Avoids Q (x.mapError f) := by
  cases x with
  | error e => exact avoids_error fun hq => h e rfl (hf e hq)
  | ok a => exact avoids_ok Q a

/-- A kind of error that nothing is wrapped into is avoided anyway. -/
theorem avoids_mapError {f : ε → ε'} (hf : ∀ e, ¬Q (f e)) : Avoids Q (x.mapError f) := by
  cases x with
  | error e => exact avoids_error (hf e)
  | ok a => exact avoids_ok Q a

/-- A check that stops a computation with another error. -/
theorem avoids_check {c : Prop} [Decidable c] {e : ε} {f : β → Except ε α} (he : ¬P e)
    (h : Avoids P x) : Avoids P (if c then .error e >>= f else x) := by
  split_ifs
  · exact avoids_error he
  · exact h

theorem avoids_mapM {f : β → Except ε α} {l : List β} (h : ∀ b ∈ l, Avoids P (f b)) :
    Avoids P (l.mapM f) := by
  induction l with
  | nil =>
    rw [List.mapM_nil]
    exact avoids_ok P _
  | cons b rest ih =>
    rw [List.mapM_cons]
    exact (h b List.mem_cons_self).bind fun _ _ =>
      (ih fun c hc => h c (List.mem_cons_of_mem _ hc)).bind fun _ _ => avoids_ok P _

/-- A fold avoids what each of its steps avoids. -/
theorem avoids_foldlM {step : β → α → Except ε β} {start : β} {l : List α}
    (h : ∀ front a back state, l = front ++ a :: back → front.foldlM step start = .ok state →
      Avoids P (step state a)) : Avoids P (l.foldlM step start) := by
  induction l generalizing start with
  | nil => exact avoids_ok P start
  | cons a rest ih =>
    rw [List.foldlM_cons]
    refine (h [] a rest start rfl rfl).bind fun next hnext => ih ?_
    intro front b back state hsplit hfront
    refine h (a :: front) b back state (by rw [hsplit, List.cons_append]) ?_
    rw [List.foldlM_cons, hnext]
    exact hfront

end Avoiding

end DyadicNet
