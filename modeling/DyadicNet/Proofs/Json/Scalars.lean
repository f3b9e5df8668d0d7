import Mathlib
import DyadicNet.Json.Parser
import DyadicNet.Json.Printer
import DyadicNet.Proofs.Decimal.Layout

/-!
# Scalars read back

What is written for a string or a number is read back, and the reading **stops where the writing
did**.  A string ends with its quote whatever follows.  A number ends where no digit, no point and
no exponent follows, so a statement about it says what may come next.

## Main Definitions

* `EndsNumber` — that a text does not go on with a number;
* `IsScalar` — the values without parts that the writer can write: a decimal among them is written
  as a number, and not as an integer.

## Main Statements

* `text?_escaped` — strings;
* `number?_chars` — numerals;
* `scalar?_scalarChars` — **a written scalar is read back**.
-/

namespace DyadicNet.Json

open Reader

/-! ### Characters of strings -/

theorem hexValue?_digitChar {d : ℕ} (h : d < 16) : hexValue? (Nat.digitChar d) = some d := by
  interval_cases d <;> decide

/-- Four hexadecimal digits are read back. -/
theorem fourHex?_fourHex {n : ℕ} (h : n < 0x10000) (rest : List Char) :
    fourHex? (fourHex n ++ rest) = some (n, rest) := by
  have hdigit : ∀ k, hexValue? (Nat.digitChar (k % 16)) = some (k % 16) := fun k =>
    hexValue?_digitChar (Nat.mod_lt k (by decide))
  show (do
    let a ← hexValue? (Nat.digitChar (n / 4096 % 16))
    let b ← hexValue? (Nat.digitChar (n / 256 % 16))
    let c ← hexValue? (Nat.digitChar (n / 16 % 16))
    let d ← hexValue? (Nat.digitChar (n % 16))
    some (((a * 16 + b) * 16 + c) * 16 + d, rest)) = some (n, rest)
  simp only [hdigit, Option.bind_eq_bind, Option.bind_some, Option.some.injEq, Prod.mk.injEq,
    and_true]
  omega

/-- **A written character is read as its code unit.** -/
theorem units_escape (c : Char) (fuel : ℕ) (rest : List Char) :
    units (fuel + 1) (escape c ++ rest)
      = (units fuel rest).map fun (following, after) => (c.toNat :: following, after) := by
  have hmap : ∀ unit : ℕ, (do
      let (following, after) ← units fuel rest
      some (unit :: following, after))
        = (units fuel rest).map fun (following, after) => (unit :: following, after) := by
    intro unit
    cases units fuel rest <;> rfl
  unfold escape
  split_ifs with hquote hslash hback hfeed hline hreturn htab hcontrol
  · subst hquote; exact hmap _
  · subst hslash; exact hmap _
  · subst hback; exact hmap _
  · subst hfeed; exact hmap _
  · subst hline; exact hmap _
  · subst hreturn; exact hmap _
  · subst htab; exact hmap _
  · rw [← hmap, List.cons_append, List.cons_append, units, fourHex?_fourHex (by omega)]
    rfl
  · rw [← hmap, List.singleton_append, units]
    · rw [if_neg (by simp [hcontrol, hslash])]
    · exact hquote
    · exact fun _ heq => absurd heq hslash
    · exact fun _ _ heq => absurd heq hslash

theorem length_escape_pos (c : Char) : 0 < (escape c).length := by
  unfold escape
  split_ifs <;> exact Nat.succ_pos _

/-- A written string is read as its code units, up to the closing quote. -/
theorem units_escaped (chars : List Char) {fuel : ℕ} (h : chars.length < fuel) (rest : List Char) :
    units fuel (chars.flatMap escape ++ '"' :: rest) = some (chars.map Char.toNat, rest) := by
  induction chars generalizing fuel with
  | nil =>
    obtain ⟨fuel, rfl⟩ := Nat.exists_eq_succ_of_ne_zero (Nat.ne_zero_of_lt h)
    rfl
  | cons c chars ih =>
    obtain ⟨fuel, rfl⟩ := Nat.exists_eq_succ_of_ne_zero (Nat.ne_zero_of_lt h)
    rw [List.flatMap_cons, List.append_assoc, units_escape, ih (Nat.lt_of_succ_lt_succ h)]
    rfl

/-- A unit that is no half of a pair stands for a character. -/
theorem joinPairs_cons {unit : ℕ} (h : ¬(0xd800 ≤ unit ∧ unit < 0xe000)) (units : List ℕ) :
    joinPairs (unit :: units) = (joinPairs units).map (Char.ofNat unit :: ·) := by
  cases units with
  | nil =>
    calc joinPairs [unit] = some [Char.ofNat unit] := by rw [joinPairs, if_neg h]
      _ = (joinPairs []).map (Char.ofNat unit :: ·) := rfl
  | cons next units =>
    rw [joinPairs, if_neg (by omega), if_neg (by omega)]

/-- The code units of characters stand for these characters: none is a half of a pair. -/
theorem joinPairs_map_toNat (chars : List Char) :
    joinPairs (chars.map Char.toNat) = some chars := by
  induction chars with
  | nil => rfl
  | cons c chars ih =>
    have hvalid : ¬(0xd800 ≤ c.toNat ∧ c.toNat < 0xe000) := by
      have : c.toNat < 0xd800 ∨ 0xdfff < c.toNat ∧ c.toNat < 0x110000 := c.valid
      omega
    rw [List.map_cons, joinPairs_cons hvalid, ih, Char.ofNat_toNat]
    rfl

/-- **A written string is read back.** -/
theorem text?_escaped (s : String) (rest : List Char) :
    text? (s.toList.flatMap escape ++ '"' :: rest) = some (some s, rest) := by
  have hlength : s.toList.length ≤ (s.toList.flatMap escape).length := by
    generalize s.toList = chars
    induction chars with
    | nil => exact le_rfl
    | cons c chars ih =>
      have hpos := length_escape_pos c
      rw [List.flatMap_cons, List.length_append, List.length_cons]
      omega
  have hfuel : s.toList.length < (s.toList.flatMap escape ++ '"' :: rest).length + 1 := by
    rw [List.length_append]
    omega
  rw [text?, units_escaped s.toList hfuel, Option.map_some]
  dsimp only
  rw [joinPairs_map_toNat, Option.map_some, String.ofList_toList]

/-! ### Numbers -/

/-- A text does not go on with a digit, a point or an exponent. -/
def EndsNumber (rest : List Char) : Prop :=
  ∀ c ∈ rest.head?, c.isDigit = false ∧ c ≠ '.' ∧ c ≠ 'e' ∧ c ≠ 'E'

theorem EndsNumber.endsDigits {rest : List Char} (h : EndsNumber rest) : EndsDigits rest :=
  fun c hc => (h c hc).1

theorem endsNumber_nil : EndsNumber [] :=
  fun _ hc => nomatch hc

theorem endsNumber_cons {c : Char} (h : c.isDigit = false ∧ c ≠ '.' ∧ c ≠ 'e' ∧ c ≠ 'E')
    (rest : List Char) : EndsNumber (c :: rest) := by
  intro other hother
  obtain rfl : c = other := Option.some.inj hother
  exact h

/-- A digit other than zero has a character other than that of zero. -/
theorem digitChar_ne_zero {d : ℕ} (hd : d < 10) (h : d ≠ 0) : Nat.digitChar d ≠ '0' := by
  intro heq
  have hcode := Nat.toNat_digitChar_of_lt_ten hd
  rw [heq] at hcode
  exact h (by simpa using hcode)

theorem whole?_digitChars {whole : List ℕ} (h : whole = [0] ∨ Leads whole)
    (hdigits : AreDigits whole) {rest : List Char} (hrest : EndsDigits rest) :
    whole? (digitChars whole ++ rest) = some (whole, rest) := by
  rcases h with rfl | ⟨d, tail, rfl, hd⟩
  · rfl
  · have hne : Nat.digitChar d ≠ '0' := digitChar_ne_zero (hdigits d List.mem_cons_self) hd
    have hread := takeDigits_digitChars hdigits hrest
    rw [whole?, hread]
    intro tail' heq
    exact hne (List.cons.inj heq).1

/-- The characters after the whole digits of a numeral. -/
def fractionChars (fraction : List ℕ) : List Char :=
  if fraction.isEmpty then [] else '.' :: digitChars fraction

theorem fraction?_fractionChars {fraction : List ℕ} (hdigits : AreDigits fraction)
    {rest : List Char} (hrest : EndsDigits rest) (hpoint : rest.head? ≠ some '.') :
    fraction? (fractionChars fraction ++ rest) = some (fraction, rest) := by
  cases fraction with
  | nil =>
    show fraction? rest = some ([], rest)
    rw [fraction?]
    rintro tail rfl
    exact hpoint rfl
  | cons d tail =>
    have hread := takeDigits_digitChars hdigits hrest
    show fraction? ('.' :: (digitChars (d :: tail) ++ rest)) = some (d :: tail, rest)
    rw [fraction?, hread]

theorem exponent?_exponentChars (e : ℤ) {rest : List Char} (hrest : EndsDigits rest) :
    exponent? (Numeral.exponentChars true e ++ rest) = some (some e, rest) := by
  have hread := takeDigits_digitChars (areDigits_decimalDigits e.natAbs) hrest
  have hvalue := ofDigits_decimalDigits e.natAbs
  obtain ⟨d, digits, hcons⟩ := List.exists_cons_of_ne_nil (decimalDigits_ne_nil e.natAbs)
  unfold Numeral.exponentChars
  dsimp only
  rw [hcons] at hread hvalue ⊢
  by_cases hsign : e < 0
  · rw [if_pos hsign]
    show exponent? ('e' :: '-' :: (digitChars (d :: digits) ++ rest)) = some (some e, rest)
    rw [exponent?, if_pos (.inl rfl)]
    dsimp only
    rw [hread]
    dsimp only
    rw [if_pos rfl, hvalue, Int.ofNat_natAbs_of_nonpos hsign.le, neg_neg]
  · rw [if_neg hsign, if_pos rfl]
    show exponent? ('e' :: '+' :: (digitChars (d :: digits) ++ rest)) = some (some e, rest)
    rw [exponent?, if_pos (.inl rfl)]
    dsimp only
    rw [hread]
    dsimp only
    rw [if_neg Bool.false_ne_true, hvalue, Int.natAbs_of_nonneg (not_lt.mp hsign)]

/-- A missing exponent is seen from what follows. -/
theorem exponent?_of_endsNumber {rest : List Char} (h : EndsNumber rest) :
    exponent? rest = some (none, rest) := by
  cases rest with
  | nil => rfl
  | cons c rest =>
    obtain ⟨-, -, hlower, hupper⟩ := h c rfl
    exact if_neg (not_or.mpr ⟨hlower, hupper⟩)

/-- The value of a numeral: an integer, unless it is marked as something else or is minus zero. -/
def ofNumeral (x : Numeral) : Json :=
  if x.fraction.isEmpty && x.exponent.isNone && !(x.negative && (ofDigits x.whole : ℤ) == 0) then
    .integer (if x.negative then -(ofDigits x.whole : ℤ) else ofDigits x.whole)
  else .decimal x

/-- There is a digit in front of the point. -/
theorem exists_digit {x : Numeral} (h : x.IsPlain) :
    ∃ d digits, x.whole = d :: digits ∧ (Nat.digitChar d).isDigit = true := by
  obtain ⟨d, digits, hwhole⟩ : ∃ d digits, x.whole = d :: digits := by
    rcases h.whole with hzero | hleads
    · exact ⟨0, [], hzero⟩
    · exact List.exists_cons_of_ne_nil hleads.ne_nil
  refine ⟨d, digits, hwhole, ?_⟩
  rw [Nat.isDigit_digitChar]
  exact decide_eq_true (h.digits d (List.mem_append_left _ (hwhole ▸ List.mem_cons_self)))

/-- **A written numeral is read back**, up to what does not go on with it. -/
theorem number?_chars {x : Numeral} (h : x.IsPlain) {rest : List Char} (hrest : EndsNumber rest) :
    number? (x.chars true ++ rest) = some (ofNumeral x, rest) := by
  obtain ⟨negative, whole, fraction, exponent⟩ := x
  have hwhole : AreDigits whole := fun d hd => h.digits d (List.mem_append_left _ hd)
  have hfraction : AreDigits fraction := fun d hd => h.digits d (List.mem_append_right _ hd)
  set last := (exponent.map (Numeral.exponentChars true)).getD [] ++ rest with hlast
  have hexponent : exponent? last = some (exponent, rest) := by
    cases exponent with
    | none => exact exponent?_of_endsNumber hrest
    | some e => exact exponent?_exponentChars e hrest.endsDigits
  have hends : EndsDigits last ∧ last.head? ≠ some '.' := by
    cases exponent with
    | none => exact ⟨hrest.endsDigits, fun hpoint => (hrest '.' hpoint).2.1 rfl⟩
    | some e =>
      refine ⟨fun c hc => ?_, fun hpoint => ?_⟩
      · obtain rfl : 'e' = c := Option.some.inj hc
        rfl
      · exact absurd (Option.some.inj hpoint) (by decide)
  have hfractionRead := fraction?_fractionChars hfraction hends.1 hends.2
  have hwholeRead : whole? (digitChars whole ++ (fractionChars fraction ++ last))
      = some (whole, fractionChars fraction ++ last) := by
    refine whole?_digitChars h.whole hwhole ?_
    cases fraction with
    | nil => exact hends.1
    | cons d tail =>
      intro c hc
      obtain rfl : '.' = c := Option.some.inj hc
      rfl
  have hminus : ∀ tail, digitChars whole ++ (fractionChars fraction ++ last) ≠ '-' :: tail := by
    intro tail heq
    obtain ⟨d, digits, rfl, hdigit⟩ := exists_digit h
    rw [(List.cons.inj heq).1] at hdigit
    cases hdigit
  have hchars : Numeral.chars true ⟨negative, whole, fraction, exponent⟩ ++ rest
      = (if negative then ['-'] else [])
        ++ (digitChars whole ++ (fractionChars fraction ++ last)) := by
    rw [hlast]
    simp only [Numeral.chars, fractionChars, List.append_assoc]
  rw [hchars]
  cases negative with
  | true =>
    rw [if_pos rfl, List.singleton_append, number?]
    simp only [hwholeRead, hfractionRead, hexponent, Option.bind_eq_bind, Option.bind_some]
    exact (apply_ite (fun j => some (j, rest)) _ _ _).symm
  | false =>
    rw [if_neg Bool.false_ne_true, List.nil_append, number?]
    · simp only [hwholeRead, hfractionRead, hexponent, Option.bind_eq_bind, Option.bind_some]
      exact (apply_ite (fun j => some (j, rest)) _ _ _).symm
    · exact hminus

/-! ### Scalars -/

/-- The values without parts that are written so that they can be told apart: a decimal is written
as a number and shows that it is not an integer. -/
inductive IsScalar : Json → Prop
  | null : IsScalar .null
  | bool (value : Bool) : IsScalar (.bool value)
  | integer (value : ℤ) : IsScalar (.integer value)
  | decimal {value : Numeral} (plain : value.IsPlain) (marked : value.IsMarked) :
      IsScalar (.decimal value)
  | string (value : String) : IsScalar (.string value)

theorem ofNumeral_of_isMarked {x : Numeral} (h : x.IsMarked) : ofNumeral x = .decimal x := by
  unfold ofNumeral
  rw [if_neg]
  rintro hinteger
  simp only [Bool.and_eq_true, List.isEmpty_iff, Option.isNone_iff_eq_none] at hinteger
  rcases h with hfraction | hexponent
  · exact hfraction hinteger.1.1
  · rw [hinteger.1.2] at hexponent
    cases hexponent

/-- An integer is written as a numeral with neither point nor exponent. -/
theorem exists_integer_numeral (n : ℤ) :
    ∃ x : Numeral, x.IsPlain ∧ scalarChars (.integer n) = x.chars true
      ∧ ofNumeral x = .integer n := by
  refine ⟨⟨decide (n < 0), decimalDigits n.natAbs, [], none⟩, ⟨?_, ?_⟩, ?_, ?_⟩
  · by_cases hzero : n.natAbs = 0
    · exact .inl (by rw [hzero, decimalDigits_zero])
    · exact .inr (leads_decimalDigits hzero)
  · rw [List.append_nil]
    exact areDigits_decimalDigits _
  · simp [scalarChars, Numeral.chars]
  · have hinteger : 0 ≤ n ∨ ¬n = 0 := by omega
    unfold ofNumeral
    dsimp only
    rw [ofDigits_decimalDigits, if_pos (by simpa using hinteger)]
    congr 1
    simp only [decide_eq_true_eq]
    split_ifs <;> omega

/-- The first character of a numeral is a minus sign or a digit. -/
theorem exists_chars_eq_cons {x : Numeral} (h : x.IsPlain) :
    ∃ c tail, x.chars true = c :: tail ∧ (c = '-' ∨ c.isDigit = true) := by
  obtain ⟨d, digits, hwhole, hdigit⟩ := exists_digit h
  obtain ⟨negative, whole, fraction, exponent⟩ := x
  obtain rfl : whole = d :: digits := hwhole
  cases negative with
  | true => exact ⟨'-', _, rfl, .inl rfl⟩
  | false => exact ⟨Nat.digitChar d, _, rfl, .inr hdigit⟩

/-- A number starts unlike everything else. -/
theorem ne_of_startsNumber {c other : Char} (h : c = '-' ∨ c.isDigit = true)
    (hother : other ≠ '-' ∧ other.isDigit = false) : c ≠ other := by
  rintro rfl
  rcases h with hminus | hdigit
  · exact hother.1 hminus
  · rw [hother.2] at hdigit
    cases hdigit

theorem scalar?_eq_number? {c : Char} (h : c = '-' ∨ c.isDigit = true) (tail : List Char) :
    scalar? (c :: tail) = number? (c :: tail) := by
  rw [scalar?]
  · exact fun _ heq => ne_of_startsNumber h (by decide) (List.cons.inj heq).1
  · exact fun _ heq => ne_of_startsNumber h (by decide) (List.cons.inj heq).1
  · exact fun _ heq => ne_of_startsNumber h (by decide) (List.cons.inj heq).1
  · exact fun _ heq => ne_of_startsNumber h (by decide) (List.cons.inj heq).1

theorem scalar?_chars {x : Numeral} (h : x.IsPlain) {rest : List Char} (hrest : EndsNumber rest) :
    scalar? (x.chars true ++ rest) = some (ofNumeral x, rest) := by
  obtain ⟨c, tail, hchars, hc⟩ := exists_chars_eq_cons h
  rw [← number?_chars h hrest, hchars, List.cons_append]
  exact scalar?_eq_number? hc _

/-- **A written scalar is read back**, up to what does not go on with a number. -/
theorem scalar?_scalarChars {j : Json} (h : IsScalar j) {rest : List Char}
    (hrest : EndsNumber rest) : scalar? (scalarChars j ++ rest) = some (j, rest) := by
  cases h with
  | null => rfl
  | bool value => cases value <;> rfl
  | integer n =>
    obtain ⟨x, hplain, hchars, hvalue⟩ := exists_integer_numeral n
    rw [hchars, scalar?_chars hplain hrest, hvalue]
  | decimal hplain hmarked =>
    show scalar? (Numeral.chars true _ ++ rest) = _
    rw [scalar?_chars hplain hrest, ofNumeral_of_isMarked hmarked]
  | string s =>
    have hchars : scalarChars (.string s) ++ rest
        = '"' :: (s.toList.flatMap escape ++ '"' :: rest) := by
      rw [scalarChars, quoted, List.cons_append, List.append_assoc]
      rfl
    rw [hchars, scalar?, text?_escaped]
    rfl

theorem isScalar_ofReal (x : Binary64) : IsScalar (ofReal x) := by
  unfold ofReal
  split
  · next numeral hnumeral =>
    exact .decimal (Layout.isPlain_of_numeral? hnumeral) (Layout.isMarked_of_numeral? rfl hnumeral)
  · exact .null

end DyadicNet.Json
