import Mathlib
import DyadicNet.Json.Standard
import DyadicNet.Proofs.Json.Scalars
import DyadicNet.Proofs.Json.TextLayer

/-!
# Indented texts read back

The indented form of a value is read back as that value, whatever the depth that it was written at
and whatever follows it, as long as that does not go on with a number.  The reader recurses on a
number of steps, and **each step has a character of its own**: an opening bracket, or the line break
in front of an element.  So as many steps as there are characters suffice.

The line break belongs to the element that follows it, while the reader has skipped it before it
looks for the element.  The statements are about texts up to blanks in front for this reason.

## Main Definitions

* `Reads` — that a value is read back at every depth and in front of every text.

## Main Statements

* `reads_of_written` — **the indented form is read back**;
* `parse_pretty` — and so is a text that consists of it;
* `lawfulTextLayer_standard` — the standard text layer reads what it has written.
-/

namespace DyadicNet.Json

open Reader

/-! ### Blanks -/

/-- A character that a reader does not skip. -/
def IsInk (c : Char) : Prop :=
  (c == ' ' || c == '\n' || c == '\t' || c == '\r') = false

theorem skipBlanks_cons {c : Char} (h : IsInk c) (rest : List Char) :
    skipBlanks (c :: rest) = c :: rest :=
  List.dropWhile_cons_of_neg (Bool.not_eq_true _ ▸ h)

theorem skipBlanks_newLine (depth : ℕ) (rest : List Char) :
    skipBlanks (newLine depth ++ rest) = skipBlanks rest := by
  have hblanks : ∀ c ∈ newLine depth, (c == ' ' || c == '\n' || c == '\t' || c == '\r') = true := by
    intro c hc
    rcases List.mem_cons.mp hc with rfl | hspace
    · rfl
    · rw [List.eq_of_mem_replicate hspace]
      rfl
  exact List.dropWhile_append_of_pos hblanks

theorem skipBlanks_skipBlanks (chars : List Char) :
    skipBlanks (skipBlanks chars) = skipBlanks chars :=
  List.dropWhile_idempotent _ _

/-! ### Reading values back -/

/-- A value is read back at every depth and in front of every text that does not go on with a
number.  Its first character is not skipped and closes no list. -/
structure Reads (j : Json) : Prop where
  starts : ∀ depth, ∃ c tail, j.prettyChars depth = c :: tail ∧ IsInk c ∧ c ≠ ']'
  read : ∀ {depth fuel : ℕ} {chars rest : List Char}, (j.prettyChars depth).length ≤ fuel →
    EndsNumber rest → skipBlanks chars = j.prettyChars depth ++ rest →
    value fuel chars = (some j, some rest)

theorem Reads.skipBlanks_eq {j : Json} (h : Reads j) (depth : ℕ) (rest : List Char) :
    skipBlanks (j.prettyChars depth ++ rest) = j.prettyChars depth ++ rest := by
  obtain ⟨c, tail, hchars, hink, -⟩ := h.starts depth
  rw [hchars, List.cons_append, skipBlanks_cons hink]

theorem exists_steps {chars : List Char} {fuel : ℕ} (hne : chars ≠ [])
    (h : chars.length ≤ fuel) : ∃ steps, fuel = steps + 1 :=
  Nat.exists_eq_succ_of_ne_zero (List.length_pos_iff.mpr hne |>.trans_le h).ne'

/-! ### Scalars -/

theorem isInk_of_startsNumber {c : Char} (h : c = '-' ∨ c.isDigit = true) : IsInk c := by
  unfold IsInk
  simp only [Bool.or_eq_false_iff, beq_eq_false_iff_ne]
  exact ⟨⟨⟨ne_of_startsNumber h (by decide), ne_of_startsNumber h (by decide)⟩,
    ne_of_startsNumber h (by decide)⟩, ne_of_startsNumber h (by decide)⟩

/-- A scalar starts with a character of its own, and not with a bracket. -/
theorem scalarChars_starts {j : Json} (h : IsScalar j) :
    ∃ c tail, scalarChars j = c :: tail ∧ IsInk c ∧ c ≠ '[' ∧ c ≠ ']' ∧ c ≠ '\x7b' := by
  have hnumeral : ∀ x : Numeral, x.IsPlain → ∃ c tail, x.chars true = c :: tail ∧ IsInk c ∧
      c ≠ '[' ∧ c ≠ ']' ∧ c ≠ '\x7b' := by
    intro x hplain
    obtain ⟨c, tail, hchars, hc⟩ := exists_chars_eq_cons hplain
    exact ⟨c, tail, hchars, isInk_of_startsNumber hc, ne_of_startsNumber hc (by decide),
      ne_of_startsNumber hc (by decide), ne_of_startsNumber hc (by decide)⟩
  cases h with
  | null => exact ⟨'n', _, rfl, rfl, by decide⟩
  | bool value => cases value <;> exact ⟨_, _, rfl, rfl, by decide⟩
  | integer n =>
    obtain ⟨x, hplain, hchars, -⟩ := exists_integer_numeral n
    rw [hchars]
    exact hnumeral x hplain
  | decimal hplain _ => exact hnumeral _ hplain
  | string s => exact ⟨'"', _, rfl, rfl, by decide⟩

theorem prettyChars_of_isScalar {j : Json} (h : IsScalar j) (depth : ℕ) :
    j.prettyChars depth = scalarChars j := by
  cases h <;> rw [prettyChars] <;> nofun

theorem reads_of_isScalar {j : Json} (h : IsScalar j) : Reads j := by
  obtain ⟨c, tail, hstart, hink, hbracket, hclose, hbrace⟩ := scalarChars_starts h
  refine ⟨fun depth => ⟨c, tail, by rw [prettyChars_of_isScalar h, hstart], hink, hclose⟩, ?_⟩
  intro depth fuel chars rest hfuel hrest hchars
  rw [prettyChars_of_isScalar h] at hfuel hchars
  obtain ⟨steps, rfl⟩ := exists_steps (by rw [hstart]; exact List.cons_ne_nil c tail) hfuel
  have hread := scalar?_scalarChars h hrest
  rw [hstart, List.cons_append] at hread hchars
  rw [value, hchars]
  split
  · next heq => exact absurd (List.cons.inj heq).1 hbracket
  · next heq => exact absurd (List.cons.inj heq).1 hbrace
  · rw [hread]

/-! ### Lists -/

theorem prettyItems_singleton_append (depth : ℕ) (item : Json) (after : List Char) :
    prettyItems depth [item] ++ after = newLine depth ++ (prettyChars depth item ++ after) := by
  rw [prettyItems, List.append_assoc]

theorem prettyItems_cons_append (depth : ℕ) (item next : Json) (others : List Json)
    (after : List Char) :
    prettyItems depth (item :: next :: others) ++ after
      = newLine depth ++ (prettyChars depth item
        ++ ',' :: (prettyItems depth (next :: others) ++ after)) := by
  have hpretty : prettyItems depth (item :: next :: others)
      = newLine depth ++ prettyChars depth item ++ ',' :: prettyItems depth (next :: others) := by
    rw [prettyItems]
    nofun
  rw [hpretty, List.append_assoc, List.append_assoc, List.cons_append]

/-- One element is read back, and the reader goes on with what follows it. -/
theorem items_eq {item : Json} (h : Reads item) {depth steps : ℕ} {chars after : List Char}
    (hsteps : (prettyChars depth item).length ≤ steps) (hafter : EndsNumber after)
    (hchars : skipBlanks chars = prettyChars depth item ++ after) :
    items (steps + 1) chars
      = match skipBlanks after with
        | ',' :: rest =>
          let (following, after) := items steps rest
          (item :: following, after)
        | ']' :: rest => ([item], some rest)
        | _ => ([item], none) := by
  rw [items, h.read hsteps hafter hchars]
  rfl

/-- **The elements of a list are read back**, with the bracket after them. -/
theorem items_prettyItems {read : List Json} (hne : read ≠ []) (h : ∀ item ∈ read, Reads item)
    {depth outer fuel : ℕ} {chars rest : List Char} (hfuel : (prettyItems depth read).length ≤ fuel)
    (hchars : skipBlanks chars
      = skipBlanks (prettyItems depth read ++ (newLine outer ++ ']' :: rest))) :
    items fuel chars = (read, some rest) := by
  induction read generalizing fuel chars with
  | nil => exact absurd rfl hne
  | cons item others ih =>
    have hitem := h item List.mem_cons_self
    cases others with
    | nil =>
      have hlength := congrArg List.length (prettyItems_singleton_append depth item [])
      rw [newLine, List.append_nil, List.append_nil, List.cons_append, List.length_cons,
        List.length_append] at hlength
      obtain ⟨steps, rfl⟩ : ∃ steps, fuel = steps + 1 := ⟨fuel - 1, by omega⟩
      rw [prettyItems_singleton_append, skipBlanks_newLine, hitem.skipBlanks_eq] at hchars
      have hafter : EndsNumber (newLine outer ++ ']' :: rest) := endsNumber_cons (by decide) _
      rw [items_eq hitem (by omega) hafter hchars, skipBlanks_newLine,
        skipBlanks_cons (c := ']') rfl]
      rfl
    | cons next others =>
      have hlength := congrArg List.length (prettyItems_cons_append depth item next others [])
      rw [newLine, List.append_nil, List.append_nil, List.cons_append, List.length_cons,
        List.length_append, List.length_append, List.length_cons] at hlength
      obtain ⟨steps, rfl⟩ : ∃ steps, fuel = steps + 1 := ⟨fuel - 1, by omega⟩
      rw [prettyItems_cons_append, skipBlanks_newLine, hitem.skipBlanks_eq] at hchars
      have hothers : items steps
          (prettyItems depth (next :: others) ++ (newLine outer ++ ']' :: rest))
          = (next :: others, some rest) :=
        ih (List.cons_ne_nil next others)
          (fun other hother => h other (List.mem_cons_of_mem _ hother)) (by omega) rfl
      rw [items_eq hitem (by omega) (endsNumber_cons (by decide) _) hchars,
        skipBlanks_cons (c := ',') rfl]
      exact congrArg (fun found => (item :: found.1, found.2)) hothers

/-- What starts the elements does not close the list. -/
theorem skipBlanks_prettyItems {item : Json} (h : Reads item) (others : List Json) (depth : ℕ)
    (after : List Char) :
    ∃ c tail, skipBlanks (prettyItems depth (item :: others) ++ after) = c :: tail ∧ c ≠ ']' := by
  obtain ⟨c, tail, hstart, hink, hclose⟩ := h.starts depth
  cases others with
  | nil =>
    rw [prettyItems_singleton_append, skipBlanks_newLine, h.skipBlanks_eq, hstart]
    exact ⟨c, _, rfl, hclose⟩
  | cons next others =>
    rw [prettyItems_cons_append, skipBlanks_newLine, h.skipBlanks_eq, hstart]
    exact ⟨c, _, rfl, hclose⟩

/-- An opening bracket with something after it that does not close it. -/
theorem value_of_bracket {steps : ℕ} {chars body tail : List Char} {c : Char}
    (hchars : skipBlanks chars = '[' :: body) (hbody : skipBlanks body = c :: tail) (hc : c ≠ ']') :
    value (steps + 1) chars
      = (some (.array (items steps (c :: tail)).1 (items steps (c :: tail)).2.isSome),
        (items steps (c :: tail)).2) := by
  rw [value, hchars]
  split
  · next heq =>
    rw [← (List.cons.inj heq).2, hbody]
    split
    · next heq => exact absurd (List.cons.inj heq).1 hc
    · rfl
  · next heq => exact absurd (List.cons.inj heq).1 (by decide)
  · next hbracket _ => exact absurd rfl (hbracket _)

theorem reads_array {read : List Json} (h : ∀ item ∈ read, Reads item) :
    Reads (.array read true) := by
  cases read with
  | nil =>
    refine ⟨fun depth => ⟨'[', [']'], rfl, rfl, by decide⟩, ?_⟩
    intro depth fuel chars rest hfuel hrest hchars
    obtain ⟨steps, rfl⟩ := exists_steps (List.cons_ne_nil _ _) hfuel
    rw [value, hchars]
    rfl
  | cons item others =>
    have hpretty : ∀ depth, prettyChars depth (.array (item :: others) true)
        = '[' :: (prettyItems (depth + 1) (item :: others) ++ newLine depth ++ [']']) := by
      intro depth
      rw [prettyChars]
      nofun
    refine ⟨fun depth => ⟨'[', _, hpretty depth, rfl, by decide⟩, ?_⟩
    intro depth fuel chars rest hfuel hrest hchars
    obtain ⟨steps, rfl⟩ := exists_steps (by rw [hpretty]; exact List.cons_ne_nil _ _) hfuel
    rw [hpretty, List.cons_append, List.append_assoc, List.append_assoc,
      List.singleton_append] at hchars
    rw [hpretty, List.length_cons, List.length_append, List.length_append] at hfuel
    have hitems : items steps (skipBlanks
        (prettyItems (depth + 1) (item :: others) ++ (newLine depth ++ ']' :: rest)))
        = (item :: others, some rest) :=
      items_prettyItems (List.cons_ne_nil item others) h (by omega) (skipBlanks_skipBlanks _)
    obtain ⟨c, tail, hstart, hclose⟩ := skipBlanks_prettyItems (h item List.mem_cons_self) others
      (depth + 1) (newLine depth ++ ']' :: rest)
    rw [hstart] at hitems
    rw [value_of_bracket hchars hstart hclose, hitems]
    rfl

/-! ### Objects -/

theorem prettyMembers_singleton_append (depth : ℕ) (name : String) (j : Json)
    (after : List Char) :
    prettyMembers depth [(name, j)] ++ after
      = newLine depth ++ (quoted name ++ ':' :: ' ' :: (prettyChars depth j ++ after)) := by
  simp only [prettyMembers, List.append_assoc, List.cons_append]

theorem prettyMembers_cons_append (depth : ℕ) (name : String) (j : Json) (next : String × Json)
    (others : List (String × Json)) (after : List Char) :
    prettyMembers depth ((name, j) :: next :: others) ++ after
      = newLine depth ++ (quoted name ++ ':' :: ' ' :: (prettyChars depth j
        ++ ',' :: (prettyMembers depth (next :: others) ++ after))) := by
  have hpretty : prettyMembers depth ((name, j) :: next :: others)
      = newLine depth ++ quoted name ++ ':' :: ' ' :: prettyChars depth j
        ++ ',' :: prettyMembers depth (next :: others) := by
    rw [prettyMembers]
    nofun
  simp only [hpretty, List.append_assoc, List.cons_append]

/-- One member is read back, and the reader goes on with what follows it. -/
theorem members_eq {name : String} {j : Json} (h : Reads j) {depth steps : ℕ}
    {chars after : List Char} (hsteps : (prettyChars depth j).length ≤ steps)
    (hafter : EndsNumber after)
    (hchars : skipBlanks chars = quoted name ++ ':' :: ' ' :: (prettyChars depth j ++ after)) :
    members (steps + 1) chars
      = match skipBlanks after with
        | ',' :: rest =>
          let (following, sound, after) := members steps rest
          ((name, j) :: following, sound, after)
        | '\x7d' :: rest => ([(name, j)], true, some rest)
        | _ => ([(name, j)], true, none) := by
  have hvalue : value steps (' ' :: (prettyChars depth j ++ after)) = (some j, some after) :=
    h.read hsteps hafter (h.skipBlanks_eq depth after)
  rw [quoted, List.cons_append, List.append_assoc, List.singleton_append] at hchars
  rw [members, hchars]
  split
  · next heq =>
    rw [← (List.cons.inj heq).2, text?_escaped]
    dsimp only
    rw [skipBlanks_cons (c := ':') rfl]
    split
    · next heq =>
      rw [← (List.cons.inj heq).2, hvalue]
      rfl
    · next hcolon => exact absurd rfl (hcolon _)
  · next hquote => exact absurd rfl (hquote _)

/-- **The members of an object are read back**, with the brace after them. -/
theorem members_prettyMembers {read : List (String × Json)} (hne : read ≠ [])
    (h : ∀ entry ∈ read, Reads entry.2) {depth outer fuel : ℕ} {chars rest : List Char}
    (hfuel : (prettyMembers depth read).length ≤ fuel)
    (hchars : skipBlanks chars
      = skipBlanks (prettyMembers depth read ++ (newLine outer ++ '\x7d' :: rest))) :
    members fuel chars = (read, true, some rest) := by
  induction read generalizing fuel chars with
  | nil => exact absurd rfl hne
  | cons entry others ih =>
    obtain ⟨name, j⟩ := entry
    have hentry : Reads j := h (name, j) List.mem_cons_self
    cases others with
    | nil =>
      have hlength := congrArg List.length (prettyMembers_singleton_append depth name j [])
      simp only [newLine, List.append_nil, List.cons_append, List.length_cons,
        List.length_append] at hlength
      obtain ⟨steps, rfl⟩ : ∃ steps, fuel = steps + 1 := ⟨fuel - 1, by omega⟩
      rw [prettyMembers_singleton_append, skipBlanks_newLine, quoted, List.cons_append,
        skipBlanks_cons (c := '"') rfl] at hchars
      have hafter : EndsNumber (newLine outer ++ '\x7d' :: rest) := endsNumber_cons (by decide) _
      rw [members_eq hentry (by omega) hafter hchars, skipBlanks_newLine,
        skipBlanks_cons (c := '\x7d') rfl]
      rfl
    | cons next others =>
      have hlength := congrArg List.length (prettyMembers_cons_append depth name j next others [])
      simp only [newLine, List.append_nil, List.cons_append, List.length_cons,
        List.length_append] at hlength
      obtain ⟨steps, rfl⟩ : ∃ steps, fuel = steps + 1 := ⟨fuel - 1, by omega⟩
      rw [prettyMembers_cons_append, skipBlanks_newLine, quoted, List.cons_append,
        skipBlanks_cons (c := '"') rfl] at hchars
      have hothers : members steps
          (prettyMembers depth (next :: others) ++ (newLine outer ++ '\x7d' :: rest))
          = (next :: others, true, some rest) :=
        ih (List.cons_ne_nil next others)
          (fun other hother => h other (List.mem_cons_of_mem _ hother)) (by omega) rfl
      rw [members_eq hentry (by omega) (endsNumber_cons (by decide) _) hchars,
        skipBlanks_cons (c := ',') rfl]
      exact congrArg (fun found => ((name, j) :: found.1, found.2)) hothers

theorem skipBlanks_prettyMembers (entry : String × Json) (others : List (String × Json))
    (depth : ℕ) (after : List Char) :
    ∃ tail, skipBlanks (prettyMembers depth (entry :: others) ++ after) = '"' :: tail := by
  cases others with
  | nil =>
    rw [prettyMembers_singleton_append, skipBlanks_newLine, quoted, List.cons_append]
    exact ⟨_, skipBlanks_cons (c := '"') rfl _⟩
  | cons next others =>
    rw [prettyMembers_cons_append, skipBlanks_newLine, quoted, List.cons_append]
    exact ⟨_, skipBlanks_cons (c := '"') rfl _⟩

/-- An opening brace with a name after it. -/
theorem value_of_brace {steps : ℕ} {chars body tail : List Char}
    (hchars : skipBlanks chars = '\x7b' :: body) (hbody : skipBlanks body = '"' :: tail) :
    value (steps + 1) chars
      = (some (.object (members steps ('"' :: tail)).1
          ((members steps ('"' :: tail)).2.1 && (members steps ('"' :: tail)).2.2.isSome)),
        (members steps ('"' :: tail)).2.2) := by
  rw [value, hchars]
  split
  · next heq => exact absurd (List.cons.inj heq).1 (by decide)
  · next heq =>
    rw [← (List.cons.inj heq).2, hbody]
    rfl
  · next hbrace => exact absurd rfl (hbrace _)

theorem reads_object {read : List (String × Json)} (h : ∀ entry ∈ read, Reads entry.2) :
    Reads (.object read true) := by
  cases read with
  | nil =>
    refine ⟨fun depth => ⟨'\x7b', ['\x7d'], rfl, rfl, by decide⟩, ?_⟩
    intro depth fuel chars rest hfuel hrest hchars
    obtain ⟨steps, rfl⟩ := exists_steps (List.cons_ne_nil _ _) hfuel
    rw [value, hchars]
    rfl
  | cons entry others =>
    have hpretty : ∀ depth, prettyChars depth (.object (entry :: others) true)
        = '\x7b' :: (prettyMembers (depth + 1) (entry :: others) ++ newLine depth ++ ['\x7d']) := by
      intro depth
      rw [prettyChars]
      nofun
    refine ⟨fun depth => ⟨'\x7b', _, hpretty depth, rfl, by decide⟩, ?_⟩
    intro depth fuel chars rest hfuel hrest hchars
    obtain ⟨steps, rfl⟩ := exists_steps (by rw [hpretty]; exact List.cons_ne_nil _ _) hfuel
    rw [hpretty, List.cons_append, List.append_assoc, List.append_assoc,
      List.singleton_append] at hchars
    rw [hpretty, List.length_cons, List.length_append, List.length_append] at hfuel
    have hmembers : members steps (skipBlanks
        (prettyMembers (depth + 1) (entry :: others) ++ (newLine depth ++ '\x7d' :: rest)))
        = (entry :: others, true, some rest) :=
      members_prettyMembers (List.cons_ne_nil entry others) h (by omega) (skipBlanks_skipBlanks _)
    obtain ⟨tail, hstart⟩ := skipBlanks_prettyMembers entry others (depth + 1)
      (newLine depth ++ '\x7d' :: rest)
    rw [hstart] at hmembers
    rw [value_of_brace hchars hstart, hmembers]
    rfl

/-! ### Whole values -/

/-- **The indented form of a value is read back**, whatever its depth. -/
theorem reads_of_written {depth : ℕ} {j : Json} (h : Written depth j) : Reads j := by
  induction h with
  | null => exact reads_of_isScalar .null
  | bool value => exact reads_of_isScalar (.bool value)
  | integer => exact reads_of_isScalar (.integer _)
  | real => exact reads_of_isScalar (isScalar_ofReal _)
  | string value => exact reads_of_isScalar (.string value)
  | array _ ih => exact reads_array ih
  | object _ ih => exact reads_object ih

/-- **A text that consists of the indented form of a value is read as that value**, and nothing is
left of it. -/
theorem parse_pretty {depth : ℕ} {j : Json} (h : Written depth j) :
    parse j.pretty = (some j, true) := by
  have hreads := reads_of_written h
  have hskip : skipBlanks (prettyChars 0 j) = prettyChars 0 j ++ [] := by
    simpa using hreads.skipBlanks_eq 0 []
  have hvalue : value (2 * (prettyChars 0 j).length + 2) (prettyChars 0 j) = (some j, some []) :=
    hreads.read (by omega) endsNumber_nil hskip
  unfold parse pretty
  rw [String.toList_ofList]
  dsimp only
  rw [hvalue]
  rfl

/-- **The standard text layer reads what it has written.**  For numerals it reads the nearest double,
which is the one that has the numeral as its shortest. -/
instance lawfulTextLayer_standard : LawfulTextLayer where
  parse_pretty := parse_pretty
  toReal?_ofReal {x} h := by
    obtain ⟨numeral, hnumeral, heq⟩ := exists_ofReal_eq_decimal h
    have hnearest := Layout.toBinary64_of_numeral? hnumeral
    rw [heq]
    show (some numeral.toBinary64).filter Binary64.isFinite = some x
    rw [hnearest]
    exact if_pos h
  isFinite_of_toReal? {j x} h := by
    cases j with
    | integer n =>
      have hread : (some (Binary64.ofInt n)).filter Binary64.isFinite = some x := h
      exact (Option.filter_eq_some_iff.mp hread).2
    | decimal numeral =>
      have hread : (some numeral.toBinary64).filter Binary64.isFinite = some x := h
      exact (Option.filter_eq_some_iff.mp hread).2
    | _ => cases h

end DyadicNet.Json
