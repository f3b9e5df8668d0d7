import Mathlib
import DyadicNet.Graph.Stored
import DyadicNet.Proofs.Except
import DyadicNet.Proofs.NameTable

/-!
# Readers of lists, tables and records

Two questions are asked of every reader.  **Does it read back what was written?**  For a list or a
table it does if it reads back each element; for a record it does if reading the given fields one
after the other, into a draft with the defaults, gives the record.  **What does a value satisfy that
it read?**  Whatever its elements satisfy, and for a record whatever the defaults satisfy and no
field destroys; so the second question needs no look at how the record was given.

## Main Definitions

* `Field.readGiven` — reading a field that may be left out;
* `givenMembers` — the members that fields with values make up.

## Main Statements

* `list_ofList`, `table_toJson`, `record_givenMembers` — what was written is read back;
* `exists_of_list_eq_ok`, `exists_of_table_eq_ok`, `invariant_of_record` — what was read.
-/

namespace DyadicNet.Json

variable {ε α σ : Type}

/-! ### Scalars -/

theorem scalar_eq_ok_iff {convert : Json → Option α} {j : Json} {a : α} :
    (scalar convert j : Except (Failure ε) α) = .ok a ↔ convert j = some a := by
  unfold scalar
  cases convert j <;> simp

/-! ### Lists -/

section Lists

variable {element : Json → Except (Failure ε) α} {write : α → Json} {xs : List α}

theorem list_ofList (h : ∀ x ∈ xs, element (write x) = .ok x) :
    list element (.ofList (xs.map write)) = .ok xs := by
  show ((xs.map write).mapM element >>= fun values => .ok values) = .ok xs
  rw [mapM_map_eq_ok h, ok_bind]

theorem exists_of_list_eq_ok {j : Json} (h : list element j = .ok xs) :
    ∀ x ∈ xs, ∃ item, element item = .ok x := by
  cases j with
  | array items intact =>
    obtain ⟨values, hvalues, h⟩ := bind_eq_ok_iff.mp h
    obtain rfl : values = xs := by
      split_ifs at h
      exact Except.ok.inj h
    intro x hx
    obtain ⟨item, -, hitem⟩ := exists_mem_of_mapM hvalues x hx
    exact ⟨item, hitem⟩
  | _ => cases h

/-- Only the list without elements is read as that. -/
theorem eq_ofList_nil_of_list {j : Json} (h : list element j = .ok []) : j = .ofList [] := by
  cases j with
  | array items intact =>
    obtain ⟨values, hvalues, h⟩ := bind_eq_ok_iff.mp h
    split_ifs at h with hintact
    cases h
    obtain rfl : intact = true := hintact
    cases items with
    | nil => rfl
    | cons item rest =>
      rw [List.mapM_cons] at hvalues
      obtain ⟨first, -, hvalues⟩ := bind_eq_ok_iff.mp hvalues
      obtain ⟨others, -, hvalues⟩ := bind_eq_ok_iff.mp hvalues
      cases hvalues
  | _ => cases h

/-! ### Tables -/

variable {table : NameTable α}

theorem table_toJson (h : ∀ entry ∈ table.entries, element (write entry.2) = .ok entry.2) :
    Json.table element (table.toJson write) = .ok table := by
  have hread : ∀ entry ∈ table.entries,
      (element (write entry.2) >>= fun value => pure (entry.1, value)) = .ok entry := by
    intro entry hentry
    rw [h entry hentry]
    rfl
  unfold NameTable.toJson ofMembers Json.table
  dsimp only
  rw [mapM_map_eq_ok hread, ok_bind, if_pos rfl, NameTable.ofList_entries]

theorem exists_of_table_eq_ok {j : Json} (h : Json.table element j = .ok table) :
    ∀ entry ∈ table.entries, ∃ item, element item = .ok entry.2 := by
  cases j with
  | object members intact =>
    obtain ⟨entries, hentries, h⟩ := bind_eq_ok_iff.mp h
    obtain rfl : NameTable.ofList entries = table := by
      split_ifs at h
      exact Except.ok.inj h
    intro entry hentry
    obtain ⟨member, -, hmember⟩ :=
      exists_mem_of_mapM hentries entry (NameTable.mem_of_mem_ofList hentry)
    obtain ⟨value, hvalue, hpair⟩ := bind_eq_ok_iff.mp hmember
    cases hpair
    exact ⟨member.2, hvalue⟩
  | _ => cases h

end Lists

/-! ### Absent values -/

theorem of_optional_eq_ok_some {element : Json → Except (Failure ε) α} {j : Json} {a : α}
    (h : optional element j = .ok (some a)) : element j = .ok a := by
  unfold optional at h
  split at h
  · cases h
  · obtain ⟨v, hv, heq⟩ := map_eq_ok_iff.mp h
    cases heq
    exact hv

/-! ### Records -/

theorem find?_field {fields : List (Field ε σ)} (h : (fields.map (·.name)).Nodup)
    {field : Field ε σ} (hmem : field ∈ fields) :
    fields.find? (·.name == field.name) = some field := by
  induction fields with
  | nil => cases hmem
  | cons first rest ih =>
    rw [List.map_cons, List.nodup_cons] at h
    rcases List.mem_cons.mp hmem with rfl | hrest
    · exact List.find?_cons_of_pos (beq_self_eq_true _)
    · have hne : first.name ≠ field.name := fun heq =>
        h.1 (heq ▸ List.mem_map_of_mem (f := (·.name)) hrest)
      rw [List.find?_cons_of_neg (by simpa using hne)]
      exact ih h.2 hrest

/-- The draft with the value of a field in it, if one is given. -/
def Field.readGiven (field : Field ε σ) : Option Json → σ → Except (Failure ε) σ
  | none, draft => .ok draft
  | some j, draft => field.read j draft

/-- An absent value is not written, and the default is the absent value. -/
theorem readGiven_optional {element : Json → Except (Failure ε) α} {write : α → Json}
    {value : Option α} (h : ∀ v ∈ value, element (write v) = .ok v) (hnull : ∀ v, write v ≠ .null)
    (name : String) {set : Option α → σ → σ} {draft : σ} (hdefault : set none draft = draft) :
    (Field.defaulted name (optional element) set).readGiven (value.map write) draft
      = .ok (set value draft) := by
  cases value with
  | none =>
    rw [hdefault]
    rfl
  | some v =>
    have hread : optional element (write v) = .ok (some v) := by
      have helement := h v rfl
      have hne := hnull v
      unfold optional
      split
      · next heq => exact absurd heq hne
      · rw [helement]
        rfl
    show (set · draft) <$> optional element (write v) = .ok (set (some v) draft)
    rw [hread]
    rfl

/-- The members that fields with values make up. -/
def givenMembers (given : List (Field ε σ × Option Json)) : List (String × Json) :=
  given.filterMap fun entry => entry.2.map fun j => (entry.1.name, j)

/-- Members of distinct fields are read one after the other. -/
theorem foldlM_member {fields : List (Field ε σ)} (h : (fields.map (·.name)).Nodup)
    {given : List (Field ε σ × Option Json)} (hmem : ∀ entry ∈ given, entry.1 ∈ fields)
    {seen : List String} (hnodup : (given.map (·.1.name)).Nodup)
    (hseen : ∀ name ∈ given.map (·.1.name), name ∉ seen) {start final : σ}
    (hread : given.foldlM (fun draft entry => entry.1.readGiven entry.2 draft) start
      = .ok final) :
    (givenMembers given).foldlM (member fields) (start, seen)
      = .ok (final, ((givenMembers given).map (·.1)).reverse ++ seen) := by
  induction given generalizing start seen with
  | nil =>
    cases hread
    rfl
  | cons entry rest ih =>
    obtain ⟨field, value⟩ := entry
    rw [List.foldlM_cons] at hread
    obtain ⟨draft, hdraft, hrest⟩ := bind_eq_ok_iff.mp hread
    rw [List.map_cons, List.nodup_cons] at hnodup
    rw [List.map_cons, List.forall_mem_cons] at hseen
    have hmemRest := fun other hother => hmem other (List.mem_cons_of_mem _ hother)
    cases value with
    | none =>
      cases hdraft
      exact ih hmemRest hnodup.2 hseen.2 hrest
    | some j =>
      have hmember : member fields (start, seen) (field.name, j)
          = .ok (draft, field.name :: seen) := by
        unfold member
        dsimp only
        rw [find?_field h (hmem _ List.mem_cons_self)]
        dsimp only
        rw [if_neg (by simpa using hseen.1)]
        exact bind_eq_ok_iff.mpr ⟨draft, hdraft, rfl⟩
      have hnew : ∀ name ∈ rest.map (·.1.name), name ∉ field.name :: seen := by
        intro name hname hin
        rcases List.mem_cons.mp hin with rfl | hin
        · exact hnodup.1 hname
        · exact hseen.2 name hname hin
      have hcons : givenMembers ((field, some j) :: rest)
          = (field.name, j) :: givenMembers rest := rfl
      rw [hcons, List.foldlM_cons, hmember, ok_bind, ih hmemRest hnodup.2 hnew hrest]
      simp

/-- **A written record is read back**: each field that has a value is read, the others keep their
defaults, and those without a default have a value. -/
theorem record_givenMembers {given : List (Field ε σ × Option Json)}
    (h : (given.map (·.1.name)).Nodup)
    (hrequired : ∀ entry ∈ given, entry.1.required = true → entry.2.isSome = true) {start final : σ}
    (hread : given.foldlM (fun draft entry => entry.1.readGiven entry.2 draft) start
      = .ok final) :
    record (given.map (·.1)) start (.ofMembers (givenMembers given)) = .ok final := by
  have hnames : ((given.map (·.1)).map (·.name)).Nodup := by
    rw [List.map_map]
    exact h
  have hfold := foldlM_member hnames (fun _ => List.mem_map_of_mem) h
    (fun _ _ => List.not_mem_nil) hread
  have hall : (given.map (·.1)).all (fun field =>
      !field.required || ((givenMembers given).map (·.1)).reverse.contains field.name) = true := by
    rw [List.all_eq_true]
    intro field hfield
    obtain ⟨entry, hentry, rfl⟩ := List.mem_map.mp hfield
    cases hneeded : entry.1.required with
    | false => rfl
    | true =>
      obtain ⟨j, hj⟩ := Option.isSome_iff_exists.mp (hrequired entry hentry hneeded)
      have hmember : (entry.1.name, j) ∈ givenMembers given :=
        List.mem_filterMap.mpr ⟨entry, hentry, by rw [hj]; rfl⟩
      simpa using ⟨j, hmember⟩
  unfold record ofMembers
  dsimp only
  rw [hfold, ok_bind, List.append_nil]
  dsimp only
  rw [hall]
  rfl

theorem invariant_of_positions {P : σ → Prop} {fields : List (Field ε σ)}
    (hfields : ∀ field ∈ fields, ∀ j draft next, P draft → field.read j draft = .ok next → P next)
    {items : List Json} {start final : σ} (hstart : P start)
    (h : positions fields items start = .ok final) : P final := by
  induction fields generalizing items start with
  | nil =>
    cases items with
    | nil =>
      cases h
      exact hstart
    | cons j items => cases h
  | cons field fields ih =>
    have hrest := fun other hother => hfields other (List.mem_cons_of_mem _ hother)
    cases items with
    | nil =>
      rw [positions] at h
      split_ifs at h
      exact ih hrest hstart h
    | cons j items =>
      rw [positions] at h
      obtain ⟨draft, hdraft, h⟩ := bind_eq_ok_iff.mp h
      exact ih hrest (hfields field List.mem_cons_self j start draft hstart hdraft) h

/-- **What the defaults satisfy and no field destroys, every record satisfies.** -/
theorem invariant_of_record {P : σ → Prop} {fields : List (Field ε σ)}
    (hfields : ∀ field ∈ fields, ∀ j draft next, P draft → field.read j draft = .ok next → P next)
    {j : Json} {start final : σ} (hstart : P start) (h : record fields start j = .ok final) :
    P final := by
  cases j with
  | object members intact =>
    obtain ⟨⟨draft, given⟩, hstate, h⟩ := bind_eq_ok_iff.mp h
    dsimp only at h
    obtain rfl : draft = final := by
      split_ifs at h
      exact Except.ok.inj h
    refine invariant_of_foldlM (P := fun state => P state.1) ?_ hstart hstate
    intro before entry after hbefore hmember
    unfold member at hmember
    split at hmember
    · cases hmember
      exact hbefore
    · next field hfound =>
      split_ifs at hmember
      obtain ⟨draft, hdraft, heq⟩ := bind_eq_ok_iff.mp hmember
      cases heq
      exact hfields field (List.mem_of_find?_eq_some hfound) _ _ _ hbefore hdraft
  | array items intact =>
    obtain ⟨draft, hdraft, h⟩ := bind_eq_ok_iff.mp h
    obtain rfl : draft = final := by
      split_ifs at h
      exact Except.ok.inj h
    exact invariant_of_positions hfields hstart hdraft
  | _ => cases h

/-! ### Whole texts -/

theorem decode_eq_ok_iff [TextLayer] {read : Json → Except (Failure ε) α} {text : String} {a : α} :
    decode read text = .ok a ↔
      ∃ j, TextLayer.parse text = (some j, true) ∧ read j = .ok a := by
  unfold decode
  rcases TextLayer.parse text with ⟨_ | j, whole⟩
  · simp
  · dsimp only
    rw [bind_eq_ok_iff]
    constructor
    · rintro ⟨value, hvalue, hwhole⟩
      split_ifs at hwhole with htrue
      cases hwhole
      exact ⟨j, by rw [htrue], hvalue⟩
    · rintro ⟨j', heq, hread⟩
      cases heq
      exact ⟨a, hread, rfl⟩

end DyadicNet.Json
