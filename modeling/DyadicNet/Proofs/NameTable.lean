import Mathlib
import DyadicNet.NameTable

/-!
# Looking up in tables and bindings

What a lookup finds after a table was filtered or filled, and after a binding was put at the end of
a list; and that a table is filled again from its own entries.

## Main Statements

* `NameTable.get?_filter`, `NameTable.get?_foldl_insert` — tables;
* `lookup_concat`, `forall_lookup_concat` — lists of bindings;
* `NameTable.ofList_entries`, `NameTable.mem_of_mem_ofList` — filling a table.
-/

namespace DyadicNet

variable {α : Type}

/-! ### Lists of bindings -/

theorem lookup_eq_none_iff {bindings : List (String × α)} {name : String} :
    bindings.lookup name = none ↔ name ∉ bindings.map (·.1) := by
  induction bindings with
  | nil => simp
  | cons entry rest ih =>
    rw [List.lookup_cons, List.map_cons, List.mem_cons]
    by_cases h : name = entry.1
    · simp [h]
    · simp [h, beq_eq_false_iff_ne.mpr h, ih]

theorem isSome_lookup_iff {bindings : List (String × α)} {name : String} :
    (bindings.lookup name).isSome = true ↔ name ∈ bindings.map (·.1) := by
  rw [Option.isSome_iff_ne_none, ne_eq, lookup_eq_none_iff, not_not]

theorem lookup_cons_of_ne {bindings : List (String × α)} {name key : String} {value : α}
    (h : key ≠ name) : ((name, value) :: bindings).lookup key = bindings.lookup key := by
  rw [List.lookup_cons, beq_eq_false_iff_ne.mpr h]

/-- Where names are bound once, every binding is found. -/
theorem lookup_of_mem {bindings : List (String × α)} (h : (bindings.map (·.1)).Nodup)
    {name : String} {value : α} (hmem : (name, value) ∈ bindings) :
    bindings.lookup name = some value := by
  induction bindings with
  | nil => cases hmem
  | cons entry rest ih =>
    rw [List.map_cons, List.nodup_cons] at h
    rcases List.mem_cons.mp hmem with rfl | hrest
    · exact List.lookup_cons_self
    · have hne : name ≠ entry.1 := by
        rintro rfl
        exact h.1 (List.mem_map_of_mem (f := (·.1)) hrest)
      rw [lookup_cons_of_ne hne]
      exact ih h.2 hrest

/-- A binding at the end counts only for a name that has no other one. -/
theorem lookup_concat (bindings : List (String × α)) (name key : String) (value : α) :
    (bindings ++ [(name, value)]).lookup key
      = (bindings.lookup key).or (if key = name then some value else none) := by
  rw [List.lookup_append, List.lookup_cons]
  by_cases h : key = name
  · simp [h]
  · simp [h, beq_eq_false_iff_ne.mpr h]

/-- What holds of all values and of a new one holds of all values after the new binding. -/
theorem forall_lookup_concat {P : α → Prop} {bindings : List (String × α)} {name : String} {value : α}
    (h : ∀ key found, bindings.lookup key = some found → P found) (hvalue : P value) :
    ∀ key found, (bindings ++ [(name, value)]).lookup key = some found → P found := by
  intro key found hfound
  rw [lookup_concat, Option.or_eq_some_iff] at hfound
  rcases hfound with hold | ⟨-, hnew⟩
  · exact h key found hold
  · split_ifs at hnew
    obtain rfl := Option.some_inj.mp hnew
    exact hvalue

/-! ### Tables -/

namespace NameTable

theorem isSome_get?_iff {table : NameTable α} {name : String} :
    (table.get? name).isSome = true ↔ name ∈ table.names :=
  isSome_lookup_iff

theorem get?_filter (table : NameTable α) (keep : String → Bool) (name : String) :
    (table.filter keep).get? name = if keep name then table.get? name else none := by
  show (List.filter _ table.entries).lookup name
    = if keep name then table.entries.lookup name else none
  induction table.entries with
  | nil => simp
  | cons entry rest ih =>
    obtain ⟨key, value⟩ := entry
    rw [List.filter_cons, List.lookup_cons]
    by_cases h : name = key
    · subst h
      cases hkeep : keep name with
      | false =>
        rw [hkeep] at ih
        exact ih
      | true => simp
    · rw [beq_eq_false_iff_ne.mpr h]
      cases keep key with
      | false => exact ih
      | true =>
        rw [if_pos rfl, List.lookup_cons, beq_eq_false_iff_ne.mpr h]
        exact ih

/-- A table that was filled with bindings of distinct names has them all, and else what it had. -/
theorem get?_foldl_insert {bindings : List (String × α)} (h : (bindings.map (·.1)).Nodup)
    (table : NameTable α) (name : String) :
    (bindings.foldl (fun table (name, value) => table.insert name value) table).get? name
      = (bindings.lookup name).or (table.get? name) := by
  induction bindings generalizing table with
  | nil => rfl
  | cons entry rest ih =>
    rw [List.map_cons, List.nodup_cons] at h
    rw [List.foldl_cons, ih h.2, List.lookup_cons, get?_insert]
    by_cases hname : name = entry.1
    · subst hname
      rw [lookup_eq_none_iff.mpr h.1]
      simp
    · simp [hname, beq_eq_false_iff_ne.mpr hname]

/-! ### Filling a table -/

theorem insertEntry_of_forall_lt {entries : List (String × α)} {name : String} {value : α}
    (h : ∀ entry ∈ entries, entry.1 < name) :
    insertEntry name value entries = entries ++ [(name, value)] := by
  induction entries with
  | nil => rfl
  | cons entry rest ih =>
    have hlt := h entry List.mem_cons_self
    have hne : name ≠ entry.1 := fun heq => String.lt_irrefl name (heq ▸ hlt)
    rw [insertEntry, if_neg (String.lt_asymm hlt), if_neg hne,
      ih fun other hother => h other (List.mem_cons_of_mem _ hother), List.cons_append]

/-- Ascending entries go to the end one by one, so **a table is filled again from its entries**. -/
theorem ofList_entries (table : NameTable α) : ofList table.entries = table := by
  have hfill : ∀ (rest : List (String × α)) (filled : NameTable α),
      (filled.entries ++ rest).Pairwise (fun a b => a.1 < b.1) →
      (rest.foldl (fun table entry => table.insert entry.1 entry.2) filled).entries
        = filled.entries ++ rest := by
    intro rest
    induction rest with
    | nil => exact fun filled _ => (List.append_nil _).symm
    | cons entry rest ih =>
      intro filled hascending
      have hinsert : (filled.insert entry.1 entry.2).entries = filled.entries ++ [entry] :=
        insertEntry_of_forall_lt fun other hother =>
          (List.pairwise_append.mp hascending).2.2 other hother entry List.mem_cons_self
      have hsplit : filled.entries ++ [entry] ++ rest = filled.entries ++ entry :: rest := by
        rw [List.append_assoc, List.singleton_append]
      rw [List.foldl_cons, ih _ (by rw [hinsert, hsplit]; exact hascending), hinsert, hsplit]
  exact ext (hfill table.entries empty table.ascending)

/-- A table that was filled from a list has entries of the list only. -/
theorem mem_of_mem_ofList {entries : List (String × α)} {entry : String × α}
    (h : entry ∈ (ofList entries).entries) : entry ∈ entries := by
  have hfill : ∀ (rest : List (String × α)) (filled : NameTable α),
      entry ∈ (rest.foldl (fun table entry => table.insert entry.1 entry.2) filled).entries →
      entry ∈ filled.entries ∨ entry ∈ rest := by
    intro rest
    induction rest with
    | nil => exact fun filled hmem => .inl hmem
    | cons first rest ih =>
      intro filled hmem
      rcases ih _ hmem with hfilled | hrest
      · rcases mem_insertEntry hfilled with rfl | hold
        · exact .inr List.mem_cons_self
        · exact .inl hold
      · exact .inr (List.mem_cons_of_mem _ hrest)
  exact (hfill entries empty h).resolve_left List.not_mem_nil

end NameTable

end DyadicNet
