/-!
# Tables of named values

Attributes of a node and constants of a graph are tables: at most one value per name, and an order
that does not depend on how the table was filled.  `NameTable` keeps its entries **in ascending
order of the names**, as part of the type, so that two tables with the same lookups are equal and a
table is written in one way only.

## Main definitions

* `NameTable` — the type;
* `NameTable.insert`, `NameTable.filter`, `NameTable.erase`, `NameTable.ofList` — building tables;
* `NameTable.get?`, `NameTable.contains`, `NameTable.names` — reading them.
-/

namespace DyadicNet

/-- Values under distinct names, in ascending order of the names. -/
structure NameTable (α : Type) where
  /-- The names with their values. -/
  entries : List (String × α)
  /-- Each name is less than the names after it. -/
  ascending : entries.Pairwise fun a b => a.1 < b.1
deriving DecidableEq

namespace NameTable

variable {α β : Type}

@[ext] theorem ext {s t : NameTable α} (h : s.entries = t.entries) : s = t := by
  cases s; cases t; cases h; rfl

/-- The table without entries. -/
def empty : NameTable α :=
  ⟨[], .nil⟩

instance : Inhabited (NameTable α) := ⟨empty⟩

/-! ### Reading -/

/-- The value under a name. -/
def get? (table : NameTable α) (name : String) : Option α :=
  table.entries.lookup name

/-- Whether a name has a value. -/
def contains (table : NameTable α) (name : String) : Bool :=
  (table.get? name).isSome

/-- The names, in ascending order. -/
def names (table : NameTable α) : List String :=
  table.entries.map (·.1)

/-- The number of entries. -/
def size (table : NameTable α) : Nat :=
  table.entries.length

/-- Whether there are no entries. -/
def isEmpty (table : NameTable α) : Bool :=
  table.entries.isEmpty

/-! ### Writing -/

private theorem lt_of_not_lt_of_ne {a b : String} (h : ¬a < b) (hne : a ≠ b) : b < a :=
  Decidable.byContradiction fun h' => hne (String.le_antisymm h' h)

/-- An ascending list with one entry put in, in place of an entry of the same name. -/
def insertEntry (name : String) (value : α) : List (String × α) → List (String × α)
  | [] => [(name, value)]
  | entry :: rest =>
    if name < entry.1 then (name, value) :: entry :: rest
    else if name = entry.1 then (name, value) :: rest
    else entry :: insertEntry name value rest

theorem mem_insertEntry {name : String} {value : α} {e : String × α} :
    ∀ {entries : List (String × α)},
      e ∈ insertEntry name value entries → e = (name, value) ∨ e ∈ entries
  | [], h => by simpa [insertEntry] using h
  | entry :: rest, h => by
    unfold insertEntry at h
    split at h
    · simpa using h
    · split at h
      · rcases List.mem_cons.1 h with h | h
        · exact .inl h
        · exact .inr (List.mem_cons_of_mem _ h)
      · rcases List.mem_cons.1 h with h | h
        · exact .inr (h ▸ List.mem_cons_self)
        · exact (mem_insertEntry h).imp_right (List.mem_cons_of_mem _)

theorem pairwise_insertEntry (name : String) (value : α) :
    ∀ {entries : List (String × α)}, entries.Pairwise (fun a b => a.1 < b.1) →
      (insertEntry name value entries).Pairwise fun a b => a.1 < b.1
  | [], _ => by simp [insertEntry]
  | entry :: rest, h => by
    have ⟨hhead, htail⟩ := List.pairwise_cons.1 h
    unfold insertEntry
    split
    next hlt =>
      refine List.pairwise_cons.2 ⟨fun e he => ?_, h⟩
      rcases List.mem_cons.1 he with rfl | he
      · exact hlt
      · exact String.lt_trans hlt (hhead e he)
    next hlt =>
      split
      next heq => exact List.pairwise_cons.2 ⟨fun e he => heq ▸ hhead e he, htail⟩
      next hne =>
        refine List.pairwise_cons.2 ⟨fun e he => ?_, pairwise_insertEntry name value htail⟩
        rcases mem_insertEntry he with rfl | he
        · exact lt_of_not_lt_of_ne hlt hne
        · exact hhead e he

/-- The table with a value put under a name, in place of an earlier value of that name. -/
def insert (table : NameTable α) (name : String) (value : α) : NameTable α :=
  ⟨insertEntry name value table.entries, pairwise_insertEntry name value table.ascending⟩

/-- The table with the entries whose names pass a test. -/
def filter (table : NameTable α) (keep : String → Bool) : NameTable α :=
  ⟨table.entries.filter fun entry => keep entry.1, table.ascending.filter _⟩

/-- The table without a name. -/
def erase (table : NameTable α) (name : String) : NameTable α :=
  table.filter (· != name)

/-- The table with the entries of a list; of several values under one name the last one stays. -/
def ofList (entries : List (String × α)) : NameTable α :=
  entries.foldl (fun table entry => table.insert entry.1 entry.2) empty

/-! ### Looking up what was written -/

private theorem lookup_cons_entry (key : String) (entry : String × α)
    (rest : List (String × α)) :
    (entry :: rest).lookup key = if key = entry.1 then some entry.2 else rest.lookup key := by
  rw [List.lookup_cons]
  by_cases h : key = entry.1
  · simp [h]
  · simp [h, beq_eq_false_iff_ne.2 h]

private theorem lookup_insertEntry (name : String) (value : α) (key : String) :
    ∀ entries : List (String × α),
      (insertEntry name value entries).lookup key
        = if key = name then some value else entries.lookup key
  | [] => by simp [insertEntry, lookup_cons_entry]
  | entry :: rest => by
    have ih := lookup_insertEntry name value key rest
    unfold insertEntry
    split
    · simp [lookup_cons_entry]
    · split
      next heq => by_cases hk : key = name <;> simp [lookup_cons_entry, hk, ← heq]
      next hne =>
        by_cases hk : key = entry.1
        · have hkn : key ≠ name := fun h => hne (h ▸ hk)
          simp [lookup_cons_entry, hk, Ne.symm hne]
        · simp [lookup_cons_entry, hk, ih]

@[simp] theorem get?_empty (name : String) : (empty : NameTable α).get? name = none := rfl

/-- A name that was written has its new value, and every other name keeps its value. -/
theorem get?_insert (table : NameTable α) (name : String) (value : α) (key : String) :
    (table.insert name value).get? key = if key = name then some value else table.get? key :=
  lookup_insertEntry name value key table.entries

@[simp] theorem get?_insert_self (table : NameTable α) (name : String) (value : α) :
    (table.insert name value).get? name = some value := by
  simp [get?_insert]

theorem get?_insert_of_ne (table : NameTable α) {name key : String} (value : α) (h : key ≠ name) :
    (table.insert name value).get? key = table.get? key := by
  simp [get?_insert, h]

end NameTable

end DyadicNet
