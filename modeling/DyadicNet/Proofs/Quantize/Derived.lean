import Mathlib
import DyadicNet.Proofs.NameTable
import DyadicNet.Proofs.Quantize.Params
import DyadicNet.Quantize.Derived

/-!
# Constants that are added

Constants are only ever added: a lookup that found something finds the same after any later addition.
A name may be added twice, and then the first tensor stays; for the tensors that a conversion adds,
which have one form each, **the tensor under a name is the one that was added last, too**.

## Main Definitions

* `Derived.Adds` — the constants after additions under some names;
* `Derived.ExtendsBy` — the constants after additions under exactly these names;
* `Derived.HasRoom` — that names are not taken.

## Main Statements

* `Derived.get?_eq_lookup` — the table of places finds the first entry of a name;
* `Derived.run_register`, `Derived.add?_cases` — what an addition does;
* `Derived.adds_of_add?`, `Derived.adds_of_addParams?` — one addition;
* `Derived.extendsBy_of_add?`, `Derived.extendsBy_of_addParams?` — the names after one;
* `Derived.HasRoom.add`, `Derived.HasRoom.addParams` — additions that succeed.
-/

namespace DyadicNet.Quantize.Derived

/-- The names that were added. -/
def names (derived : Derived) : List String :=
  derived.entries.map (·.1)

variable {derived derived' derived'' : Derived} {added added' : List String}
  {node name : String} {tensor : Tensor} {params : Params} {type : IntType}

/-! ### The table of places -/

/-- The place of a name leads to its first entry. -/
theorem getElem?_findIdx? (name : String) (entries : List (String × Tensor)) :
    ((entries.findIdx? (·.1 == name)).bind fun place => entries[place]?.map (·.2))
      = entries.lookup name := by
  induction entries with
  | nil => rfl
  | cons entry rest ih =>
    rw [List.findIdx?_cons, List.lookup_cons]
    by_cases hname : entry.1 = name
    · simp [hname]
    · rw [← ih, beq_eq_false_iff_ne.mpr hname, beq_eq_false_iff_ne.mpr (Ne.symm hname)]
      simp [Option.bind_map]

theorem get?_eq_lookup (derived : Derived) (name : String) :
    derived.get? name = derived.entries.lookup name := by
  unfold get?
  rw [derived.places_eq, getElem?_findIdx?]

theorem get?_eq_none_iff : derived.get? name = none ↔ name ∉ derived.names := by
  rw [get?_eq_lookup]
  exact lookup_eq_none_iff

theorem isSome_get?_iff : (derived.get? name).isSome = true ↔ name ∈ derived.names := by
  rw [get?_eq_lookup]
  exact isSome_lookup_iff

theorem places_eq_none_iff : derived.places.get? name = none ↔ name ∉ derived.names := by
  rw [derived.places_eq, List.findIdx?_eq_none_iff]
  simp only [names, List.mem_map, not_exists, not_and, beq_eq_false_iff_ne, ne_eq]

theorem names_put (h : name ∉ derived.names) :
    (derived.put name tensor).names = derived.names ++ [name] := by
  unfold put names
  rw [dif_pos (places_eq_none_iff.mpr h)]
  exact List.map_append

theorem entries_put (h : name ∉ derived.names) :
    (derived.put name tensor).entries = derived.entries ++ [(name, tensor)] := by
  unfold put
  rw [dif_pos (places_eq_none_iff.mpr h)]

theorem put_of_mem (h : name ∈ derived.names) : derived.put name tensor = derived := by
  unfold put
  rw [dif_neg fun hnew => places_eq_none_iff.mp hnew h]

@[simp] theorem reserved_put : (derived.put name tensor).reserved = derived.reserved := by
  unfold put
  split_ifs <;> rfl

theorem get?_put (h : name ∉ derived.names) (key : String) :
    (derived.put name tensor).get? key
      = (derived.get? key).or (if key = name then some tensor else none) := by
  rw [get?_eq_lookup, entries_put h, lookup_concat, get?_eq_lookup]

/-! ### What an addition does -/

/-- **An addition either is refused and changes nothing, or puts the constant there.** -/
theorem run_register (derived : Derived) (node name : String) (tensor : Tensor) :
    ((register node name tensor).run.run derived).run
      = if derived.conflicts name tensor then
          (.error (.malformedNode node (.nameInUse name)), derived)
        else (.ok (), derived.put name tensor) := by
  show ((if derived.conflicts name tensor = true then
      (throw (.malformedNode node (.nameInUse name)) : ExceptT Error (StateM Derived) Unit)
    else set (derived.put name tensor)).run.run derived).run = _
  split_ifs <;> rfl

theorem add?_eq (derived : Derived) (node name : String) (tensor : Tensor) :
    derived.add? node name tensor
      = if derived.conflicts name tensor then .error (.malformedNode node (.nameInUse name))
        else .ok (derived.put name tensor) := by
  unfold add?
  rw [run_register]
  split_ifs <;> rfl

/-- An addition that succeeds finds an equal tensor under the name, or the name is free. -/
theorem add?_cases (h : derived.add? node name tensor = .ok derived') :
    (name ∈ derived.names ∧ derived' = derived ∧
        ∃ previous, derived.get? name = some previous ∧ previous.sameValues tensor = true) ∨
      (name ∉ derived.names ∧ name ∉ derived.reserved ∧ derived' = derived.put name tensor) := by
  rw [add?_eq] at h
  split_ifs at h with hconflict
  obtain rfl := Except.ok.inj h
  unfold conflicts at hconflict
  cases hget : derived.get? name with
  | some previous =>
    rw [hget] at hconflict
    have hmem : name ∈ derived.names := isSome_get?_iff.mp (by rw [hget]; rfl)
    exact .inl ⟨hmem, put_of_mem hmem, previous, rfl, by simpa using hconflict⟩
  | none =>
    rw [hget] at hconflict
    exact .inr ⟨get?_eq_none_iff.mp hget, by simpa using hconflict, rfl⟩

/-! ### Additions -/

/-- Nothing but additions, under some of the given names, lead from the one to the other. -/
structure Adds (added : List String) (derived derived' : Derived) : Prop where
  get?_eq : ∀ key value, derived.get? key = some value → derived'.get? key = some value
  mem_names : ∀ key ∈ derived'.names, key ∈ derived.names ∨ key ∈ added
  nodup : derived.names.Nodup → derived'.names.Nodup

theorem Adds.refl (derived : Derived) : Adds [] derived derived :=
  ⟨fun _ _ h => h, fun _ h => .inl h, fun h => h⟩

theorem Adds.trans (h : Adds added derived derived') (h' : Adds added' derived' derived'') :
    Adds (added ++ added') derived derived'' := by
  refine ⟨?_, ?_, ?_⟩
  · intro key value hget
    exact h'.get?_eq key value (h.get?_eq key value hget)
  · intro key hkey
    rw [List.mem_append]
    rcases h'.mem_names key hkey with hold | hnew
    · rcases h.mem_names key hold with hold | hnew
      · exact .inl hold
      · exact .inr (.inl hnew)
    · exact .inr (.inr hnew)
  · intro hnodup
    exact h'.nodup (h.nodup hnodup)

theorem Adds.mono (h : Adds added derived derived') (hsub : added ⊆ added') :
    Adds added' derived derived' :=
  ⟨h.get?_eq, fun key hkey => (h.mem_names key hkey).imp_right (hsub ·), h.nodup⟩

/-! ### One addition -/

theorem adds_of_add? (h : derived.add? node name tensor = .ok derived') :
    Adds [name] derived derived' := by
  rcases add?_cases h with ⟨-, rfl, -⟩ | ⟨hnew, -, rfl⟩
  · exact (Adds.refl derived').mono (List.nil_subset _)
  · refine ⟨?_, ?_, ?_⟩
    · intro key value hkey
      rw [get?_put hnew, hkey]
      rfl
    · intro key hkey
      simpa [names_put hnew] using hkey
    · intro hnodup
      rw [names_put hnew, List.nodup_append]
      refine ⟨hnodup, List.nodup_singleton _, ?_⟩
      rintro a ha b hb rfl
      exact hnew (List.mem_singleton.mp hb ▸ ha)

theorem get?_of_add? (h : derived.add? node name tensor = .ok derived') (hrigid : tensor.Rigid) :
    derived'.get? name = some tensor := by
  rcases add?_cases h with ⟨-, rfl, previous, hget, hsame⟩ | ⟨hnew, -, rfl⟩
  · -- the earlier tensor has the same values, and there is only one with those
    rw [hget, hrigid previous hsame]
  · rw [get?_put hnew, get?_eq_none_iff.mpr hnew, if_pos rfl]
    rfl

/-- The two constants of parameters. -/
theorem adds_of_addParams? (hvalid : params.Valid)
    (h : derived.addParams? node name params (.int type) = .ok derived') :
    Adds [scaleName name, zeroPointName name] derived derived' ∧
      params.CarriedBy type derived'.get? (scaleName name) (zeroPointName name) := by
  unfold addParams? at h
  simp only [bind_eq_ok_iff, Prod.exists] at h
  obtain ⟨scale, zeroPoint, htensors, between, hscale, hzero⟩ := h
  obtain ⟨rfl, hshape, helements⟩ := Params.toTensors?_eq_ok htensors
  have hfirst := adds_of_add? hscale
  have hsecond := adds_of_add? hzero
  refine ⟨hfirst.trans hsecond, ?_, zeroPoint, ?_, hshape, helements⟩
  · exact hsecond.get?_eq _ _
      (get?_of_add? hscale (Tensor.rigid_scalarReal hvalid.scale (zpow_two_pos _)))
  · exact get?_of_add? hzero (Tensor.rigid_of_ints helements)

/-! ### Exactly these names -/

/-- Additions under all of the given names and no others lead from the one to the other, and no name
that is taken was used. -/
structure ExtendsBy (added : List String) (derived derived' : Derived) : Prop
    extends Adds added derived derived' where
  reserved_eq : derived'.reserved = derived.reserved
  names_sub : derived.names ⊆ derived'.names
  added_sub : added ⊆ derived'.names
  not_reserved : ∀ key ∈ derived'.names, key ∈ derived.names ∨ key ∉ derived.reserved

theorem ExtendsBy.refl (derived : Derived) : ExtendsBy [] derived derived :=
  ⟨Adds.refl derived, rfl, List.Subset.refl _, List.nil_subset _, fun _ h => .inl h⟩

theorem ExtendsBy.trans (h : ExtendsBy added derived derived')
    (h' : ExtendsBy added' derived' derived'') : ExtendsBy (added ++ added') derived derived'' := by
  refine ⟨h.toAdds.trans h'.toAdds, h'.reserved_eq.trans h.reserved_eq,
    List.Subset.trans h.names_sub h'.names_sub,
    List.append_subset.mpr ⟨List.Subset.trans h.added_sub h'.names_sub, h'.added_sub⟩, ?_⟩
  intro key hkey
  rcases h'.not_reserved key hkey with hold | hnew
  · exact h.not_reserved key hold
  · exact .inr (h.reserved_eq ▸ hnew)

/-- The names after additions are those before them and the added ones. -/
theorem ExtendsBy.mem_names_iff (h : ExtendsBy added derived derived') {key : String} :
    key ∈ derived'.names ↔ key ∈ derived.names ∨ key ∈ added := by
  constructor
  · exact h.mem_names key
  · rintro (hold | hnew)
    · exact h.names_sub hold
    · exact h.added_sub hnew

theorem extendsBy_of_add? (h : derived.add? node name tensor = .ok derived') :
    ExtendsBy [name] derived derived' := by
  have hadds := adds_of_add? h
  rcases add?_cases h with ⟨hknown, rfl, -⟩ | ⟨hnew, hreserved, rfl⟩
  · exact ⟨hadds, rfl, List.Subset.refl _, (by simpa using hknown), fun _ hkey => .inl hkey⟩
  · refine ⟨hadds, reserved_put, ?_, ?_, ?_⟩
    · rw [names_put hnew]
      exact List.subset_append_left _ _
    · rw [names_put hnew]
      exact List.subset_append_right _ _
    · intro key hkey
      rw [names_put hnew, List.mem_append, List.mem_singleton] at hkey
      rcases hkey with hold | rfl
      · exact .inl hold
      · exact .inr hreserved

theorem extendsBy_of_addParams? {dtype : DType}
    (h : derived.addParams? node name params dtype = .ok derived') :
    ExtendsBy [scaleName name, zeroPointName name] derived derived' := by
  unfold addParams? at h
  simp only [bind_eq_ok_iff, Prod.exists] at h
  obtain ⟨_, _, -, between, hscale, hzero⟩ := h
  exact (extendsBy_of_add? hscale).trans (extendsBy_of_add? hzero)

/-! ### Additions that succeed -/

/-- Constants can be added under these names, one after the other: none of them is taken. -/
structure HasRoom (derived : Derived) (added : List String) : Prop where
  nodup : added.Nodup
  unused : ∀ name ∈ added, name ∉ derived.names
  unreserved : ∀ name ∈ added, name ∉ derived.reserved

variable {rest : List String}

/-- **An addition takes the first of the names.** -/
theorem HasRoom.add (h : derived.HasRoom (name :: rest)) (node : String) (tensor : Tensor) :
    ∃ derived', derived.add? node name tensor = .ok derived' ∧ derived'.HasRoom rest := by
  have hnew : name ∉ derived.names := h.unused name List.mem_cons_self
  have hfree : derived.conflicts name tensor = false := by
    unfold conflicts
    rw [get?_eq_none_iff.mpr hnew]
    simpa using h.unreserved name List.mem_cons_self
  refine ⟨derived.put name tensor, ?_, h.nodup.of_cons, ?_, ?_⟩
  · rw [add?_eq, hfree, if_neg Bool.false_ne_true]
  · intro other hother hmem
    rw [names_put hnew, List.mem_append, List.mem_singleton] at hmem
    rcases hmem with hold | rfl
    · exact h.unused other (List.mem_cons_of_mem _ hother) hold
    · exact (List.nodup_cons.mp h.nodup).1 hother
  · rw [reserved_put]
    exact fun other hother => h.unreserved other (List.mem_cons_of_mem _ hother)

/-- The two constants of parameters take the first two names. -/
theorem HasRoom.addParams (h : derived.HasRoom (scaleName name :: zeroPointName name :: rest))
    (node : String) (hvalid : params.Valid) (type : IntType) :
    ∃ derived', derived.addParams? node name params (.int type) = .ok derived' ∧
      derived'.HasRoom rest := by
  obtain ⟨zeroPoint, htensors⟩ := Params.exists_toTensors? hvalid.zeroPoint_eq type
  obtain ⟨between, hscale, hroom⟩ := h.add node (.scalarReal params.scale)
  obtain ⟨derived', hzero, hrest⟩ := hroom.add node zeroPoint
  refine ⟨derived', ?_, hrest⟩
  unfold addParams?
  rw [htensors]
  show (derived.add? node (scaleName name) (.scalarReal params.scale) >>= _) = _
  rw [hscale]
  exact hzero

end DyadicNet.Quantize.Derived
