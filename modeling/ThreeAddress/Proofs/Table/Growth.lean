import ThreeAddress.Table

/-!
# How the table of names grows

What each operation of the table does, told by the entries that are found afterwards. An
operation that succeeds keeps every entry, and of its type only that it was unknown
(`Table.Grows`); so what has been read off the table stays true of every later table.
-/

namespace ThreeAddress

namespace Table

variable {table before between after : Table} {name other : String} {entry : Entry}
  {type : DataType}

/-! ## Finding entries -/

/-- An entry that is found is in the table, under its name. -/
theorem mem_of_find? (h : table.find? name = some entry) :
    entry ∈ table.entries ∧ entry.name = name := by
  refine ⟨List.mem_of_find?_eq_some h, ?_⟩
  have hname := List.find?_some h
  simpa using hname

/-- An entry of a table is the one that is found under its name. -/
theorem find?_of_mem (h : entry ∈ table.entries) : table.find? entry.name = some entry := by
  obtain ⟨entries, distinct⟩ := table
  show entries.find? _ = _
  induction entries with
  | nil => cases h
  | cons first others ih =>
    rw [List.map_cons, List.nodup_cons] at distinct
    cases h with
    | head => simp
    | tail _ hmem =>
      have hne : first.name ≠ entry.name := by
        intro heq
        exact distinct.1 (heq ▸ List.mem_map_of_mem hmem)
      rw [List.find?_cons_of_neg (by simpa using hne)]
      exact ih distinct.2 hmem

/-- A name is in a table iff an entry is found for it. -/
theorem mem_iff_find? : name ∈ table ↔ ∃ entry, table.find? name = some entry := by
  constructor
  · intro h
    obtain ⟨entry, hmem, rfl⟩ := List.mem_map.1 h
    exact ⟨entry, find?_of_mem hmem⟩
  · rintro ⟨entry, h⟩
    obtain ⟨hmem, rfl⟩ := mem_of_find? h
    exact List.mem_map_of_mem hmem

/-- The entry behind the others is found under its name. -/
theorem find?_push_self (entry : Entry) (isNew : entry.name ∉ table) :
    (table.push entry isNew).find? entry.name = some entry :=
  find?_of_mem (List.mem_append_right _ (.head _))

/-- An entry behind the others leaves the others as they were. -/
theorem find?_push_of_ne (isNew : entry.name ∉ table) (h : name ≠ entry.name) :
    (table.push entry isNew).find? name = table.find? name := by
  rw [find?, push, List.find?_append, find?]
  have hlast : [entry].find? (fun entry => entry.name == name) = none := by
    simpa using Ne.symm h
  rw [hlast, Option.or_none]

/-- A type for a name changes the entry of this name. -/
theorem find?_setType (table : Table) (name other : String) (type : DataType) :
    (table.setType name type).find? other = (table.find? other).map (retype name type) := by
  rw [find?, setType, List.find?_map, find?]
  simp only [Function.comp_def, name_retype]

/-- What is looked up is what is found. -/
theorem lookup_ok : table.lookup name = .ok entry ↔ table.find? name = some entry := by
  unfold lookup
  cases table.find? name <;> simp

/-- A name that is looked up in vain is not declared. -/
theorem lookup_error {error : TableError} (h : table.lookup name = .error error) :
    error = .notDeclared name := by
  unfold lookup at h
  split at h
  · cases h
  · cases h
    rfl

/-! ## Growth -/

/-- Every entry stays, and a type that was known stays the same. -/
def Grows (before after : Table) : Prop :=
  ∀ name entry, before.find? name = some entry →
    ∃ type, after.find? name = some { entry with type } ∧
      (entry.type = .unknown ∨ type = entry.type)

namespace Grows

/-- A table that has not changed. -/
@[refl] theorem refl (table : Table) : table.Grows table :=
  fun _ entry h => ⟨entry.type, h, .inr rfl⟩

/-- Growth, and growth again. -/
theorem trans (h : before.Grows between) (h' : between.Grows after) : before.Grows after := by
  intro name entry hfind
  obtain ⟨type, hfind', htype⟩ := h name entry hfind
  obtain ⟨type', hfind'', htype'⟩ := h' name _ hfind'
  refine ⟨type', hfind'', ?_⟩
  rcases htype with hunknown | rfl
  · exact .inl hunknown
  · exact htype'

/-- A known type is the same in the larger table. -/
theorem known (h : before.Grows after) (hfind : before.find? name = some entry)
    (htype : entry.type ≠ .unknown) : after.find? name = some entry := by
  obtain ⟨type, hfind', hunknown | rfl⟩ := h name entry hfind
  · exact absurd hunknown htype
  · exact hfind'

/-- A name stays in the table. -/
theorem mem (h : before.Grows after) (hmem : name ∈ before) : name ∈ after := by
  obtain ⟨entry, hfind⟩ := mem_iff_find?.1 hmem
  obtain ⟨type, hfind', -⟩ := h name entry hfind
  exact mem_iff_find?.2 ⟨_, hfind'⟩

end Grows

/-- A new entry leaves the others as they were. -/
theorem grows_push (isNew : entry.name ∉ table) : table.Grows (table.push entry isNew) := by
  intro name found hfind
  have hne : name ≠ entry.name := by
    rintro rfl
    exact isNew (mem_iff_find?.2 ⟨found, hfind⟩)
  exact ⟨found.type, by rw [find?_push_of_ne isNew hne, hfind], .inr rfl⟩

/-- A type for a name whose type was unknown. -/
theorem grows_setType (hfind : table.find? name = some entry) (hunknown : entry.type = .unknown)
    (type : DataType) : table.Grows (table.setType name type) := by
  intro other found hother
  have hfound : (table.setType name type).find? other = some (retype name type found) := by
    rw [find?_setType, hother, Option.map_some]
  obtain ⟨-, hname⟩ := mem_of_find? hother
  unfold retype at hfound
  split at hfound
  · next heq =>
    have hsame : entry = found := by
      rw [← hname, heq, hfind] at hother
      exact Option.some.inj hother
    exact ⟨type, hfound, .inl (hsame ▸ hunknown)⟩
  · exact ⟨found.type, hfound, .inr rfl⟩

/-! ## The operations -/

/-- A declaration adds an entry for a name that is new. -/
theorem declare_ok {assignable : Bool} (h : table.declare name type assignable = .ok after) :
    ∃ isNew : name ∉ table, after = table.push ⟨name, type, assignable, false⟩ isNew := by
  unfold declare at h
  split at h
  · cases h
  · next isNew =>
    cases h
    exact ⟨isNew, rfl⟩

/-- A declaration fails on a name that is known. -/
theorem declare_error {assignable : Bool} {error : TableError}
    (h : table.declare name type assignable = .error error) :
    error = .alreadyDeclared name ∧ name ∈ table := by
  unfold declare at h
  split at h
  · next known =>
    cases h
    exact ⟨rfl, known⟩
  · cases h

/-- A temporary is a new entry of its own kind. -/
theorem addTemporary_ok (h : table.addTemporary name type = .ok after) :
    ∃ isNew : name ∉ table, after = table.push ⟨name, type, false, true⟩ isNew := by
  unfold addTemporary at h
  split at h
  · cases h
  · next isNew =>
    cases h
    exact ⟨isNew, rfl⟩

/-- A temporary with a new name is added. -/
theorem addTemporary_of_not_mem (h : name ∉ table) :
    ∃ after, table.addTemporary name type = .ok after := by
  unfold addTemporary
  exact ⟨_, dif_neg h⟩

/-- What becomes of a value that is assigned to a known name. -/
theorem resolve_eq (h : table.lookup name = .ok entry) :
    table.resolve name type =
      if entry.type = .unknown then .ok (table.setType name type)
      else if entry.type = type then .ok table
      else .error (.typeMismatch name type entry.type) := by
  rw [resolve, h]
  rfl

/-- An assigned value gives a name its type, or has this type already. -/
theorem resolve_ok (h : table.resolve name type = .ok after) :
    ∃ entry, table.find? name = some entry ∧
      ((entry.type = .unknown ∧ after = table.setType name type) ∨
        (entry.type ≠ .unknown ∧ entry.type = type ∧ after = table)) := by
  cases hlookup : table.lookup name with
  | error error =>
    rw [resolve, hlookup] at h
    cases h
  | ok entry =>
    rw [resolve_eq hlookup] at h
    refine ⟨entry, lookup_ok.1 hlookup, ?_⟩
    split at h
    · next hunknown =>
      cases h
      exact .inl ⟨hunknown, rfl⟩
    · next hknown =>
      split at h
      · next htype =>
        cases h
        exact .inr ⟨hknown, htype, rfl⟩
      · cases h

/-- An assignment fails on a name without an entry, or with one of another type. -/
theorem resolve_error {error : TableError} (h : table.resolve name type = .error error) :
    error = .notDeclared name ∨ ∃ held, error = .typeMismatch name type held := by
  cases hlookup : table.lookup name with
  | error error' =>
    rw [resolve, hlookup] at h
    cases h
    exact .inl (lookup_error hlookup)
  | ok entry =>
    rw [resolve_eq hlookup] at h
    split at h
    · cases h
    · split at h
      · cases h
      · cases h
        exact .inr ⟨entry.type, rfl⟩

/-- A declaration keeps every entry. -/
theorem grows_of_declare {assignable : Bool} (h : table.declare name type assignable = .ok after) :
    table.Grows after := by
  obtain ⟨isNew, rfl⟩ := declare_ok h
  exact grows_push isNew

/-- A declared name has the entry of its declaration. -/
theorem find?_of_declare {assignable : Bool} (h : table.declare name type assignable = .ok after) :
    after.find? name = some ⟨name, type, assignable, false⟩ := by
  obtain ⟨isNew, rfl⟩ := declare_ok h
  exact find?_push_self ⟨name, type, assignable, false⟩ isNew

/-- An assignment keeps every entry. -/
theorem grows_of_resolve (h : table.resolve name type = .ok after) : table.Grows after := by
  obtain ⟨entry, hfind, ⟨hunknown, rfl⟩ | ⟨-, -, rfl⟩⟩ := resolve_ok h
  · exact grows_setType hfind hunknown type
  · exact .refl _

/-- An assigned name has the type of the value. -/
theorem find?_of_resolve (h : table.resolve name type = .ok after) :
    ∃ entry, after.find? name = some entry ∧ entry.type = type := by
  obtain ⟨entry, hfind, ⟨-, rfl⟩ | ⟨-, htype, rfl⟩⟩ := resolve_ok h
  · refine ⟨retype name type entry, ?_, ?_⟩
    · rw [find?_setType, hfind, Option.map_some]
    · obtain ⟨-, hname⟩ := mem_of_find? hfind
      rw [retype, if_pos hname]
  · exact ⟨entry, hfind, htype⟩

/-- A temporary keeps every entry. -/
theorem grows_of_addTemporary (h : table.addTemporary name type = .ok after) :
    table.Grows after := by
  obtain ⟨isNew, rfl⟩ := addTemporary_ok h
  exact grows_push isNew

/-- A temporary has the entry of its own kind. -/
theorem find?_of_addTemporary (h : table.addTemporary name type = .ok after) :
    after.find? name = some ⟨name, type, false, true⟩ := by
  obtain ⟨isNew, rfl⟩ := addTemporary_ok h
  exact find?_push_self ⟨name, type, false, true⟩ isNew

end Table

end ThreeAddress
