import ThreeAddress.DataType
import ThreeAddress.Report

/-!
# The table of names

One table for the whole program: a name declared in a body stays known after it. The names keep
the order in which they came in, and no name has two entries. An entry is never removed; only its
type can change, and only from `unknown`. Lowering adds the temporaries it allocates.
-/

namespace ThreeAddress

/-- What is known of a name. -/
structure Entry where
  name : String
  type : DataType
  /-- Whether the program may assign to it after its declaration. -/
  assignable : Bool
  /-- Whether lowering made it. -/
  temporary : Bool
  deriving DecidableEq, Repr

/-- Names and what is known of them, in the order in which they came in. -/
structure Table where
  entries : List Entry
  /-- No name has two entries. -/
  distinct : (entries.map (·.name)).Nodup
  deriving DecidableEq, Repr

/-- Why the table refuses an operation. -/
inductive TableError where
  | alreadyDeclared (name : String)
  | notDeclared (name : String)
  | typeMismatch (name : String) (assigned held : DataType)
  | temporaryClash (name : String)
  deriving DecidableEq, Repr

/-- The error in words, for the given line. A clash of temporaries is no fault of the program. -/
def TableError.report (line : Option Line) : TableError → Report
  | alreadyDeclared name => .semantic ("Identifier '" ++ name ++ "' has already been declared") line
  | notDeclared name => .semantic ("Identifier '" ++ name ++ "' has not been declared") line
  | typeMismatch name assigned held =>
    .semantic ("Type mismatch: cannot assign " ++ assigned.name ++ " to '" ++ name ++
      "' of type " ++ held.name) line
  | temporaryClash name =>
    .internal "TAC Generator" ("temporary '" ++ name ++ "' clashes with an existing identifier")

namespace Table

/-- The table without names. -/
def empty : Table := ⟨[], .nil⟩

/-- All names, the oldest first. -/
def names (table : Table) : List String := table.entries.map (·.name)

/-- A name is in a table if it has an entry there. -/
instance : Membership String Table := ⟨fun table name => name ∈ table.names⟩

/-- To be in a table is to be among its names. -/
theorem mem_iff {name : String} {table : Table} : name ∈ table ↔ name ∈ table.names := Iff.rfl

instance (name : String) (table : Table) : Decidable (name ∈ table) :=
  decidable_of_iff (table.entries.any fun entry => entry.name == name) (by simp [mem_iff, names])

/-- The entry of a name. -/
def find? (table : Table) (name : String) : Option Entry :=
  table.entries.find? fun entry => entry.name == name

/-- The names of the program. -/
def declared (table : Table) : List String :=
  (table.entries.filter fun entry => !entry.temporary).map (·.name)

/-- The names that lowering made. -/
def temporaries (table : Table) : List String :=
  (table.entries.filter fun entry => entry.temporary).map (·.name)

/-- How many names there are. -/
def size (table : Table) : Nat := table.entries.length

/-- Puts the entry of a new name behind the others. -/
def push (table : Table) (entry : Entry) (isNew : entry.name ∉ table) : Table where
  entries := table.entries ++ [entry]
  distinct := by
    rw [List.map_append]
    exact List.nodup_append.2 ⟨table.distinct, by simp, by
      rintro name hname _ hlast rfl
      rw [List.map_singleton, List.mem_singleton] at hlast
      exact isNew (hlast ▸ hname)⟩

/-- An entry with another type, if it is that of the name. -/
def retype (name : String) (type : DataType) (entry : Entry) : Entry :=
  if entry.name = name then { entry with type } else entry

/-- Another type leaves the name of an entry alone. -/
@[simp] theorem name_retype (name : String) (type : DataType) (entry : Entry) :
    (retype name type entry).name = entry.name := by
  unfold retype
  split <;> rfl

/-- Gives a name its type. -/
def setType (table : Table) (name : String) (type : DataType) : Table where
  entries := table.entries.map (retype name type)
  distinct := by simpa [List.map_map, Function.comp_def] using table.distinct

/-- Adds a name of the program, which must be new. -/
def declare (table : Table) (name : String) (type : DataType) (assignable : Bool) :
    Except TableError Table :=
  if known : name ∈ table then .error (.alreadyDeclared name)
  else .ok (table.push ⟨name, type, assignable, false⟩ known)

/-- The entry of a name, which must be known. -/
def lookup (table : Table) (name : String) : Except TableError Entry :=
  match table.find? name with
  | some entry => .ok entry
  | none => .error (.notDeclared name)

/-- Records that a value of the given type is assigned to a name. A name of unknown type takes
the type; any other must have it already. -/
def resolve (table : Table) (name : String) (type : DataType) : Except TableError Table := do
  let entry ← table.lookup name
  if entry.type = .unknown then .ok (table.setType name type)
  else if entry.type = type then .ok table
  else .error (.typeMismatch name type entry.type)

/-- Adds a temporary, whose name must be new. -/
def addTemporary (table : Table) (name : String) (type : DataType) : Except TableError Table :=
  if known : name ∈ table then .error (.temporaryClash name)
  else .ok (table.push ⟨name, type, false, true⟩ known)

/-- Adds a row as the operation does that makes such rows. -/
def insert (table : Table) (entry : Entry) : Except TableError Table :=
  if entry.temporary then table.addTemporary entry.name entry.type
  else table.declare entry.name entry.type entry.assignable

/-- The table with the given rows. -/
def ofEntries (entries : List Entry) : Except TableError Table :=
  entries.foldlM insert empty

/-- An entry behind the others adds its name behind the others. -/
@[simp] theorem names_push (table : Table) (entry : Entry) (isNew : entry.name ∉ table) :
    (table.push entry isNew).names = table.names ++ [entry.name] := by
  simp [names, push]

/-- A type for a name changes no name. -/
@[simp] theorem names_setType (table : Table) (name : String) (type : DataType) :
    (table.setType name type).names = table.names := by
  simp [names, setType, Function.comp_def]

end Table

end ThreeAddress
