import Mathlib.Data.List.Basic
import ThreeAddress.Proofs.Check.Invariants
import ThreeAddress.Proofs.Code.Invariants
import ThreeAddress.Proofs.Code.Operands
import ThreeAddress.Proofs.Code.Operators

/-!
# Everything that is done with a table

One table goes from hand to hand: names are entered and looked up, trees are checked over it, and
builders draw temporaries from it. Whatever is done with it in whatever order, its entries stay
where they are and are the same but for types that become known (`Table.Evolves`), and lowering
only adds temporaries behind them (`Table.Appends`). What any number of calls does to a table is
`Table.calls_evolve`.
-/

namespace ThreeAddress

open Sequence

/-! ## Later moments of a table -/

/-- An entry at a later moment: its type may have become known, all else is the same. -/
structure Entry.Becomes (entry later : Entry) : Prop where
  name : later.name = entry.name
  assignable : later.assignable = entry.assignable
  temporary : later.temporary = entry.temporary
  type : entry.type = .unknown ∨ later.type = entry.type

namespace Entry.Becomes

variable {entry between later : Entry}

/-- An entry that has not changed. -/
theorem refl (entry : Entry) : entry.Becomes entry := ⟨rfl, rfl, rfl, .inr rfl⟩

/-- A later moment than a later one. -/
theorem trans (h : entry.Becomes between) (h' : between.Becomes later) : entry.Becomes later where
  name := h'.name.trans h.name
  assignable := h'.assignable.trans h.assignable
  temporary := h'.temporary.trans h.temporary
  type := h.type.elim .inl fun heq => h'.type.imp (heq ▸ ·) (·.trans heq)

end Entry.Becomes

namespace Table

variable {table before between after : Table} {name : String} {type : DataType}

/-- A later moment of a table: its entries stand where they stood. -/
def Evolves (before after : Table) : Prop :=
  ∀ (place : Nat) (entry : Entry), before.entries[place]? = some entry →
    ∃ later, after.entries[place]? = some later ∧ entry.Becomes later

/-- A later moment of a table that has only got temporaries, of types that can be stored. -/
def Appends (before after : Table) : Prop :=
  ∃ added, after.entries = before.entries ++ added ∧ ∀ entry ∈ added,
    entry.temporary = true ∧ entry.assignable = false ∧
      entry.type ∈ [DataType.int, .bool, .char, .float]

namespace Evolves

/-- A table that has not changed. -/
theorem refl (table : Table) : table.Evolves table :=
  fun _ entry h => ⟨entry, h, .refl entry⟩

/-- A later moment than a later one. -/
theorem trans (h : before.Evolves between) (h' : between.Evolves after) :
    before.Evolves after := by
  intro place entry hentry
  obtain ⟨middle, hmiddle, hbecomes⟩ := h place entry hentry
  obtain ⟨later, hlater, hbecomes'⟩ := h' place middle hmiddle
  exact ⟨later, hlater, hbecomes.trans hbecomes'⟩

/-- The names keep their order, and new ones come behind them. -/
theorem names (h : before.Evolves after) : before.names <+: after.names := by
  refine List.prefix_iff_getElem?.2 fun place hplace => ?_
  rw [Table.names, List.length_map] at hplace
  obtain ⟨later, hlater, hbecomes⟩ := h place _ (List.getElem?_eq_getElem hplace)
  simp only [Table.names, List.getElem?_map, hlater, Option.map_some, List.getElem_map,
    hbecomes.name]

/-- A type becomes known. -/
theorem setType {entry : Entry} (hfind : table.find? name = some entry)
    (hunknown : entry.type = .unknown) (type : DataType) :
    table.Evolves (table.setType name type) := by
  intro place found hfound
  refine ⟨retype name type found, by rw [Table.setType, List.getElem?_map, hfound]; rfl, ?_⟩
  rw [retype]
  split
  · next hname =>
    have hsame : found = entry := by
      rw [← hname, find?_of_mem (List.mem_of_getElem? hfound)] at hfind
      exact Option.some.inj hfind
    exact ⟨rfl, rfl, rfl, .inl (hsame ▸ hunknown)⟩
  · exact .refl found

end Evolves

namespace Appends

/-- A table that has not changed. -/
theorem refl (table : Table) : table.Appends table := ⟨[], (List.append_nil _).symm, nofun⟩

/-- Temporaries, and more temporaries behind them. -/
theorem trans (h : before.Appends between) (h' : between.Appends after) :
    before.Appends after := by
  obtain ⟨added, hbetween, hadded⟩ := h
  obtain ⟨others, hafter, hothers⟩ := h'
  refine ⟨added ++ others, by rw [hafter, hbetween, List.append_assoc], ?_⟩
  exact List.forall_mem_append.2 ⟨hadded, hothers⟩

/-- One more temporary. -/
theorem addTemporary (hstorable : type.isStorable = true)
    (h : table.addTemporary name type = .ok after) : table.Appends after := by
  obtain ⟨isNew, rfl⟩ := addTemporary_ok h
  refine ⟨[⟨name, type, false, true⟩], rfl, List.forall_mem_singleton.2 ⟨rfl, rfl, ?_⟩⟩
  cases type <;> first | cases hstorable; done | simp

end Appends

/-- A new entry leaves the others where they are. -/
theorem evolves_push {entry : Entry} (isNew : entry.name ∉ table) :
    table.Evolves (table.push entry isNew) := by
  intro place found hfound
  refine ⟨found, ?_, .refl found⟩
  rw [push, List.getElem?_append_left (List.getElem?_eq_some_iff.1 hfound).1, hfound]

/-- So do temporaries. -/
theorem Appends.evolves (h : before.Appends after) : before.Evolves after := by
  obtain ⟨added, hafter, -⟩ := h
  intro place found hfound
  refine ⟨found, ?_, .refl found⟩
  rw [hafter, List.getElem?_append_left (List.getElem?_eq_some_iff.1 hfound).1, hfound]

/-- A declaration keeps the entries. -/
theorem evolves_of_declare {assignable : Bool}
    (h : table.declare name type assignable = .ok after) : table.Evolves after := by
  obtain ⟨isNew, rfl⟩ := declare_ok h
  exact evolves_push isNew

/-- A value for a name keeps the entries. -/
theorem evolves_of_resolve (h : table.resolve name type = .ok after) : table.Evolves after := by
  obtain ⟨entry, hfind, ⟨hunknown, rfl⟩ | ⟨-, -, rfl⟩⟩ := resolve_ok h
  · exact .setType hfind hunknown type
  · exact .refl _

/-- A temporary keeps the entries. -/
theorem evolves_of_addTemporary (h : table.addTemporary name type = .ok after) :
    table.Evolves after := by
  obtain ⟨isNew, rfl⟩ := addTemporary_ok h
  exact evolves_push isNew

/-- The names of the program and the temporaries are all names, each of them in its order. -/
theorem names_split (table : Table) :
    table.declared.Sublist table.names ∧ table.temporaries.Sublist table.names ∧
      table.declared.Disjoint table.temporaries ∧
      (table.declared ++ table.temporaries).Perm table.names := by
  refine ⟨List.filter_sublist.map _, List.filter_sublist.map _, ?_, ?_⟩
  · exact fun name hdeclared htemporary => not_mem_declared htemporary hdeclared
  · have hperm := List.filter_append_perm (fun entry : Entry => !entry.temporary) table.entries
    simp only [Bool.not_not] at hperm
    rw [declared, temporaries, ← List.map_append]
    exact hperm.map _

end Table

/-- Checking a program keeps the entries of the table. -/
theorem Check.isKept_evolves : IsKept Table.Evolves where
  refl := .refl
  trans := Table.Evolves.trans
  declare := Table.evolves_of_declare
  resolve := Table.evolves_of_resolve

/-! ## Lowering over a table -/

namespace Lower

/-- Lowering only adds temporaries to the table. -/
theorem isKept_appends : IsKept fun before after => before.table.Appends after.table where
  refl builder := .refl builder.table
  trans := Table.Appends.trans
  push builder _ _ := .refl builder.table
  issue builder := .refl builder.table
  allocate _ hstorable htable := .addTemporary hstorable htable

/-- No refusal of the table is among the errors that the lowering of a tree may end in. -/
theorem ne_names_of_isForeseen {tidy textless : Prop} {error : LowerError}
    (h : error.IsForeseen tidy textless) (refused : TableError) : error ≠ .names refused := by
  rintro rfl
  rcases h with ⟨reason, hreport⟩ | ⟨-, ⟨⟩⟩ | ⟨-, label, ⟨⟩⟩
  cases refused <;> cases hreport

/-- Lowering a program over the table at hand only adds temporaries to it. -/
theorem lowerProgram_appends (budget : Nat) (root : Node) (builder : Builder) :
    builder.table.Appends (last (root.lowerProgram budget none) builder).table := by
  have hreset (builder : Builder) : builder.table.Appends
      ({ builder with table := (none : Option Table).getD builder.table } : Builder).reset.table :=
    .refl builder.table
  exact isKept_appends.lowerProgram hreset budget root builder

variable {builder after : Builder} {error : LowerError}

/-- The table never refuses a temporary that is drawn. -/
theorem freshTemporary_ne_names {type : DataType}
    (h : freshTemporary type builder = .error error after) (refused : TableError) :
    error ≠ .names refused := by
  cases hstorable : type.isStorable with
  | true =>
    obtain ⟨table, -, hrun⟩ := freshTemporary_ok builder hstorable
    cases hrun.symm.trans h
  | false =>
    cases (freshTemporary_error hstorable).symm.trans h
    nofun

/-- The table refuses no temporary of a program. -/
theorem lowerProgram_ne_names {budget : Nat} {root : Node} {table : Option Table}
    (h : root.lowerProgram budget table builder = .error error after) (refused : TableError) :
    error ≠ .names refused := by
  cases root with
  | program statements mark =>
    obtain hreset | ⟨_, start, -, h⟩ := bind_error.1 h
    · cases hreset
    obtain hlower | ⟨_, between, -, h⟩ := bind_error.1 h
    · have hanswers := @Node.lower_answers False start (.program statements mark) budget
        False.elim
      exact ne_names_of_isForeseen (hanswers.of_error hlower) refused
    obtain hget | ⟨state, _, hget, h⟩ := bind_error.1 h
    · cases hget
    obtain hwhole | hopen := Bool.eq_false_or_eq_true state.labels.unresolved.isEmpty
    · rw [if_pos hwhole] at h
      obtain hget | ⟨_, _, -, h⟩ := bind_error.1 h
      · cases hget
      cases h
    · rw [if_neg (by simp [hopen])] at h
      cases h
      nofun
  | _ =>
    cases h
    nofun

end Lower

/-! ## Calls -/

namespace Table

/-- What is done with a table: an operation of its own, a check of a program over it, or lowering
over it. The checker and the builder may have been used before, for anything and over any table.
A builder that is handed the table has it as its own (`Builder.lowerProgram_congr`). -/
inductive Call where
  | declare (name : String) (type : DataType) (assignable : Bool)
  | resolve (name : String) (type : DataType)
  | addTemporary (name : String) (type : DataType)
  | lookup (name : String)
  | find (name : String)
  | check (state : CheckState) (budget : Nat) (tree : Tree)
  | freshTemporary (builder : Builder) (type : DataType)
  | lowerProgram (builder : Builder) (budget : Nat) (root : Node)

/-- Why a call fails. -/
inductive CallError where
  | table (error : TableError)
  | check (error : CheckError)
  | lower (error : LowerError)
  deriving DecidableEq

namespace Call

/-- Whether a call is an operation of the table that may fail. -/
def isOperation : Call → Bool
  | declare .. | resolve .. | addTemporary .. | lookup _ => true
  | _ => false

/-- Whether a call lowers over the table. -/
def isLowering : Call → Bool
  | freshTemporary .. | lowerProgram .. => true
  | _ => false

/-- What an operation of the table comes to. -/
def operate (table : Table) : Except TableError Table → Except CallError Unit × Table
  | .ok after => (.ok (), after)
  | .error error => (.error (.table error), table)

/-- What a computation on a state with a table comes to. -/
def compute {Error State Value : Type} (wrap : Error → CallError) (tableOf : State → Table)
    (run : EStateM Error State Value) (state : State) : Except CallError Unit × Table :=
  match run state with
  | .ok _ after => (.ok (), tableOf after)
  | .error error after => (.error (wrap error), tableOf after)

/-- Whether a call fails and why, and the table after it. -/
def perform (table : Table) : Call → Except CallError Unit × Table
  | declare name type assignable => operate table (table.declare name type assignable)
  | resolve name type => operate table (table.resolve name type)
  | addTemporary name type => operate table (table.addTemporary name type)
  | lookup name => operate table ((table.lookup name).map fun _ => table)
  | find _ => (.ok (), table)
  | check state budget tree =>
    compute .check (·.table) (tree.checkProgram budget) { state with table }
  | freshTemporary builder type =>
    compute .lower (·.table) (Lower.freshTemporary type) { builder with table }
  | lowerProgram builder budget root =>
    compute .lower (·.table) (root.lowerProgram budget none) { builder with table }

variable {table : Table}

/-- A relation that every table after an operation has to the one before. -/
theorem rel_operate {rel : Table → Table → Prop} (refl : rel table table)
    {result : Except TableError Table} (h : ∀ after, result = .ok after → rel table after) :
    rel table (operate table result).2 := by
  cases result with
  | ok after => exact h after rfl
  | error error => exact refl

/-- The table after a computation. -/
theorem compute_snd {Error State Value : Type} (wrap : Error → CallError) (tableOf : State → Table)
    (run : EStateM Error State Value) (state : State) :
    (compute wrap tableOf run state).2 = tableOf (last run state) := by
  rw [compute, last]
  cases run state <;> rfl

/-- A failure of a computation is one of its own errors. -/
theorem compute_fst {Error State Value : Type} {wrap : Error → CallError} {tableOf : State → Table}
    {run : EStateM Error State Value} {state : State} {error : CallError}
    (h : (compute wrap tableOf run state).1 = .error error) :
    ∃ own after, run state = .error own after ∧ error = wrap own := by
  rw [compute] at h
  cases hrun : run state with
  | ok value after =>
    rw [hrun] at h
    cases h
  | error own after =>
    rw [hrun] at h
    cases h
    exact ⟨own, after, rfl, rfl⟩

/-- The table after any call is a later moment of the one before. -/
theorem evolves (call : Call) (table : Table) : table.Evolves (call.perform table).2 := by
  cases call with
  | declare name type assignable =>
    exact rel_operate (.refl table) fun _ => Table.evolves_of_declare
  | resolve name type => exact rel_operate (.refl table) fun _ => Table.evolves_of_resolve
  | addTemporary name type =>
    exact rel_operate (.refl table) fun _ => Table.evolves_of_addTemporary
  | lookup name =>
    refine rel_operate (.refl table) fun after hafter => ?_
    obtain ⟨_, -, rfl⟩ := Sequence.except_map_ok.1 hafter
    exact .refl table
  | find name => exact .refl table
  | check state budget tree =>
    rw [perform, compute_snd]
    exact Check.isKept_evolves.checkProgram budget tree { state with table }
  | freshTemporary builder type =>
    rw [perform, compute_snd]
    exact (Lower.isKept_appends.freshTemporary type { builder with table }).evolves
  | lowerProgram builder budget root =>
    rw [perform, compute_snd]
    exact (Lower.lowerProgram_appends budget root { builder with table }).evolves

/-- A call that lowers only adds temporaries, and the table does not refuse them. -/
theorem appends_of_isLowering {call : Call} (h : call.isLowering = true) (table : Table) :
    table.Appends (call.perform table).2 ∧
      ∀ refused, (call.perform table).1 ≠ .error (.lower (.names refused)) := by
  cases call with
  | freshTemporary builder type =>
    refine ⟨?_, fun refused herror => ?_⟩
    · rw [perform, compute_snd]
      exact Lower.isKept_appends.freshTemporary type { builder with table }
    · obtain ⟨own, after, hrun, ⟨⟩⟩ := compute_fst herror
      exact Lower.freshTemporary_ne_names hrun refused rfl
  | lowerProgram builder budget root =>
    refine ⟨?_, fun refused herror => ?_⟩
    · rw [perform, compute_snd]
      exact Lower.lowerProgram_appends budget root { builder with table }
    · obtain ⟨own, after, hrun, ⟨⟩⟩ := compute_fst herror
      exact Lower.lowerProgram_ne_names hrun refused rfl
  | _ => cases h

/-- An operation of the table that fails leaves the table as it was. -/
theorem perform_of_failed {call : Call} (h : call.isOperation = true)
    (hfailed : (call.perform table).1 ≠ .ok ()) : (call.perform table).2 = table := by
  have hoperate {result : Except TableError Table} (hfailed : (operate table result).1 ≠ .ok ()) :
      (operate table result).2 = table := by
    cases result with
    | ok after => exact absurd rfl hfailed
    | error error => rfl
  cases call with
  | declare | resolve | addTemporary | lookup => exact hoperate hfailed
  | _ => cases h

end Call

/-- The table after several calls, one after the other, those that fail included. -/
def after (table : Table) (calls : List Call) : Table :=
  calls.foldl (fun table call => (call.perform table).2) table

/-- The table after several calls is a later moment of the one before them. -/
theorem evolves_after (table : Table) (calls : List Call) : table.Evolves (table.after calls) := by
  induction calls generalizing table with
  | nil => exact .refl table
  | cons call calls ih => exact (call.evolves table).trans (ih (call.perform table).2)

/-- Whatever is done with a table, in whatever order and with or without success: later its names
are those of before with new ones behind them, each once; every entry is where it was and the same,
but that its type may have become known; and the names of the program and the temporaries are two
parts of the names in their order. An operation of the table that fails leaves it as it was.
Lowering only adds temporaries behind the entries, and the table refuses none of them. -/
theorem calls_evolve (start : Table) (earlier later : List Call) :
    let before := start.after earlier
    let table := start.after (earlier ++ later)
    (before.Evolves table ∧ before.names <+: table.names ∧ table.names.Nodup) ∧
      (table.declared.Sublist table.names ∧ table.temporaries.Sublist table.names ∧
        table.declared.Disjoint table.temporaries ∧
        (table.declared ++ table.temporaries).Perm table.names) ∧
      ∀ call : Call,
        (call.isOperation = true → (call.perform table).1 ≠ .ok () →
          (call.perform table).2 = table) ∧
        (call.isLowering = true → table.Appends (call.perform table).2 ∧
          ∀ refused, (call.perform table).1 ≠ .error (.lower (.names refused))) := by
  intro before table
  have hevolves : before.Evolves table := by
    have htable : table = before.after later := List.foldl_append
    exact htable ▸ before.evolves_after later
  refine ⟨⟨hevolves, hevolves.names, table.distinct⟩, table.names_split, fun call => ?_⟩
  exact ⟨Call.perform_of_failed, fun h => Call.appends_of_isLowering h table⟩

/-- A program that calls a name of its own `t1` and leaves `x` without a value is checked once with
success and once without. The first temporary is then `t2`, and another `x` is refused. -/
theorem calls_evolve_clash : ∃ table : Table,
    table = empty.after [.check {} 9 (.block [.letMutable "t1" (.literal .intLit "1" 1) 1,
        .letMutable "x" .absent 2] 1), .check {} 9 (.block [.assignment "x" (.input 1) 1,
        .letFixed "t1" (.input 2) 2] 1), .freshTemporary {} .char] ∧
    table.entries = [⟨"t1", .int, true, false⟩, ⟨"x", .int, true, false⟩,
      ⟨"t2", .char, false, true⟩] ∧
    ((Call.declare "x" .int true).perform table).1 ≠ .ok () ∧
    ((Call.declare "x" .int true).perform table).2 = table ∧
    table.Appends ((Call.freshTemporary {} .char).perform table).2 := by
  obtain ⟨-, -, hcall⟩ := calls_evolve empty [.check {} 9 (.block [.letMutable "t1"
    (.literal .intLit "1" 1) 1, .letMutable "x" .absent 2] 1)] [.check {} 9 (.block [.assignment "x"
    (.input 1) 1, .letFixed "t1" (.input 2) 2] 1), .freshTemporary {} .char]
  refine ⟨_, rfl, by decide +kernel, by decide +kernel, ?_, ((hcall _).2 rfl).1⟩
  exact (hcall _).1 rfl (by decide +kernel)

end Table

end ThreeAddress
