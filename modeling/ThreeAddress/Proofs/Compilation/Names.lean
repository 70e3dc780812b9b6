import ThreeAddress.Proofs.CUnit.Machine
import ThreeAddress.Proofs.Code.Order
import ThreeAddress.Proofs.Compilation.Types

/-!
# The names in a compilation

The names of the program and the temporaries are told apart by the table, and so is what may be
done with them. A name of the program is stored before it is read, in the order of the code. A
temporary is stored by one instruction and read by one behind it, and no other code is entered or
left between the two.
-/

namespace ThreeAddress

namespace Table

variable {table after : Table} {name : String} {type : DataType}

/-- A name that is in a table is in it once. -/
theorem count_names (h : name ∈ table) : table.names.count name = 1 :=
  List.count_eq_one_of_mem table.distinct h

/-- A declaration makes no temporaries. -/
theorem temporaries_of_declare {assignable : Bool}
    (h : table.declare name type assignable = .ok after) :
    after.temporaries = table.temporaries := by
  obtain ⟨isNew, rfl⟩ := declare_ok h
  simp [temporaries, push]

/-- A value for a name makes no temporaries. -/
theorem temporaries_of_resolve (h : table.resolve name type = .ok after) :
    after.temporaries = table.temporaries := by
  obtain ⟨_, -, ⟨-, rfl⟩ | ⟨-, -, rfl⟩⟩ := resolve_ok h
  · have hkind (entry : Entry) : (retype name type entry).temporary = entry.temporary := by
      unfold retype
      split <;> rfl
    simp [temporaries, setType, List.filter_map, Function.comp_def, hkind]
  · rfl

/-- Without temporaries all names are names of the program. -/
theorem mem_declared (h : table.temporaries = []) : name ∈ table.declared ↔ name ∈ table := by
  have hnone : ∀ entry ∈ table.entries, (!entry.temporary) = true := by
    rw [temporaries, List.map_eq_nil_iff, List.filter_eq_nil_iff] at h
    simpa using h
  rw [declared, List.filter_eq_self.2 hnone]
  rfl

end Table

/-- The checker makes no temporaries. -/
theorem Tree.Checks.temporaries {tree : Tree} {nodes : List Node} {table after : Table}
    (h : tree.Checks table nodes after) : after.temporaries = table.temporaries := by
  induction h with
  | assignment _ _ _ hresolve => exact Table.temporaries_of_resolve hresolve
  | letFixed _ hdeclare | letUnset hdeclare | letMutable _ hdeclare =>
    exact Table.temporaries_of_declare hdeclare
  | ifElse _ _ _ _ _ ihBody ihTail | elseIf _ _ _ _ _ ihBody ihTail =>
    exact ihTail.trans ihBody
  | loop _ _ _ ih | otherwise _ ih => exact ih
  | output | noElse | nil => rfl
  | cons _ _ _ ihStatement ihStatements => exact ihStatements.trans ihStatement

namespace Instruction

/-- What is carried by code is stored in it. -/
theorem Carries.mem_targets {code : List Instruction} {name : String} (h : Carries code name) :
    name ∈ targets code := by
  obtain ⟨front, instruction, behind, rfl, htarget, -, -⟩ := h
  simp [htarget]

/-- A variable that is read has been stored before. -/
theorem IsSupplied.mem_targets {users : Table} {before : List Instruction} {operand : String}
    (h : IsSupplied users before operand) (hvariable : isVariable operand = true) :
    operand ∈ targets before := by
  by_cases hmem : operand ∈ users
  · exact h.user hvariable hmem
  · exact (h.temporary (Table.isTemporary_of_not_mem hvariable hmem)).mem_targets

/-- The operand of an instruction in code. -/
theorem exists_reads {code : List Instruction} {operand : String} (h : operand ∈ operands code) :
    ∃ before instruction behind, code = before ++ instruction :: behind ∧
      operand ∈ instruction.reads := by
  obtain ⟨instruction, hmem, hreads⟩ := List.mem_flatMap.1 h
  obtain ⟨before, behind, rfl⟩ := List.append_of_mem hmem
  exact ⟨before, instruction, behind, rfl, hreads⟩

end Instruction

/-- A name with storage is declared once. -/
theorem CUnit.count_declared {table : Table} {unit : CUnit} {name : String} {type : DataType}
    (hdeclared : unit.declared = table.entries.filterMap variableOf?)
    (h : storage table name = .ok type) :
    (unit.declared.map (·.name)).count name = 1 ∧ unit.typeOf? name = some type := by
  have htype := CMachine.typeOf?_of_storage hdeclared h
  refine ⟨List.count_eq_one_of_mem ?_ ?_, htype⟩
  · have hnames : (unit.declared.map (·.name)).Sublist (table.entries.map (·.name)) := by
      rw [hdeclared]
      generalize table.entries = entries
      induction entries with
      | nil => exact .slnil
      | cons entry entries ih =>
        cases hvariable : variableOf? entry with
        | none =>
          rw [List.filterMap_cons_none hvariable]
          exact ih.cons _
        | some found =>
          have hname : found.name = entry.name := by
            rw [variableOf?] at hvariable
            split at hvariable <;> cases hvariable
            rfl
          rw [List.filterMap_cons_some hvariable, List.map_cons, List.map_cons, hname]
          exact ih.cons_cons _
    exact table.distinct.sublist hnames
  · obtain ⟨found, hfound, -⟩ := Option.map_eq_some_iff.1 htype
    have hname := List.find?_some hfound
    exact List.mem_map.2 ⟨found, List.mem_of_find?_eq_some hfound, eq_of_beq hname⟩

open Instruction

namespace Compilation.Follows

variable {budgets : Budgets} {request : Request} {source : String} {tree : Tree}
  {state : CheckState} {builder : Builder} {compilation : Compilation} {name : String}

/-- The statements that have been lowered are sound. -/
theorem isSound (h : compilation.Follows budgets request source tree state builder) :
    ∃ items mark, compilation.root = .program items mark ∧
      Node.Lowers ⟨state.table, 0⟩ .statements items builder.instructions.toList builder.supply ∧
      ∀ node ∈ items, node.IsSound state.table := by
  obtain ⟨-, hcut⟩ := Tree.derives_of_ofSource h.read
  obtain ⟨-, statements, line, items, rfl, hroot, hchecks, hlowers⟩ := h.lowers
  exact ⟨items, _, hroot, hlowers, hchecks.isSound hcut⟩

/-- The checker has made no temporaries. -/
theorem temporaries (h : compilation.Follows budgets request source tree state builder) :
    state.table.temporaries = [] := by
  obtain ⟨-, statements, line, items, rfl, -, hchecks, -⟩ := h.lowers
  exact hchecks.temporaries

/-- The code writes and reads each of its temporaries once. -/
theorem isFrugal (h : compilation.Follows budgets request source tree state builder) :
    IsFrugal state.table state.table compilation.table builder.instructions.toList [] := by
  obtain ⟨items, mark, -, hlowers, hsound⟩ := h.isSound
  rw [h.table]
  exact hlowers.isFrugal (fun _ hname => hname) hsound

/-- The names of the program are those that the checker has entered. -/
theorem mem_declared (h : compilation.Follows budgets request source tree state builder) :
    name ∈ compilation.table.declared ↔ name ∈ state.table := by
  rw [h.isFrugal.declared, Table.mem_declared h.temporaries]

/-- Every variable that the code reads is supplied by the code in front. -/
theorem areSupplied (h : compilation.Follows budgets request source tree state builder) :
    AreSupplied state.table [] builder.instructions.toList := by
  obtain ⟨-, hcut⟩ := Tree.derives_of_ofSource h.read
  obtain ⟨-, statements, line, items, rfl, -, hchecks, hlowers⟩ := h.lowers
  have hstored : Table.empty.IsStored [] := nofun
  exact (hchecks.areSupplied nofun (List.Subset.refl _)
    (fun piece hpiece => (hcut.lexemes piece hpiece).1) (.refl _) "" hlowers hstored).1

end Compilation.Follows

/-- The names in the code of a compilation. The table holds the names that the program declares and
besides them the temporaries. Every temporary is the target of one instruction and is read once, by
an instruction behind that one, with neither a label nor a jump between the two. Every variable that
is read is the target of an instruction before. And every variable in an instruction has one entry
in the table, of a type that can be stored, and one declaration in the C unit, with this type. -/
theorem compile_names {budgets : Budgets} {request : Request} {source : String}
    {compilation : Compilation} (h : (compile budgets request source).1 = .ok compilation) :
    ∃ tree state builder, compilation.Follows budgets request source tree state builder ∧
      (∀ name, name ∈ compilation.table.declared ↔
        name ∈ tree.mentions.filterMap Mention.declared?) ∧
      (∀ name ∈ compilation.table.temporaries, name ∉ compilation.table.declared ∧
        (targets builder.instructions.toList).count name = 1 ∧
        (operands builder.instructions.toList).count name = 1 ∧
        ∃ before definition between use behind,
          builder.instructions.toList = before ++ definition :: (between ++ use :: behind) ∧
          definition.defines? = some name ∧ name ∈ use.reads ∧
          labels between = [] ∧ goals between = []) ∧
      (∀ before instruction behind,
        builder.instructions.toList = before ++ instruction :: behind →
        ∀ name ∈ instruction.reads, isVariable name = true → name ∈ targets before) ∧
      ∀ instruction ∈ builder.instructions.toList, ∀ name, instruction.Involves name →
        compilation.table.names.count name = 1 ∧
        ∃ type, compilation.table.type? name = some type ∧ type.isStorable = true ∧
          (request.emitC = true → ∃ unit,
            CUnit.ofInstructions compilation.table builder.instructions.toList = .ok unit ∧
            compilation.c = some (unit.text "    ") ∧
            (unit.declared.map (·.name)).count name = 1 ∧ unit.typeOf? name = some type) := by
  obtain ⟨tree, state, builder, hfollows⟩ := compile_follows h
  obtain ⟨-, statements, line, items, rfl, -, hchecks, -⟩ := hfollows.lowers
  have hsupplied := hfollows.areSupplied
  have htyped := hfollows.areTyped
  refine ⟨_, state, builder, hfollows, fun name => ?_, fun name hname => ?_,
    fun before instruction behind hcode name hname hvariable => ?_,
    fun instruction hmem name hinvolves => ?_⟩
  · exact hfollows.mem_declared.trans (hchecks.records .empty).mem_iff
  · obtain ⟨htemporary, htargets, hoperands⟩ := hfollows.isFrugal.once hfollows.temporaries hname
    refine ⟨Table.not_mem_declared hname, htargets, hoperands, ?_⟩
    obtain ⟨before, use, behind, hcode, hreads⟩ :=
      exists_reads (List.count_pos_iff.1 (hoperands ▸ Nat.one_pos))
    obtain ⟨front, definition, between, rfl, htarget, hlabels, hgoals⟩ :=
      (hsupplied.reads hcode name hreads).temporary htemporary
    refine ⟨front, definition, between, use, behind, ?_, htarget, hreads, hlabels, hgoals⟩
    rw [hcode, List.append_assoc, List.cons_append]
  · exact (hsupplied.reads hcode name hname).mem_targets hvariable
  · obtain ⟨type, htype, hstorable⟩ : ∃ type, compilation.table.type? name = some type ∧
        type.isStorable = true := by
      rcases hinvolves with ⟨hreads, hvariable⟩ | htarget
      · exact (htyped _ hmem).type_of_reads name hreads hvariable
      · exact (htyped _ hmem).type_of_defines htarget
    have hstorage := Table.storage_of_type? htype hstorable
    obtain ⟨entry, hfind, -⟩ := Option.map_eq_some_iff.1 htype
    refine ⟨Table.count_names (Table.mem_iff_find?.2 ⟨entry, hfind⟩), type, htype, hstorable,
      fun hemit => ?_⟩
    obtain ⟨-, unit, hunit, hc⟩ := hfollows.unit hemit
    obtain ⟨-, hdeclared⟩ := hfollows.isEmitted.unit_becomes hunit
    rw [← hfollows.table] at hunit hdeclared
    obtain ⟨hcount, htypeOf⟩ := CUnit.count_declared hdeclared hstorage
    exact ⟨unit, hunit, hc, hcount, htypeOf⟩

/-- A name of the program that looks like a temporary is passed over, and the next temporary is
stored and read once. -/
theorem compile_names_skipped :
    ∃ compilation, (compile {} {} "let t1 = 2; output \"%d\", t1 * 3;").1 = .ok compilation ∧
      compilation.table.temporaries = ["t2"] ∧ "t2" ∉ compilation.table.declared ∧
      "t1" ∈ compilation.table.declared ∧
      ∃ code : List Instruction, CUnit.readLines compilation.lines = .ok code ∧
        (targets code).count "t2" = 1 ∧ (operands code).count "t2" = 1 := by
  have htables : (match (compile {} {} "let t1 = 2; output \"%d\", t1 * 3;").1 with
      | .ok compilation => (compilation.table.temporaries, compilation.table.declared)
      | .error _ => ([], [])) = (["t2"], ["t1"]) := by decide +kernel
  cases hcompile : (compile {} {} "let t1 = 2; output \"%d\", t1 * 3;").1 with
  | error error =>
    rw [hcompile] at htables
    cases htables
  | ok compilation =>
    rw [hcompile] at htables
    obtain ⟨htemporaries, hdeclared⟩ := Prod.mk.inj htables
    obtain ⟨tree, state, builder, hfollows, -, honce, -⟩ := compile_names hcompile
    have htemporary : "t2" ∈ compilation.table.temporaries := by simp [htemporaries]
    obtain ⟨hnot, htargets, hoperands, -⟩ := honce "t2" htemporary
    exact ⟨compilation, rfl, htemporaries, hnot, by simp [hdeclared], _, (hfollows.unit rfl).1,
      htargets, hoperands⟩

end ThreeAddress
