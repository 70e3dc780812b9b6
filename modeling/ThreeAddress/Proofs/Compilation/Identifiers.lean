import ThreeAddress.Proofs.CUnit.Identifiers
import ThreeAddress.Proofs.Compilation.Renaming

/-!
# The names that a unit declares

A unit declares temporaries, which C can always declare, and names of the program as the lexer has
cut them out of the source. Nothing on the way changes or refuses a name. So a unit declares what C
cannot declare exactly where the program has a name with a digit of another script, or a name that
is reserved in C only (`compile_declarations`).
-/

namespace ThreeAddress

open Text

/-! ## Temporaries -/

/-- The temporaries of a table have the names of numbers. -/
def Table.IsNumbered (table : Table) : Prop :=
  ∀ name ∈ table.temporaries, ∃ number, name = Temporaries.nameOf number

/-- One more temporary. -/
theorem Table.IsNumbered.addTemporary {table after : Table} {number : Nat} {type : DataType}
    (h : table.IsNumbered)
    (hadd : table.addTemporary (Temporaries.nameOf number) type = .ok after) :
    after.IsNumbered := by
  intro name hname
  rw [(temporaries_of_addTemporary hadd).1, List.mem_append, List.mem_singleton] at hname
  rcases hname with hname | rfl
  · exact h name hname
  · exact ⟨number, rfl⟩

namespace Node

variable {table after : Table} {code : List Instruction}

/-- The temporaries of an expression have the names of numbers. -/
theorem Computes.isNumbered {node : Node} {operand : String}
    (h : node.Computes table code operand after) (htable : table.IsNumbered) :
    after.IsNumbered := by
  induction h with
  | literal | var => exact htable
  | input hadd => exact htable.addTemporary hadd
  | unary _ hadd ih => exact (ih htable).addTemporary hadd
  | binary _ _ hadd ihLeft ihRight => exact (ihRight (ihLeft htable)).addTemporary hadd

/-- The temporaries of arguments have the names of numbers. -/
theorem ComputesAll.isNumbered {nodes : List Node} {operands : List String}
    (h : ComputesAll table nodes code operands after) (htable : table.IsNumbered) :
    after.IsNumbered := by
  induction h with
  | nil => exact htable
  | cons hnode _ ih => exact ih (hnode.isNumbered htable)

/-- The temporaries of statements and of the parts of a conditional have the names of numbers. -/
theorem Lowers.isNumbered {supply after : Supply} {shape : Shape} {nodes : List Node}
    (h : Lowers supply shape nodes code after) (htable : supply.table.IsNumbered) :
    after.table.IsNumbered := by
  induction h with
  | nil | noElse => exact htable
  | assignment hvalue _ ih => exact ih (hvalue.isNumbered htable)
  | output harguments _ ih => exact ih (harguments.isNumbered htable)
  | conditional _ _ ihParts ihNodes => exact ihNodes (ihParts htable)
  | loop hcondition _ _ ihBody ihNodes => exact ihNodes (ihBody (hcondition.isNumbered htable))
  | otherwise _ ih => exact ih htable
  | branch hcondition _ _ ihBody ihParts => exact ihParts (ihBody (hcondition.isNumbered htable))

end Node

/-! ## Declarations -/

/-- What is declared is a temporary or a name of the program. -/
theorem Table.mem_temporaries_or_declared {table : Table} {name : String} (h : name ∈ table) :
    name ∈ table.temporaries ∨ name ∈ table.declared := by
  obtain ⟨entry, hentry, rfl⟩ := List.mem_map.1 h
  cases htemporary : entry.temporary with
  | true => exact .inl (List.mem_map_of_mem (List.mem_filter.2 ⟨hentry, htemporary⟩))
  | false =>
    refine .inr (List.mem_map_of_mem (List.mem_filter.2 ⟨hentry, ?_⟩))
    rw [htemporary]
    rfl

/-- A variable of a unit is named in the table. -/
theorem CUnit.mem_of_mem_declared {table : Table} {found : CVariable}
    (h : found ∈ table.entries.filterMap variableOf?) : found.name ∈ table := by
  obtain ⟨entry, hentry, hvariable⟩ := List.mem_filterMap.1 h
  have hname : found.name = entry.name := by
    rw [variableOf?] at hvariable
    split at hvariable <;> cases hvariable
    rfl
  rw [hname]
  exact List.mem_map_of_mem hentry

/-- The names that the C text of a compilation declares. Temporaries can be declared. Any other name
is one that the lexer has cut out of the source, and C can declare it iff its digits are those of
ASCII and it is none of the words that are reserved in C only. -/
theorem compile_declarations {budgets : Budgets} {request : Request} {source : String}
    {compilation : Compilation} (h : (compile budgets request source).1 = .ok compilation)
    (hemit : request.emitC = true) :
    ∃ unit : CUnit, compilation.c = some (unit.text "    ") ∧
      unit.declared = compilation.table.entries.filterMap CUnit.variableOf? ∧
      ∀ found ∈ unit.declared,
        (found.name ∈ compilation.table.temporaries ∧ CUnit.IsUsable found.name) ∨
        (found.name ∈ identifiers (tokenize source) ∧
          (CUnit.IsUsable found.name ↔
            (∀ c ∈ found.name.toList, isDigit c = true → c.isDigit = true) ∧
              found.name ∉ CUnit.foreignWords)) := by
  obtain ⟨tree, state, builder, hfollows⟩ := compile_follows h
  obtain ⟨-, unit, hunit, hc⟩ := hfollows.unit hemit
  obtain ⟨-, hdeclared⟩ := hfollows.isEmitted.unit_becomes hunit
  rw [← hfollows.table] at hdeclared
  refine ⟨unit, hc, hdeclared, fun found hfound => ?_⟩
  rcases Table.mem_temporaries_or_declared (CUnit.mem_of_mem_declared (hdeclared ▸ hfound))
    with htemporary | huser
  · obtain ⟨items, mark, -, hlowers, -⟩ := hfollows.isSound
    have hnone : state.table.IsNumbered := fun name hname => by
      rw [hfollows.temporaries] at hname
      cases hname
    have hnumbered := hlowers.isNumbered hnone
    rw [hfollows.table] at htemporary ⊢
    obtain ⟨number, hname⟩ := hnumbered _ htemporary
    exact .inl ⟨htemporary, hname ▸ CUnit.isUsable_nameOf number⟩
  · have hidentifier := hfollows.mem_identifiers _ huser
    refine .inr ⟨hidentifier, ?_⟩
    obtain ⟨token, hmem, hkind, hlexeme⟩ := hidentifier
    have htext := (isLexeme_of_mem_tokenize hmem).1
    rw [hkind, hlexeme] at htext
    exact CUnit.isUsable_iff htext

/-- Two names of the program, one of them that of a temporary, and the temporary behind it. -/
theorem compile_declarations_usable :
    ∃ compilation unit,
      (compile {} {} "let mut printed = 'a'; let t1 = 2.5 * 2.0;").1 = .ok compilation ∧
      ({} : Request).emitC = true ∧ compilation.c = some (CUnit.text "    " unit) ∧
      unit.declared.map (·.name) = ["printed", "t1", "t2"] ∧
      ∀ found ∈ unit.declared, CUnit.IsUsable found.name := by
  obtain ⟨compilation, hcompile, hentries⟩ : ∃ compilation,
      (compile {} {} "let mut printed = 'a'; let t1 = 2.5 * 2.0;").1 = .ok compilation ∧
      compilation.table.entries = [⟨"printed", .char, true, false⟩, ⟨"t1", .float, false, false⟩,
        ⟨"t2", .float, false, true⟩] :=
    exists_of_part (·.table.entries) (by decide +kernel)
  obtain ⟨unit, hc, hdeclared, hnames⟩ := compile_declarations hcompile rfl
  have hvariables : unit.declared = [⟨.char, "printed"⟩, ⟨.float, "t1"⟩, ⟨.float, "t2"⟩] :=
    hdeclared.trans (congrArg (List.filterMap CUnit.variableOf?) hentries)
  have hfamiliar : ∀ found ∈ unit.declared,
      (found.name.toList.all fun c => !isDigit c || c.isDigit) = true ∧
        found.name ∉ CUnit.foreignWords := by
    rw [hvariables]
    decide
  refine ⟨compilation, unit, hcompile, rfl, hc, by rw [hvariables]; rfl, fun found hfound => ?_⟩
  obtain ⟨hdigits, hforeign⟩ := hfamiliar found hfound
  refine (hnames found hfound).elim (·.2) fun h => h.2.2 ⟨fun c hc hdigit => ?_, hforeign⟩
  have hc := List.all_eq_true.1 hdigits c hc
  rwa [hdigit, Bool.not_true, Bool.false_or] at hc

/-- A superscript digit and a keyword of C are declared as they stand. -/
theorem compile_declares_foreign :
    let unit : CUnit := ⟨[⟨.int, "x²"⟩, ⟨.int, "int"⟩], [.copy "x²" "1", .copy "int" "2"]⟩
    (∃ compilation, (compile {} {} "let x² = 1; let int = 2;").1 = .ok compilation ∧
      compilation.c = some (unit.text "    ")) ∧
      ∀ found ∈ unit.declared, ¬CUnit.IsUsable found.name := by
  intro unit
  exact ⟨exists_of_part Compilation.c (by decide +kernel), by decide⟩

end ThreeAddress
