import ThreeAddress.Proofs.CUnit.Translation
import ThreeAddress.Proofs.Code.Typing
import ThreeAddress.Proofs.Compilation.Stages

/-!
# The types in a compilation

The code of a compilation is typed over its table. Emission looks at the type of the target alone to
tell which remainders are those of floating-point numbers; since the code is typed, these are the
remainders with a floating-point operand.
-/

namespace ThreeAddress

/-- The type of arithmetic is floating-point iff that of an operand is. -/
theorem DataType.join_eq_float {left right : DataType} :
    left.join right = .float ↔ left = .float ∨ right = .float := by
  unfold join
  split
  · next h => exact iff_of_true rfl h
  · next h => exact iff_of_false nofun h

/-- One of two operands is a floating-point number. -/
def Table.HasFloat (table : Table) (left right : String) : Prop :=
  table.operandType? left = some .float ∨ table.operandType? right = some .float

namespace Instruction

variable {table : Table} {target left right : String}

/-- The target of a remainder is floating-point iff an operand is. -/
theorem IsTyped.remainder
    (h : (assign target (some left) (some "%") (some right)).IsTyped table) :
    ∃ type, table.type? target = some type ∧ type.isStorable = true ∧
      (type = .float ↔ table.HasFloat left right) := by
  generalize hremainder : "%" = operator at h
  cases h with
  | logical hoperator | relational hoperator =>
    rw [← hremainder] at hoperator
    simp at hoperator
  | arithmetic _ _ _ hleft hright htarget =>
    refine ⟨_, htarget, DataType.isStorable_join _ _, ?_⟩
    rw [DataType.join_eq_float, Table.HasFloat, hleft, hright, Option.some.injEq,
      Option.some.injEq]

end Instruction

namespace CUnit

variable {table : Table} {held : List String} {code : List Instruction}
  {statements : List CStatement}

/-- A statement that is no print comes from an instruction. -/
theorem Becomes.exists_instruction (h : Becomes table held code statements)
    {statement : CStatement} (hmem : statement ∈ statements)
    (hprint : ∀ arguments, statement ≠ .print arguments) :
    ∃ instruction ∈ code, Translates table instruction statement := by
  induction h with
  | nil => cases hmem
  | @cons instruction _ code _ htranslates _ ih =>
    rcases List.mem_cons.1 hmem with rfl | hmem
    · exact ⟨instruction, .head _, htranslates⟩
    · obtain ⟨found, hfound, hstatement⟩ := ih hmem
      exact ⟨found, .tail _ hfound, hstatement⟩
  | param _ ih =>
    obtain ⟨found, hfound, hstatement⟩ := ih hmem
    exact ⟨found, .tail _ hfound, hstatement⟩
  | print _ _ ih =>
    rcases List.mem_cons.1 hmem with rfl | hmem
    · exact absurd rfl (hprint _)
    · obtain ⟨found, hfound, hstatement⟩ := ih hmem
      exact ⟨found, .tail _ hfound, hstatement⟩

/-- An assignment becomes a statement. -/
theorem Becomes.exists_statement (h : Becomes table held code statements) {target : String}
    {first operator second : Option String}
    (hmem : .assign target first operator second ∈ code) :
    ∃ statement ∈ statements,
      Translates table (.assign target first operator second) statement := by
  induction h with
  | nil => cases hmem
  | cons htranslates _ ih =>
    rcases List.mem_cons.1 hmem with rfl | hmem
    · exact ⟨_, .head _, htranslates⟩
    · obtain ⟨statement, hstatement, htranslates⟩ := ih hmem
      exact ⟨statement, .tail _ hstatement, htranslates⟩
  | param _ ih =>
    rcases List.mem_cons.1 hmem with heq | hmem
    · cases heq
    · exact ih hmem
  | print _ _ ih =>
    rcases List.mem_cons.1 hmem with heq | hmem
    · cases heq
    · obtain ⟨statement, hstatement, htranslates⟩ := ih hmem
      exact ⟨statement, .tail _ hstatement, htranslates⟩

/-- What a typed remainder becomes is told by its operands. -/
theorem Translates.remainder_iff {target left right : String} {statement : CStatement}
    (h : Translates table (.assign target (some left) (some "%") (some right)) statement)
    (htyped : (Instruction.assign target (some left) (some "%") (some right)).IsTyped table) :
    (table.HasFloat left right ∧ statement = .remainder target left right) ∨
      (¬table.HasFloat left right ∧ statement = .binary target left "%" right) := by
  obtain ⟨type, htype, hstorable, hfloat⟩ := htyped.remainder
  have hstorage := Table.storage_of_type? htype hstorable
  cases h with
  | binary hfound hnot =>
    cases hstorage.symm.trans hfound
    exact .inr ⟨fun h => hnot ⟨rfl, hfloat.2 h⟩, rfl⟩
  | remainder hfound =>
    cases hstorage.symm.trans hfound
    exact .inl ⟨hfloat.1 rfl, rfl⟩

/-- The unit of code that can be emitted has the statements that the code becomes, and declares the
names with storage. -/
theorem IsEmitted.unit_becomes {bound : Nat} {unit : CUnit} (h : IsEmitted table bound code)
    (hunit : ofInstructions table code = .ok unit) :
    Becomes table [] code unit.statements ∧
      unit.declared = table.entries.filterMap variableOf? := by
  obtain ⟨hstatements, hdeclared⟩ := ofInstructions_ok_iff.1 hunit
  exact ⟨h.becomes hstatements, hdeclared⟩

/-- The remainders of a unit are those of typed code, told apart by their operands. -/
theorem Becomes.remainders (h : Becomes table [] code statements)
    (htyped : Instruction.AreTyped table code) (target left right : String) :
    (.binary target left "%" right ∈ statements ↔
      .assign target (some left) (some "%") (some right) ∈ code ∧ ¬table.HasFloat left right) ∧
    (.remainder target left right ∈ statements ↔
      .assign target (some left) (some "%") (some right) ∈ code ∧ table.HasFloat left right) := by
  refine ⟨⟨fun hmem => ?_, fun ⟨hmem, hnot⟩ => ?_⟩, ⟨fun hmem => ?_, fun ⟨hmem, hfloat⟩ => ?_⟩⟩
  · obtain ⟨instruction, hinstruction, htranslates⟩ := h.exists_instruction hmem nofun
    cases htranslates with
    | binary hstorage hnot =>
      rcases (Translates.binary hstorage hnot).remainder_iff (htyped _ hinstruction) with
        ⟨-, heq⟩ | ⟨hinteger, -⟩
      · cases heq
      · exact ⟨hinstruction, hinteger⟩
  · obtain ⟨statement, hstatement, htranslates⟩ := h.exists_statement hmem
    rcases htranslates.remainder_iff (htyped _ hmem) with ⟨hfloat, -⟩ | ⟨-, rfl⟩
    · exact absurd hfloat hnot
    · exact hstatement
  · obtain ⟨instruction, hinstruction, htranslates⟩ := h.exists_instruction hmem nofun
    cases htranslates with
    | remainder hstorage =>
      rcases (Translates.remainder hstorage).remainder_iff (htyped _ hinstruction) with
        ⟨hfloat, -⟩ | ⟨-, heq⟩
      · exact ⟨hinstruction, hfloat⟩
      · cases heq
  · obtain ⟨statement, hstatement, htranslates⟩ := h.exists_statement hmem
    rcases htranslates.remainder_iff (htyped _ hmem) with ⟨-, rfl⟩ | ⟨hnot, -⟩
    · exact hstatement
    · exact absurd hfloat hnot

/-- A unit takes the library of mathematical functions iff it has a remainder of floating-point
numbers. -/
theorem math_mem_headers (unit : CUnit) : "#include <math.h>" ∈ unit.headers ↔
    ∃ target left right, .remainder target left right ∈ unit.statements := by
  have hneeds : unit.needsMath = true ↔
      ∃ target left right, .remainder target left right ∈ unit.statements := by
    rw [needsMath, List.any_eq_true]
    constructor
    · rintro ⟨statement, hmem, hmath⟩
      cases statement with
      | remainder target left right => exact ⟨target, left, right, hmem⟩
      | _ => cases hmath
    · rintro ⟨target, left, right, hmem⟩
      exact ⟨_, hmem, rfl⟩
  rw [headers, headersWith, ← hneeds]
  split
  · next h => exact iff_of_true (by simp) h
  · next h => exact iff_of_false (by simp) h

end CUnit

/-- The code that has been lowered is typed over the last table. -/
theorem Compilation.Follows.areTyped {budgets : Budgets} {request : Request} {source : String}
    {tree : Tree} {state : CheckState} {builder : Builder} {compilation : Compilation}
    (h : compilation.Follows budgets request source tree state builder) :
    Instruction.AreTyped compilation.table builder.instructions.toList := by
  obtain ⟨-, hcut⟩ := Tree.derives_of_ofSource h.read
  obtain ⟨-, statements, line, items, rfl, -, hchecks, hlowers⟩ := h.lowers
  rw [h.table]
  exact hchecks.lowered_typed hcut hlowers

/-- The code of a compilation is typed over its table (`Instruction.IsTyped` has the rules). So the
C unit applies `%` to integers only: a remainder becomes a call of `fmodf` iff one of its operands
is floating-point, and the header of the mathematical functions is there iff the code has such a
remainder. -/
theorem compile_typed {budgets : Budgets} {request : Request} {source : String}
    {compilation : Compilation} (h : (compile budgets request source).1 = .ok compilation) :
    ∃ tree state builder, compilation.Follows budgets request source tree state builder ∧
      (∀ instruction ∈ builder.instructions.toList, instruction.IsTyped compilation.table) ∧
      (request.emitC = true → ∃ unit,
        CUnit.ofInstructions compilation.table builder.instructions.toList = .ok unit ∧
        compilation.c = some (unit.text "    ") ∧
        (∀ target left right, .binary target left "%" right ∈ unit.statements ↔
          .assign target (some left) (some "%") (some right) ∈ builder.instructions.toList ∧
            ¬compilation.table.HasFloat left right) ∧
        (∀ target left right, .remainder target left right ∈ unit.statements ↔
          .assign target (some left) (some "%") (some right) ∈ builder.instructions.toList ∧
            compilation.table.HasFloat left right) ∧
        ("#include <math.h>" ∈ unit.headers ↔ ∃ target left right,
          .assign target (some left) (some "%") (some right) ∈ builder.instructions.toList ∧
            compilation.table.HasFloat left right)) := by
  obtain ⟨tree, state, builder, hfollows⟩ := compile_follows h
  have htyped := hfollows.areTyped
  refine ⟨tree, state, builder, hfollows, htyped, fun hemit => ?_⟩
  obtain ⟨-, unit, hunit, hc⟩ := hfollows.unit hemit
  obtain ⟨hbecomes, -⟩ := hfollows.isEmitted.unit_becomes hunit
  rw [← hfollows.table] at hunit hbecomes
  have hremainders := hbecomes.remainders htyped
  refine ⟨unit, hunit, hc, fun target left right => (hremainders target left right).1,
    fun target left right => (hremainders target left right).2, ?_⟩
  rw [CUnit.math_mem_headers]
  exact exists_congr fun target => exists_congr fun left => exists_congr fun right =>
    (hremainders target left right).2

/-- A remainder of floating-point numbers, and one of integers. -/
theorem compile_typed_remainder :
    ∃ (compilation : Compilation) (unit : CUnit),
      (compile {} {} "let x = 5.5 % 2; let y = 7 % 2;").1 = .ok compilation ∧
      compilation.c = some (unit.text "    ") ∧
      .remainder "t1" "5.5" "2" ∈ unit.statements ∧
      .binary "t2" "7" "%" "2" ∈ unit.statements ∧
      "#include <math.h>" ∈ unit.headers := by
  let code : List Instruction := [.assign "t1" (some "5.5") (some "%") (some "2"),
    .assign "x" (some "t1") none none, .assign "t2" (some "7") (some "%") (some "2"),
    .assign "y" (some "t2") none none]
  have hlines : (match (compile {} {} "let x = 5.5 % 2; let y = 7 % 2;").1 with
      | .ok compilation => CUnit.readLines compilation.lines
      | .error _ => .error .longCount) = .ok code := by decide +kernel
  cases hcompile : (compile {} {} "let x = 5.5 % 2; let y = 7 % 2;").1 with
  | error error =>
    rw [hcompile] at hlines
    cases hlines
  | ok compilation =>
    rw [hcompile] at hlines
    obtain ⟨tree, state, builder, hfollows, -, hunit⟩ := compile_typed hcompile
    obtain ⟨unit, -, hc, hbinary, hremainder, hmath⟩ := hunit rfl
    have hcode : builder.instructions.toList = code :=
      Except.ok.inj ((hfollows.unit rfl).1.symm.trans hlines)
    rw [hcode] at hbinary hremainder hmath
    have hfloat : compilation.table.HasFloat "5.5" "2" := .inl (Table.operandType?_literal rfl)
    have hinteger : ¬compilation.table.HasFloat "7" "2" := by
      rw [Table.HasFloat, Table.operandType?_literal rfl, Table.operandType?_literal rfl]
      decide
    exact ⟨compilation, unit, rfl, hc, (hremainder _ _ _).2 ⟨.head _, hfloat⟩,
      (hbinary _ _ _).2 ⟨by simp [code], hinteger⟩, hmath.2 ⟨_, _, _, .head _, hfloat⟩⟩

end ThreeAddress
