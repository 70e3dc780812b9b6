import ThreeAddress.Proofs.Code.Literals
import ThreeAddress.Proofs.CUnit.Translation

/-!
# The operands of statements

The statements of a unit have the operands of the code that they come from, in the same order
(`CUnit.Becomes.operands`), and their prints have the formats of the code
(`CUnit.Becomes.formats`).
-/

namespace ThreeAddress

namespace CStatement

/-- The operands that a statement evaluates. -/
def operands : CStatement → List String
  | .label _ | .goto _ | .scan .. => []
  | .branch condition _ => [condition]
  | .print arguments => arguments
  | .copy _ operand | .unary _ _ operand => [operand]
  | .binary _ left _ right | .remainder _ left right => [left, right]

/-- The format text of a print. -/
def format? : CStatement → Option String
  | .print arguments => arguments.head?
  | _ => none

end CStatement

namespace CUnit

variable {table : Table} {held : List String} {code : List Instruction}
  {statements : List CStatement}

/-- A statement has the operands of its instruction, which is no parameter, and is no print. -/
theorem Translates.operands {instruction : Instruction} {statement : CStatement}
    (h : Translates table instruction statement) : statement.operands = instruction.reads ∧
      statement.format? = none ∧ ∀ operand, instruction ≠ .param operand := by
  cases h <;> exact ⟨rfl, rfl, fun _ => nofun⟩

/-- Statements have the operands of their code, behind those that are held back. -/
theorem Becomes.operands (h : Becomes table held code statements) :
    statements.flatMap CStatement.operands = held ++ Instruction.operands code := by
  induction h with
  | nil => rfl
  | cons hstatement _ ih =>
    rw [List.flatMap_cons, hstatement.operands.1, ih, Instruction.operands_cons]
    rfl
  | param _ ih =>
    rw [ih, Instruction.operands_cons, List.append_assoc]
    rfl
  | print _ _ ih =>
    rw [List.flatMap_cons, ih, Instruction.operands_cons]
    rfl

/-- Prints have the formats of their code; the first operand that is held back is one. -/
theorem Becomes.formats (h : Becomes table held code statements) :
    statements.filterMap CStatement.format? =
      held.head?.toList ++ Instruction.formats (!held.isEmpty) code := by
  induction h with
  | nil => rfl
  | cons hstatement _ ih =>
    obtain ⟨-, hnone, hparam⟩ := hstatement.operands
    rw [List.filterMap_cons_none hnone, ih, Instruction.formats_cons hparam]
    rfl
  | @param held operand _ _ _ ih =>
    rw [ih]
    cases held with
    | nil => rfl
    | cons first others => rfl
  | @print held _ _ hne _ ih =>
    cases held with
    | nil => exact absurd rfl hne
    | cons first others =>
      have hformat : (CStatement.print (first :: others)).format? = some first := rfl
      rw [List.filterMap_cons_some hformat, ih]
      rfl

/-- A print has a format. -/
theorem Becomes.exists_format (h : Becomes table held code statements) {arguments : List String}
    (hprint : .print arguments ∈ statements) : ∃ format others, arguments = format :: others := by
  induction h with
  | nil => cases hprint
  | cons hstatement _ ih =>
    cases hprint with
    | head => cases hstatement
    | tail _ hprint => exact ih hprint
  | param _ ih => exact ih hprint
  | print hne _ ih =>
    cases hprint with
    | head => exact List.exists_cons_of_ne_nil hne
    | tail _ hprint => exact ih hprint

end CUnit

end ThreeAddress
