import ThreeAddress.Code.Instruction
import ThreeAddress.Code.Labels
import ThreeAddress.Code.Temporaries
import ThreeAddress.Table
import ThreeAddress.Typed.Node

/-!
# Code under construction

Lowering appends instructions, hands out temporaries and labels, and enters each temporary into
the table of names. What has been done when it fails stays done.
-/

namespace ThreeAddress

/-- Why a checked tree cannot be lowered. -/
inductive LowerError where
  /-- A part of the tree that is needed is not there. -/
  | missing
  /-- The format text of a print is a node without a text. -/
  | noText
  /-- A form that has no lowering. -/
  | noLowering (form : String) (line : Option Line)
  /-- A node without a value stands where a value is needed. -/
  | noValue (form : String) (line : Option Line)
  /-- An operator that is none of the binary ones. -/
  | binaryOperator (operator : String) (line : Option Line)
  /-- An operator that is none of the unary ones. -/
  | unaryOperator (operator : String) (line : Option Line)
  /-- A conditional without a condition. -/
  | noCondition (line : Option Line)
  /-- A temporary for a type without values that can be stored. -/
  | notStorable (type : DataType)
  /-- The table refuses a temporary. -/
  | names (error : TableError)
  /-- A label is placed a second time. -/
  | placedTwice (label : String)
  /-- Jumps to labels that are not placed. -/
  | undefinedLabels (labels : List String)
  /-- The root is not a program. -/
  | rootForm (form : String)
  /-- The nesting uses up the budget. -/
  | tooDeep
  deriving DecidableEq, Repr

/-- A reason with the line of the node in front, if it is known. -/
def LowerError.atNode (line : Option Line) (reason : String) : Report :=
  match line with
  | some line => .lowering ("Line " ++ toString line ++ ": " ++ reason)
  | none => .lowering reason

/-- The error in words. -/
def LowerError.report : LowerError → Report
  | missing => .lowering "missing node in checked tree"
  | noText => .breakdown .noPart
  | noLowering form line => atNode line ("no TAC lowering for " ++ form)
  | noValue form line => atNode line (form ++ " produced no value")
  | binaryOperator operator line => atNode line ("unknown binary operator '" ++ operator ++ "'")
  | unaryOperator operator line => atNode line ("unknown unary operator '" ++ operator ++ "'")
  | noCondition line => atNode line "if statement without a condition"
  | notStorable type => .lowering ("cannot hold a " ++ type.name ++ " value in a temporary")
  | names error => error.report none
  | placedTwice label => Labels.placedTwice label
  | undefinedLabels labels =>
    .lowering ("jump to undefined label(s): " ++ ", ".intercalate labels)
  | rootForm form => .lowering ("expected a Program root, got " ++ form)
  | tooDeep => .lowering "expression nested too deeply to lower"

/-- Code under construction. -/
structure Builder where
  table : Table := .empty
  instructions : Array Instruction := #[]
  temporaries : Temporaries := {}
  labels : Labels := {}
  deriving Repr

namespace Builder

/-- A new run over the same table: no code, and the numbers start again. -/
def reset (builder : Builder) : Builder :=
  { table := builder.table, labels := builder.labels.reset }

/-- The code as lines of text. -/
def lines (builder : Builder) : List String := builder.instructions.toList.map (·.text)

/-- What is wrong with the code: labels that are jumped to and not placed, and targets without
an entry in the table. -/
def problems (builder : Builder) : List String :=
  (builder.labels.unresolved.map fun label =>
    "Label " ++ label ++ " is referenced but never defined") ++
  (builder.instructions.toList.filterMap fun instruction =>
    match instruction.defines? with
    | some target =>
      if target ∈ builder.table then none
      else some ("'" ++ target ++ "' is assigned but has no identifier table entry")
    | none => none)

end Builder

/-- Numbers on the names handed out. -/
structure TemporaryCounts where
  created : Nat
  skipped : Nat
  last : Nat
  deriving DecidableEq, Repr

/-- Numbers on the labels. -/
structure LabelCounts where
  created : Nat
  placed : Nat
  targeted : Nat
  unresolved : Nat
  deriving DecidableEq, Repr

/-- Numbers on the code under construction. -/
structure Counts where
  instructions : Nat
  temporaries : TemporaryCounts
  labels : LabelCounts
  deriving DecidableEq, Repr

/-- Numbers on finished code. -/
structure Statistics where
  counts : Counts
  /-- Labels in the code. -/
  labels : Nat
  /-- Temporaries handed out. -/
  temporaries : Nat
  /-- Calls that print. -/
  prints : Nat
  /-- Calls that read. -/
  reads : Nat
  /-- Names in the table. -/
  identifiers : Nat
  deriving DecidableEq, Repr

/-- Numbers on the names handed out. -/
def Temporaries.counts (used : Temporaries) : TemporaryCounts :=
  ⟨used.created.length, used.skipped.length, used.last⟩

/-- Numbers on the labels. -/
def Labels.counts (labels : Labels) : LabelCounts :=
  ⟨labels.issued, labels.placed.length, labels.targets.length, labels.unresolved.length⟩

namespace Builder

/-- Numbers on the code so far. -/
def counts (builder : Builder) : Counts :=
  ⟨builder.instructions.size, builder.temporaries.counts, builder.labels.counts⟩

/-- Numbers on the code as if it were finished. -/
def statistics (builder : Builder) : Statistics where
  counts := builder.counts
  labels := builder.instructions.toList.countP (·.isLabel)
  temporaries := builder.temporaries.count
  prints := builder.instructions.toList.countP (·.calls "printf")
  reads := builder.instructions.toList.countP (·.calls "input")
  identifiers := builder.table.size

end Builder

/-- A piece of lowering works on the code under construction and keeps it when it fails. -/
abbrev Lower := EStateM LowerError Builder

namespace Lower

/-- Appends an instruction to the code. -/
def append (instruction : Instruction) : Lower Unit :=
  modify fun builder => { builder with instructions := builder.instructions.push instruction }

/-- Appends an instruction and enters the label it places or jumps to. A label that is already
placed is not appended. -/
def emit (instruction : Instruction) : Lower Unit := do
  match instruction with
  | .label name =>
    match (← get).labels.place? name with
    | some labels => modify fun builder => { builder with labels }
    | none => throw (.placedTwice name)
  | .jump name | .branch _ name =>
    modify fun builder => { builder with labels := builder.labels.target name }
  | .assign .. | .param _ | .call .. => pure ()
  append instruction

/-- A new label. -/
def freshLabel : Lower String := do
  let (name, labels) := (← get).labels.fresh
  modify fun builder => { builder with labels }
  return name

/-- A new temporary for values of a type, entered into the table. -/
def freshTemporary (type : DataType) : Lower String := do
  if type.isStorable then
    let (name, temporaries) := (← get).temporaries.allocate (← get).table.names
    modify fun builder => { builder with temporaries }
    match (← get).table.addTemporary name type with
    | .ok table =>
      modify fun builder => { builder with table }
      return name
    | .error error => throw (.names error)
  else throw (.notStorable type)

end Lower

end ThreeAddress
