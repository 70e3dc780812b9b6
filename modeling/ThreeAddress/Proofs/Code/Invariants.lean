import ThreeAddress.Code.Lowering
import ThreeAddress.Proofs.Code.Names
import ThreeAddress.Proofs.Invariants
import ThreeAddress.Proofs.Table.Growth

/-!
# What lowering keeps

Lowering changes the code under construction by three steps only: it emits an instruction, it draws
a new label, and it draws a new temporary. A relation between two moments of the construction that
these steps keep (`Lower.IsKept`) is therefore kept by the lowering of a tree of any form, whether
it succeeds or fails (`Lower.IsKept.lower`), and by that of a whole program if the start of a new
run keeps it as well (`Lower.IsKept.lowerProgram`).
-/

namespace ThreeAddress

open Sequence

/-! ## The steps -/

/-- The book of labels with an instruction entered. -/
def Labels.enter (labels : Labels) : Instruction → Labels
  | .label name => { labels with placed := name :: labels.placed }
  | .jump name | .branch _ name => labels.target name
  | .assign .. | .param _ | .call .. => labels

/-- The code with an instruction behind it. -/
def Builder.push (builder : Builder) (instruction : Instruction) : Builder :=
  { builder with
    labels := builder.labels.enter instruction
    instructions := builder.instructions.push instruction }

namespace Lower

variable {builder : Builder} {instruction : Instruction} {type : DataType}

/-- An instruction that places no label a second time is emitted. -/
theorem emit_ok (h : ∀ name ∈ builder.labels.placed, instruction ≠ .label name) :
    emit instruction builder = .ok () (builder.push instruction) := by
  cases instruction with
  | label name =>
    have hplace : builder.labels.place? name = some (builder.labels.enter (.label name)) :=
      if_neg fun hmem => h name hmem rfl
    refine bind_ok.2 ⟨builder, builder, rfl, ?_⟩
    rw [hplace]
    rfl
  | _ => rfl

/-- A label is placed once. -/
theorem emit_error {name : String} (h : name ∈ builder.labels.placed) :
    emit (.label name) builder = .error (.placedTwice name) builder := by
  have hplace : builder.labels.place? name = none := if_pos h
  refine bind_error.2 (.inr ⟨builder, builder, rfl, ?_⟩)
  rw [hplace]
  rfl

/-- A temporary for values that can be stored is new to the table and is entered there. -/
theorem freshTemporary_ok (builder : Builder) (h : type.isStorable = true) :
    ∃ table, builder.table.addTemporary (builder.temporaries.allocate builder.table.names).1 type =
        .ok table ∧
      freshTemporary type builder =
        .ok (builder.temporaries.allocate builder.table.names).1 { builder with
          table, temporaries := (builder.temporaries.allocate builder.table.names).2 } := by
  obtain ⟨table, htable⟩ : ∃ table, builder.table.addTemporary
      (builder.temporaries.allocate builder.table.names).1 type = .ok table :=
    Table.addTemporary_of_not_mem (builder.temporaries.allocate_not_mem builder.table.names)
  refine ⟨table, htable, ?_⟩
  rw [freshTemporary, if_pos h]
  refine bind_ok.2 ⟨_, _, rfl, bind_ok.2 ⟨_, _, rfl, bind_ok.2 ⟨(), _, rfl, ?_⟩⟩⟩
  refine bind_ok.2 ⟨_, _, rfl, ?_⟩
  rw [Temporaries.allocate] at htable ⊢
  rw [htable]
  rfl

/-- There are no temporaries for other values. -/
theorem freshTemporary_error (h : type.isStorable = false) :
    freshTemporary type builder = .error (.notStorable type) builder := by
  rw [freshTemporary, if_neg (by simp [h])]
  rfl

/-! ## Relations that every step keeps -/

/-- A relation between two moments of the construction of code that every step keeps. -/
structure IsKept (rel : Builder → Builder → Prop) : Prop where
  refl (builder : Builder) : rel builder builder
  trans {first second third : Builder} : rel first second → rel second third → rel first third
  push (builder : Builder) (instruction : Instruction) :
    (∀ name ∈ builder.labels.placed, instruction ≠ .label name) →
      rel builder (builder.push instruction)
  issue (builder : Builder) : rel builder { builder with labels := builder.labels.fresh.2 }
  allocate {type : DataType} {table : Table} (builder : Builder) : type.isStorable = true →
    builder.table.addTemporary (builder.temporaries.allocate builder.table.names).1 type =
      .ok table →
    rel builder { builder with
      table, temporaries := (builder.temporaries.allocate builder.table.names).2 }

namespace IsKept

variable {rel : Builder → Builder → Prop} {budget : Nat} {Value Next : Type}

/-- A step, and what follows it. -/
theorem bind (h : IsKept rel) {run : Lower Value} {next : Value → Lower Next}
    (hrun : Keeps rel run) (hnext : ∀ value, Keeps rel (next value)) :
    Keeps rel (run >>= next) := hrun.bind hnext h.trans

/-- A plain value. -/
theorem pure (h : IsKept rel) (value : Value) : Keeps rel (Pure.pure value : Lower Value) :=
  .pure h.refl

/-- A failure. -/
theorem throw (h : IsKept rel) (error : LowerError) : Keeps rel (throw error : Lower Value) :=
  .throw h.refl

/-- An instruction. -/
theorem emit (h : IsKept rel) (instruction : Instruction) : Keeps rel (emit instruction) := by
  intro builder
  by_cases hnew : ∀ name ∈ builder.labels.placed, instruction ≠ .label name
  · rw [last_of_ok (emit_ok hnew)]
    exact h.push builder instruction hnew
  · push Not at hnew
    obtain ⟨name, hplaced, rfl⟩ := hnew
    rw [last_of_error (emit_error hplaced)]
    exact h.refl builder

/-- A new label. -/
theorem freshLabel (h : IsKept rel) : Keeps rel freshLabel := h.issue

/-- A new temporary, or a type that has none. -/
theorem freshTemporary (h : IsKept rel) (type : DataType) : Keeps rel (freshTemporary type) := by
  intro builder
  cases hstorable : type.isStorable with
  | true =>
    obtain ⟨table, htable, hrun⟩ := freshTemporary_ok builder hstorable
    rw [last_of_ok hrun]
    exact h.allocate builder hstorable htable
  | false =>
    rw [last_of_error (freshTemporary_error hstorable)]
    exact h.refl builder

/-! ## The parts of lowering -/

/-- A value that is asked for. -/
theorem requireValue (h : IsKept rel) (node : Node) (operand : Option String) :
    Keeps rel (requireValue node operand) := by
  cases operand with
  | none => exact h.throw _
  | some operand => exact h.pure operand

/-- The text of a node that is asked for. -/
theorem requireText (h : IsKept rel) (node : Node) : Keeps rel (requireText node) := by
  rw [Lower.requireText]
  split
  · exact h.pure _
  · exact h.throw _

/-- An operator that must be listed. -/
theorem requireOperator (h : IsKept rel) (operators : List String) (operator : String)
    (error : LowerError) : Keeps rel (requireOperator operators operator error) := by
  rw [Lower.requireOperator]
  split
  · exact h.pure ()
  · exact h.throw error

/-- A new temporary that an instruction stores its value in. -/
theorem intoTemporary (h : IsKept rel) (type : DataType) (instruction : String → Instruction) :
    Keeps rel (intoTemporary type instruction) :=
  h.bind (h.freshTemporary type) fun name => h.bind (h.emit (instruction name)) fun _ =>
    h.pure (some name)

/-- The parameters of a print. -/
theorem params (h : IsKept rel) (operands : List String) :
    Keeps rel (operands.forM fun operand => Lower.emit (.param operand)) := by
  induction operands with
  | nil => exact h.pure ()
  | cons operand operands ih => exact h.bind (h.emit (.param operand)) fun _ => ih

/-! ## Trees -/

/-- The relation is kept by the nodes one level below. -/
def Below (rel : Builder → Builder → Prop) (budget : Nat) : Prop :=
  ∀ node : Node, Keeps rel (node.lower budget)

/-- Statements one after the other. -/
theorem lowerAll (h : IsKept rel) (hbelow : Below rel budget) (nodes : List Node) :
    Keeps rel (Node.lowerAll nodes budget) := by
  induction nodes with
  | nil => exact h.pure ()
  | cons node nodes ih => exact h.bind (hbelow node) fun _ => ih

/-- The arguments of a print. -/
theorem lowerArguments (h : IsKept rel) (hbelow : Below rel budget) (nodes : List Node) :
    Keeps rel (Node.lowerArguments nodes budget) := by
  induction nodes with
  | nil => exact h.pure []
  | cons node nodes ih =>
    refine h.bind (hbelow node) fun operand => h.bind (h.requireValue node operand) fun _ => ?_
    exact h.bind ih fun _ => h.pure _

/-- The parts of a conditional. -/
theorem lowerBranches (h : IsKept rel) (hbelow : Below rel budget) (final : String) :
    ∀ parts : List Node, Keeps rel (Node.lowerBranches final parts budget)
  | [] => h.pure ()
  | [body] => by
    have hbody : Keeps rel (do let _ ← body.lower budget; return () : Lower Unit) :=
      h.bind (hbelow body) fun _ => h.pure ()
    cases body with
    | absent => exact h.pure ()
    | _ => exact hbody
  | condition :: body :: parts => by
    refine h.bind (hbelow condition) fun operand => h.bind (h.requireValue _ operand) fun _ => ?_
    refine h.bind h.freshLabel fun inside => h.bind h.freshLabel fun next => ?_
    refine h.bind (h.emit _) fun _ => h.bind (h.emit _) fun _ => h.bind (h.emit _) fun _ => ?_
    refine h.bind (hbelow body) fun _ => h.bind (h.emit _) fun _ => h.bind (h.emit _) fun _ => ?_
    exact h.lowerBranches hbelow final parts

/-- What every step keeps is kept by the lowering of a tree of any form. -/
theorem lower (h : IsKept rel) (budget : Nat) (node : Node) : Keeps rel (node.lower budget) := by
  induction budget generalizing node with
  | zero =>
    have hzero : node.lower 0 = (MonadExcept.throw LowerError.tooDeep : Lower _) := by
      cases node <;> rfl
    exact hzero ▸ h.throw _
  | succ budget ih =>
    cases node with
    | absent | bare | format => exact h.throw _
    | literal | var => exact h.pure _
    | input => exact h.intoTemporary _ _
    | program statements | block statements =>
      exact h.bind (h.lowerAll ih statements) fun _ => h.pure none
    | assignment target value =>
      refine h.bind (ih value) fun operand => h.bind (h.requireValue value operand) fun _ => ?_
      exact h.bind (h.emit _) fun _ => h.pure none
    | output text arguments =>
      refine h.bind (h.lowerArguments ih arguments) fun operands => ?_
      refine h.bind (h.requireText text) fun _ => h.bind (h.emit _) fun _ => ?_
      exact h.bind (h.params operands) fun _ => h.bind (h.emit _) fun _ => h.pure none
    | conditional parts =>
      rw [Node.lower]
      split
      · exact h.throw _
      · refine h.bind h.freshLabel fun final => ?_
        exact h.bind (h.lowerBranches ih final parts) fun _ => h.bind (h.emit _) fun _ =>
          h.pure none
    | loop condition body =>
      refine h.bind h.freshLabel fun _ => h.bind h.freshLabel fun _ => ?_
      refine h.bind h.freshLabel fun _ => h.bind (h.emit _) fun _ => ?_
      refine h.bind (ih condition) fun operand => h.bind (h.requireValue _ operand) fun _ => ?_
      refine h.bind (h.emit _) fun _ => h.bind (h.emit _) fun _ => h.bind (h.emit _) fun _ => ?_
      refine h.bind (ih body) fun _ => h.bind (h.emit _) fun _ => h.bind (h.emit _) fun _ => ?_
      exact h.pure none
    | binary operator left right =>
      refine h.bind (h.requireOperator _ operator _) fun _ => ?_
      exact h.bind (ih left) fun _ => h.bind (ih right) fun _ => h.intoTemporary _ _
    | unary operator operand =>
      refine h.bind (h.requireOperator _ operator _) fun _ => ?_
      exact h.bind (ih operand) fun _ => h.intoTemporary _ _

/-- What every step and the start of a new run keep is kept by the lowering of a program over the
table at hand or another one. -/
theorem lowerProgram (h : IsKept rel) {table : Option Table}
    (hreset : ∀ builder : Builder,
      rel builder { builder with table := table.getD builder.table }.reset)
    (budget : Nat) (root : Node) : Keeps rel (root.lowerProgram budget table) := by
  cases root with
  | program statements mark =>
    refine h.bind (.modify hreset) fun _ => h.bind (h.lower budget _) fun _ => ?_
    refine .get fun builder => ?_
    dsimp only
    split
    · exact .get fun _ => h.pure _
    · exact h.throw _
  | _ => exact h.throw _

end IsKept

end Lower

end ThreeAddress
