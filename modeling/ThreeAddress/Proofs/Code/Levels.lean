import ThreeAddress.Code.Lowering
import ThreeAddress.Proofs.Sequence

/-!
# How deep lowering goes

The budget of lowering counts levels of the tree and nothing else. How many there are is told by
the tree (`Node.levels`): with fewer than that lowering cannot end with code, and with as many it
never ends because the budget is used up (`Node.lowerProgram_descends`).
-/

namespace ThreeAddress

open Sequence

namespace Node

mutual
/-- How many levels of a tree are lowered, the root included. The text of a print is not. -/
def levels : Node → Nat
  | absent | bare _ | literal .. | format .. | var .. | input _ => 1
  | program statements _ | block statements _ => levelsAll statements + 1
  | assignment _ value _ _ => value.levels + 1
  | output _ arguments _ => levelsAll arguments + 1
  | conditional parts _ => levelsParts parts + 1
  | loop condition body _ => max condition.levels body.levels + 1
  | binary _ left right _ => max left.levels right.levels + 1
  | unary _ operand _ => operand.levels + 1

/-- How many levels of some of the trees are lowered. -/
def levelsAll : List Node → Nat
  | [] => 0
  | node :: nodes => max node.levels (levelsAll nodes)

/-- How many levels of some of the parts of a conditional are lowered. A missing last body is
not. -/
def levelsParts : List Node → Nat
  | condition :: body :: parts =>
    max (max condition.levels body.levels) (levelsParts parts)
  | [absent] | [] => 0
  | [body] => body.levels
end

end Node

namespace Lower

/-- Lowering something with so many levels: its code takes a budget for all of them, and the budget
is not used up before. -/
def Descends {Value : Type} (levels budget : Nat) (run : Lower Value) : Prop :=
  ∀ builder, EndsOr (fun error => error = .tooDeep → budget < levels) run builder
    fun _ _ => levels ≤ budget

namespace Descends

variable {Value Next : Type} {levels others budget : Nat} {run : Lower Value}

/-- A plain value. -/
theorem pure {value : Value} : Descends 0 budget (Pure.pure value) :=
  fun _ => .pure (Nat.zero_le _)

/-- A failure for another reason than the budget. -/
theorem throw {error : LowerError} (h : error ≠ .tooDeep) :
    Descends levels budget (throw error : Lower Value) := fun _ => .throw fun heq => absurd heq h

/-- Something, and what follows it. -/
theorem bind {next : Value → Lower Next} (h : Descends levels budget run)
    (hnext : ∀ value, Descends others budget (next value)) :
    Descends (max levels others) budget (run >>= next) := by
  intro builder
  rcases h builder with ⟨value, between, hrun, hle⟩ | ⟨error, after, hrun, herror⟩
  · rcases hnext value between with ⟨result, after, hresult, hle'⟩ | ⟨error, after, hresult, herror⟩
    · exact .inl ⟨result, after, bind_ok.2 ⟨_, _, hrun, hresult⟩, Nat.max_le.2 ⟨hle, hle'⟩⟩
    · refine .inr ⟨error, after, bind_error.2 (.inr ⟨_, _, hrun, hresult⟩), fun heq => ?_⟩
      exact Nat.lt_of_lt_of_le (herror heq) (Nat.le_max_right _ _)
  · refine .inr ⟨error, after, bind_error.2 (.inl hrun), fun heq => ?_⟩
    exact Nat.lt_of_lt_of_le (herror heq) (Nat.le_max_left _ _)

/-- Something, and what follows it on no level. -/
theorem bind_flat {next : Value → Lower Next} (h : Descends levels budget run)
    (hnext : ∀ value, Descends 0 budget (next value)) :
    Descends levels budget (run >>= next) := by
  have hboth := h.bind hnext
  rwa [Nat.max_zero] at hboth

/-- Something on no level, and what follows it. -/
theorem flat_bind {next : Value → Lower Next} (h : Descends 0 budget run)
    (hnext : ∀ value, Descends others budget (next value)) :
    Descends others budget (run >>= next) := by
  have hboth := h.bind hnext
  rwa [Nat.zero_max] at hboth

/-- Reading the code under construction, and what follows. -/
theorem get {next : Builder → Lower Next} (h : ∀ builder, Descends levels budget (next builder)) :
    Descends levels budget (get >>= next) := fun builder => h builder builder

/-- One level further up. -/
theorem succ (h : Descends levels budget run) : Descends (levels + 1) (budget + 1) run := by
  intro builder
  rcases h builder with ⟨value, after, hrun, hle⟩ | ⟨error, after, hrun, herror⟩
  · exact .inl ⟨value, after, hrun, Nat.succ_le_succ hle⟩
  · exact .inr ⟨error, after, hrun, fun heq => Nat.succ_lt_succ (herror heq)⟩

end Descends

/-! ## Steps on no level -/

variable {budget : Nat}

/-- A change of the code under construction. -/
theorem modify_flat (change : Builder → Builder) : Descends 0 budget (modify change) :=
  fun builder => .inl ⟨(), change builder, rfl, Nat.zero_le _⟩

/-- An instruction. -/
theorem emit_flat (instruction : Instruction) : Descends 0 budget (emit instruction) := by
  have happend : Descends 0 budget (append instruction) := modify_flat _
  cases instruction with
  | assign | param | call => exact happend
  | jump | branch => exact (modify_flat _).bind_flat fun _ => happend
  | label name =>
    refine .get fun builder => ?_
    cases builder.labels.place? name with
    | some labels => exact (modify_flat _).bind_flat fun _ => happend
    | none => exact Descends.bind_flat (.throw nofun) fun _ => happend

/-- A new label. -/
theorem freshLabel_flat : Descends 0 budget freshLabel :=
  .get fun _ => (modify_flat _).bind_flat fun _ => .pure

/-- A new temporary. -/
theorem freshTemporary_flat (type : DataType) : Descends 0 budget (freshTemporary type) := by
  rw [freshTemporary]
  split
  · refine .get fun builder => .get fun _ => ?_
    refine (modify_flat _).bind_flat fun _ => .get fun builder' => ?_
    cases builder'.table.addTemporary _ type with
    | ok table => exact (modify_flat _).bind_flat fun _ => .pure
    | error error => exact .throw nofun
  · exact .throw nofun

/-- A value, if it is there. -/
theorem requireValue_flat (node : Node) (operand : Option String) :
    Descends 0 budget (requireValue node operand) := by
  cases operand with
  | none => exact .throw nofun
  | some => exact .pure

/-- The text of a node, if it has one. -/
theorem requireText_flat (node : Node) : Descends 0 budget (requireText node) := by
  rw [requireText]
  split
  · exact .pure
  · exact .throw nofun

/-- An operator that is listed. -/
theorem requireOperator_flat (operators : List String) (operator : String) {error : LowerError}
    (h : error ≠ .tooDeep) : Descends 0 budget (requireOperator operators operator error) := by
  rw [requireOperator]
  split
  · exact .pure
  · exact .throw h

/-- A new temporary that an instruction stores its value in. -/
theorem intoTemporary_flat (type : DataType) (instruction : String → Instruction) :
    Descends 0 budget (intoTemporary type instruction) :=
  (freshTemporary_flat type).bind_flat fun _ => (emit_flat _).bind_flat fun _ => .pure

/-- Parameters. -/
theorem params_flat (operands : List String) :
    Descends 0 budget (operands.forM fun operand => emit (.param operand)) := by
  induction operands with
  | nil => exact .pure
  | cons operand operands ih => exact (emit_flat _).bind_flat fun _ => ih

end Lower

/-! ## Lowering -/

namespace Node

open Lower

variable {budget : Nat}

/-- Nodes one level below are lowered down to their last level. -/
def LowersDown (budget : Nat) : Prop :=
  ∀ node : Node, Descends node.levels budget (node.lower budget)

/-- Statements one after the other. -/
theorem LowersDown.all (h : LowersDown budget) (nodes : List Node) :
    Descends (levelsAll nodes) budget (lowerAll nodes budget) := by
  induction nodes with
  | nil => exact .pure
  | cons node nodes ih => exact (h node).bind fun _ => ih

/-- The arguments of a print. -/
theorem LowersDown.arguments (h : LowersDown budget) (nodes : List Node) :
    Descends (levelsAll nodes) budget (lowerArguments nodes budget) := by
  induction nodes with
  | nil => exact .pure
  | cons node nodes ih =>
    exact (h node).bind fun operand => (requireValue_flat node operand).flat_bind fun _ =>
      ih.bind_flat fun _ => .pure

/-- The parts of a conditional. -/
theorem LowersDown.parts (h : LowersDown budget) (final : String) : ∀ parts : List Node,
    Descends (levelsParts parts) budget (lowerBranches final parts budget)
  | [] => .pure
  | [body] => by
    have hbody : Descends body.levels budget (do let _ ← body.lower budget; return ()) :=
      (h body).bind_flat fun _ => .pure
    cases body with
    | absent => exact .pure
    | _ => exact hbody
  | condition :: body :: parts => by
    rw [levelsParts, Nat.max_assoc]
    refine (h condition).bind fun operand => ?_
    refine (requireValue_flat condition operand).flat_bind fun _ => ?_
    refine freshLabel_flat.flat_bind fun _ => freshLabel_flat.flat_bind fun _ => ?_
    refine (emit_flat _).flat_bind fun _ => (emit_flat _).flat_bind fun _ => ?_
    refine (emit_flat _).flat_bind fun _ => (h body).bind fun _ => ?_
    exact (emit_flat _).flat_bind fun _ => (emit_flat _).flat_bind fun _ => h.parts final parts

/-- A tree is lowered down to its last level. -/
theorem lower_descends (budget : Nat) : LowersDown budget := by
  induction budget with
  | zero =>
    intro node builder
    refine .inr ⟨.tooDeep, builder, by cases node <;> rfl, fun _ => ?_⟩
    cases node <;> exact Nat.succ_pos _
  | succ budget ih =>
    intro node
    cases node with
    | absent | bare | format => exact .throw nofun
    | literal | var => exact Descends.pure.succ
    | input => exact (intoTemporary_flat _ _).succ
    | program statements | block statements =>
      exact ((ih.all statements).bind_flat fun _ => .pure).succ
    | assignment target value declares mark =>
      refine ((ih value).bind_flat fun operand => ?_).succ
      exact (requireValue_flat value operand).flat_bind fun _ =>
        (emit_flat _).bind_flat fun _ => .pure
    | output text arguments mark =>
      refine ((ih.arguments arguments).bind_flat fun operands => ?_).succ
      refine (requireText_flat text).flat_bind fun _ => (emit_flat _).flat_bind fun _ => ?_
      exact (params_flat operands).flat_bind fun _ => (emit_flat _).bind_flat fun _ => .pure
    | conditional parts mark =>
      rw [lower]
      refine Descends.succ ?_
      split
      · exact fun builder => .inr ⟨_, builder, rfl, nofun⟩
      · refine freshLabel_flat.flat_bind fun final => ?_
        exact (ih.parts final parts).bind_flat fun _ => (emit_flat _).bind_flat fun _ => .pure
    | loop condition body mark =>
      refine Descends.succ (freshLabel_flat.flat_bind fun _ => ?_)
      refine freshLabel_flat.flat_bind fun _ => ?_
      refine freshLabel_flat.flat_bind fun _ => (emit_flat _).flat_bind fun _ => ?_
      refine (ih condition).bind fun operand => ?_
      refine (requireValue_flat condition operand).flat_bind fun _ => ?_
      refine (emit_flat _).flat_bind fun _ => (emit_flat _).flat_bind fun _ => ?_
      refine (emit_flat _).flat_bind fun _ => (ih body).bind_flat fun _ => ?_
      exact (emit_flat _).flat_bind fun _ => (emit_flat _).bind_flat fun _ => .pure
    | binary operator left right mark =>
      refine ((requireOperator_flat binaryOperators operator (by simp)).flat_bind fun _ => ?_).succ
      exact (ih left).bind fun _ => (ih right).bind_flat fun _ => intoTemporary_flat _ _
    | unary operator operand mark =>
      refine ((requireOperator_flat unaryOperators operator (by simp)).flat_bind fun _ => ?_).succ
      exact (ih operand).bind_flat fun _ => intoTemporary_flat _ _

/-- A program is lowered down to its last level. -/
theorem lowerProgram_descends (root : Node) (budget : Nat) (table : Option Table) :
    Descends root.levels budget (root.lowerProgram budget table) := by
  cases root with
  | program statements mark =>
    refine (modify_flat _).flat_bind fun _ => (lower_descends budget _).bind_flat fun _ => ?_
    refine .get fun builder => ?_
    show Descends 0 budget (if builder.labels.unresolved.isEmpty then _ else _)
    split
    · exact .get fun _ => .pure
    · exact .throw nofun
  | _ => exact .throw nofun

end Node

end ThreeAddress
