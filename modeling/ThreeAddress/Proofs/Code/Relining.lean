import ThreeAddress.Code.Lowering
import ThreeAddress.Proofs.Check.Renaming

/-!
# Lowering a tree on other lines

Lowering copies the line of a node into an error and nowhere else. So a tree on other lines is
lowered to the same code with the same table, or lowering fails at the same moment with the same
error on the other line (`Node.lower_reline`).
-/

namespace ThreeAddress

/-- An error at a node on another line. -/
def LowerError.reline (lines : Line → Line) : LowerError → LowerError
  | missing => missing
  | noText => noText
  | noLowering form line => noLowering form (line.map lines)
  | noValue form line => noValue form (line.map lines)
  | binaryOperator operator line => binaryOperator operator (line.map lines)
  | unaryOperator operator line => unaryOperator operator (line.map lines)
  | noCondition line => noCondition (line.map lines)
  | notStorable type => notStorable type
  | names error => names error
  | placedTwice label => placedTwice label
  | undefinedLabels labels => undefinedLabels labels
  | rootForm form => rootForm form
  | tooDeep => tooDeep

namespace Lower

/-- A piece of lowering whose errors are on other lines. -/
def relined {Value : Type} (lines : Line → Line) (run : Lower Value) : Lower Value := fun builder =>
  match run builder with
  | .ok value after => .ok value after
  | .error error after => .error (error.reline lines) after

variable {Value Next : Type} (lines : Line → Line)

@[simp] theorem relined_pure (value : Value) : relined lines (pure value) = pure value := rfl

@[simp] theorem relined_get : relined lines get = get := rfl

@[simp] theorem relined_modify (change : Builder → Builder) :
    relined lines (modify change) = modify change := rfl

/-- A piece and what follows it. -/
@[simp] theorem relined_bind (run : Lower Value) (next : Value → Lower Next) :
    relined lines (run >>= next) =
      relined lines run >>= fun value => relined lines (next value) := by
  funext builder
  show (match EStateM.bind run next builder with
    | .ok value after => _
    | .error error after => _) = EStateM.bind (relined lines run) _ builder
  unfold EStateM.bind relined
  cases run builder <;> rfl

/-! ## Steps without a line -/

@[simp] theorem relined_emit (instruction : Instruction) :
    relined lines (emit instruction) = emit instruction := by
  have happend : relined lines (append instruction) = append instruction := rfl
  cases instruction with
  | assign | param | call => exact happend
  | jump | branch => simp only [emit, relined_bind, relined_modify, happend]
  | label name =>
    simp only [emit, relined_bind, relined_get]
    refine congrArg _ (funext fun builder => ?_)
    cases builder.labels.place? name <;> rfl

@[simp] theorem relined_freshLabel : relined lines freshLabel = freshLabel := by
  simp only [freshLabel, relined_bind, relined_get, relined_modify, relined_pure]

@[simp] theorem relined_freshTemporary (type : DataType) :
    relined lines (freshTemporary type) = freshTemporary type := by
  unfold freshTemporary
  split
  · simp only [relined_bind, relined_get, relined_modify]
    refine congrArg _ (funext fun _ => congrArg _ (funext fun _ => congrArg _ (funext fun _ =>
      congrArg _ (funext fun builder => ?_))))
    cases builder.table.addTemporary _ type <;> rfl
  · rfl

@[simp] theorem relined_intoTemporary (type : DataType) (instruction : String → Instruction) :
    relined lines (intoTemporary type instruction) = intoTemporary type instruction := by
  simp only [intoTemporary, relined_bind, relined_freshTemporary, relined_emit, relined_pure]

/-- Parameters. -/
@[simp] theorem relined_params (operands : List String) :
    relined lines (operands.forM fun operand => emit (.param operand)) =
      operands.forM fun operand => emit (.param operand) := by
  induction operands with
  | nil => rfl
  | cons operand operands ih =>
    rw [List.forM, relined_bind, relined_emit]
    exact congrArg _ (funext fun _ => ih)

/-- An operator that is listed. -/
@[simp] theorem relined_requireOperator (operators : List String) (operator : String)
    (error : LowerError) : relined lines (requireOperator operators operator error) =
      requireOperator operators operator (error.reline lines) := by
  unfold requireOperator
  split <;> rfl

end Lower

namespace Node

variable (lines : Line → Line)

@[simp] theorem form_reline (node : Node) : (node.reline lines).form = node.form := by
  cases node <;> rfl

@[simp] theorem line_reline (node : Node) : (node.reline lines).line = node.line.map lines := by
  cases node <;> rfl

@[simp] theorem lexeme?_reline (node : Node) : (node.reline lines).lexeme? = node.lexeme? := by
  cases node <;> rfl

/-- A value, if it is there. -/
@[simp] theorem requireValue_reline (node : Node) (operand : Option String) :
    Lower.requireValue (node.reline lines) operand =
      Lower.relined lines (Lower.requireValue node operand) := by
  cases operand with
  | some operand => rfl
  | none =>
    rw [Lower.requireValue, form_reline, line_reline]
    rfl

/-- The text of a node, if it has one. -/
@[simp] theorem requireText_reline (node : Node) : Lower.requireText (node.reline lines) =
    Lower.relined lines (Lower.requireText node) := by
  rw [Lower.requireText, lexeme?_reline, Lower.requireText]
  cases node.lexeme? <;> rfl

/-- How many conditions there are does not depend on lines. -/
theorem isEmpty_branches_reline : ∀ parts : List Node,
    (branches (parts.map (reline lines))).isEmpty = (branches parts).isEmpty
  | [] | [_] | _ :: _ :: _ => rfl

/-- Nodes one level below are lowered alike. -/
def LowersRelined (budget : Nat) : Prop :=
  ∀ node : Node, (node.reline lines).lower budget = Lower.relined lines (node.lower budget)

variable {lines} {budget : Nat}

/-- Statements one after the other. -/
theorem LowersRelined.all (h : LowersRelined lines budget) (nodes : List Node) :
    lowerAll (nodes.map (reline lines)) budget = Lower.relined lines (lowerAll nodes budget) := by
  induction nodes with
  | nil => rfl
  | cons node nodes ih => simp only [List.map_cons, lowerAll, h node, ih, Lower.relined_bind]

/-- The arguments of a print. -/
theorem LowersRelined.arguments (h : LowersRelined lines budget) (nodes : List Node) :
    lowerArguments (nodes.map (reline lines)) budget =
      Lower.relined lines (lowerArguments nodes budget) := by
  induction nodes with
  | nil => rfl
  | cons node nodes ih =>
    simp only [List.map_cons, lowerArguments, h node, ih, requireValue_reline, Lower.relined_bind,
      Lower.relined_pure]

/-- The parts of a conditional. -/
theorem LowersRelined.parts (h : LowersRelined lines budget) (final : String) :
    ∀ parts : List Node, lowerBranches final (parts.map (reline lines)) budget =
      Lower.relined lines (lowerBranches final parts budget)
  | [] => rfl
  | [body] => by
    have hbody : (do let _ ← (body.reline lines).lower budget; return ()) =
        Lower.relined lines (do let _ ← body.lower budget; return ()) := by
      simp only [h body, Lower.relined_bind, Lower.relined_pure]
    cases body with
    | absent => rfl
    | _ => exact hbody
  | condition :: body :: parts => by
    simp only [List.map_cons, lowerBranches, h condition, h body, h.parts final parts,
      requireValue_reline, Lower.relined_bind, Lower.relined_emit, Lower.relined_freshLabel]

/-- A tree on other lines is lowered alike. -/
theorem lower_reline (lines : Line → Line) (budget : Nat) : LowersRelined lines budget := by
  induction budget with
  | zero =>
    intro node
    have hzero (node : Node) : node.lower 0 = throw .tooDeep := by cases node <;> rfl
    rw [hzero, hzero]
    rfl
  | succ budget ih =>
    intro node
    cases node with
    | absent | bare | format | literal | var => rfl
    | input mark => exact (Lower.relined_intoTemporary lines _ _).symm
    | program statements mark | block statements mark =>
      simp only [reline, relineAll_eq, lower, ih.all statements, Lower.relined_bind,
        Lower.relined_pure]
    | assignment target value declares mark =>
      simp only [reline, lower, ih value, requireValue_reline, Lower.relined_bind,
        Lower.relined_emit, Lower.relined_pure]
    | output text arguments mark =>
      simp only [reline, relineAll_eq, lower, ih.arguments arguments, requireText_reline,
        Lower.relined_bind, Lower.relined_emit, Lower.relined_params, Lower.relined_pure]
    | conditional parts mark =>
      simp only [reline, relineAll_eq, lower, isEmpty_branches_reline, ih.parts]
      split
      · rfl
      · simp only [Lower.relined_bind, Lower.relined_freshLabel, Lower.relined_emit,
          Lower.relined_pure]
    | loop condition body mark =>
      simp only [reline, lower, ih condition, ih body, requireValue_reline, Lower.relined_bind,
        Lower.relined_freshLabel, Lower.relined_emit, Lower.relined_pure]
    | binary operator left right mark =>
      simp only [reline, lower, ih left, ih right, Lower.relined_bind,
        Lower.relined_requireOperator, Lower.relined_intoTemporary]
      rfl
    | unary operator operand mark =>
      simp only [reline, lower, ih operand, Lower.relined_bind, Lower.relined_requireOperator,
        Lower.relined_intoTemporary]
      rfl

/-- A program on other lines is lowered alike. -/
theorem lowerProgram_reline (lines : Line → Line) (root : Node) (budget : Nat)
    (table : Option Table) : (root.reline lines).lowerProgram budget table =
      Lower.relined lines (root.lowerProgram budget table) := by
  have hlower := lower_reline lines budget root
  cases root with
  | program statements mark =>
    rw [reline] at hlower ⊢
    simp only [lowerProgram, hlower, Lower.relined_bind, Lower.relined_modify, Lower.relined_get]
    refine congrArg _ (funext fun _ => congrArg _ (funext fun _ => congrArg _ (funext fun builder =>
      ?_)))
    split <;> rfl
  | _ => rfl

end Node

end ThreeAddress
