import ThreeAddress.Proofs.Code.Judgement

/-!
# Lowering follows its rules

On the nodes that the checker leaves, lowering does what the rules say, or ends because the budget
is used up. What it does to the code under construction is told by the instructions it appends
(`Builder.Adds`), since the book of labels mirrors them. A label that is placed has not been placed
before because its number is new (`Builder.IsFresh`).
-/

namespace ThreeAddress

open Sequence

/-! ## Code under construction -/

namespace Builder

/-- What names are drawn from. -/
def supply (builder : Builder) : Supply := ⟨builder.table, builder.labels.issued⟩

/-- Code has been appended, and its labels and jumps have been entered. -/
structure Adds (before : Builder) (code : List Instruction) (after : Builder) : Prop where
  instructions : after.instructions.toList = before.instructions.toList ++ code
  stem : after.labels.stem = before.labels.stem
  placed : ∀ name, name ∈ after.labels.placed ↔
    name ∈ before.labels.placed ∨ name ∈ Instruction.labels code
  targets : ∀ name, name ∈ after.labels.targets ↔
    name ∈ before.labels.targets ∨ name ∈ Instruction.goals code

/-- The labels that are placed have been handed out. -/
structure IsFresh (builder : Builder) : Prop where
  stem : builder.labels.stem = "L"
  placed : ∀ name ∈ builder.labels.placed,
    ∃ number ≤ builder.labels.issued, name = Labels.nameOf number

variable {before between after builder : Builder} {code others : List Instruction}

/-- Nothing has been appended. -/
theorem Adds.of_eq (hinstructions : after.instructions = before.instructions)
    (hstem : after.labels.stem = before.labels.stem)
    (hplaced : after.labels.placed = before.labels.placed)
    (htargets : after.labels.targets = before.labels.targets) : before.Adds [] after :=
  ⟨by simp [hinstructions], hstem, by simp [hplaced], by simp [htargets]⟩

/-- Code, and more code behind it. -/
theorem Adds.trans (h : before.Adds code between) (h' : between.Adds others after) :
    before.Adds (code ++ others) after := by
  refine ⟨?_, h'.stem.trans h.stem, fun name => ?_, fun name => ?_⟩
  · rw [h'.instructions, h.instructions, List.append_assoc]
  · rw [h'.placed, h.placed, Instruction.labels_append, List.mem_append, or_assoc]
  · rw [h'.targets, h.targets, Instruction.goals_append, List.mem_append, or_assoc]

/-- After labels have been placed that had been handed out. -/
theorem IsFresh.adds (h : before.IsFresh) (hadds : before.Adds code after)
    (hle : before.labels.issued ≤ after.labels.issued)
    (hcode : ∀ name ∈ Instruction.labels code,
      ∃ number ≤ after.labels.issued, name = Labels.nameOf number) : after.IsFresh := by
  refine ⟨hadds.stem.trans h.stem, fun name hname => ?_⟩
  rcases (hadds.placed name).1 hname with hname | hname
  · obtain ⟨number, hnumber, rfl⟩ := h.placed name hname
    exact ⟨number, Nat.le_trans hnumber hle, rfl⟩
  · exact hcode name hname

/-- A label with a new number has not been placed. -/
theorem IsFresh.not_mem_placed (h : builder.IsFresh) {number : Nat}
    (hnumber : builder.labels.issued < number) :
    Labels.nameOf number ∉ builder.labels.placed := by
  intro hplaced
  obtain ⟨other, hother, heq⟩ := h.placed _ hplaced
  have := Labels.nameOf_injective heq
  omega

/-- A label that had not been placed and is not in the code appended since. -/
theorem Adds.not_mem_placed (hadds : before.Adds code after) {name : String}
    (h : name ∉ before.labels.placed) (hcode : name ∉ Instruction.labels code) :
    name ∉ after.labels.placed := by
  rw [hadds.placed, not_or]
  exact ⟨h, hcode⟩

end Builder

/-- The labels of code that is lowered have been handed out. -/
theorem Node.IsLabelled.exists_number {first last : Nat} {shape : Shape}
    {code : List Instruction} (h : Node.IsLabelled first last shape code) :
    ∀ name ∈ Instruction.labels code, ∃ number ≤ last, name = Labels.nameOf number := by
  obtain ⟨numbers, hnumbers, -, hrange⟩ := h.numbers
  rw [hnumbers]
  intro name hname
  obtain ⟨number, hmem, rfl⟩ := List.mem_map.1 hname
  exact ⟨number, (hrange number hmem).2, rfl⟩

/-- No label is placed twice in code that is lowered. -/
theorem Node.IsLabelled.nodup {first last : Nat} {shape : Shape} {code : List Instruction}
    (h : Node.IsLabelled first last shape code) : (Instruction.labels code).Nodup := by
  obtain ⟨numbers, hnumbers, hnodup, -⟩ := h.numbers
  rw [hnumbers]
  exact hnodup.map fun _ _ => Labels.nameOf_injective

/-- A label whose number is out of the range of the code is not in it. -/
theorem Node.IsLabelled.not_mem {first last number : Nat} {shape : Shape}
    {code : List Instruction} (h : Node.IsLabelled first last shape code)
    (hnumber : number ≤ first ∨ last < number) :
    Labels.nameOf number ∉ Instruction.labels code := by
  obtain ⟨numbers, hnumbers, -, hrange⟩ := h.numbers
  rw [hnumbers]
  intro hmem
  obtain ⟨other, hother, heq⟩ := List.mem_map.1 hmem
  have hsame := Labels.nameOf_injective heq
  have := hrange other hother
  omega

namespace Lower

variable {Value Other : Type} {builder : Builder} {foreseen : LowerError → Prop}

/-- Lowering has a value and leaves code as wanted, or the budget is used up. -/
abbrev Ends (run : Lower Value) (builder : Builder) (wanted : Value → Builder → Prop) : Prop :=
  EndsOr (· = LowerError.tooDeep) run builder wanted

/-! ## The parts of lowering -/

/-- A new temporary for values of a type that can be stored. -/
theorem freshTemporary_ends {type : DataType} (h : type.isStorable = true) :
    Ends (freshTemporary type) builder fun name after =>
      (∃ number, name = Temporaries.nameOf number ∧
        builder.table.addTemporary (Temporaries.nameOf number) type = .ok after.table) ∧
      after.instructions = builder.instructions ∧ after.labels = builder.labels := by
  obtain ⟨number, hname, hdraws⟩ :=
    Temporaries.draws_allocate builder.temporaries builder.table.names
  rcases hallocate : builder.temporaries.allocate builder.table.names with ⟨name, temporaries⟩
  rw [hallocate] at hname
  obtain rfl : name = Temporaries.nameOf number := hname
  obtain ⟨table, htable⟩ : ∃ table, builder.table.addTemporary (Temporaries.nameOf number) type =
      .ok table := Table.addTemporary_of_not_mem hdraws.least.1.2
  refine .inl ⟨Temporaries.nameOf number, { builder with table, temporaries }, ?_,
    ⟨number, rfl, htable⟩, rfl, rfl⟩
  rw [freshTemporary, if_pos h]
  refine bind_ok.2 ⟨_, _, get_ok.2 ⟨rfl, rfl⟩, bind_ok.2 ⟨_, _, get_ok.2 ⟨rfl, rfl⟩, ?_⟩⟩
  rw [hallocate]
  refine bind_ok.2 ⟨(), _, modify_ok.2 rfl, bind_ok.2 ⟨_, _, get_ok.2 ⟨rfl, rfl⟩, ?_⟩⟩
  rw [htable]
  exact bind_ok.2 ⟨(), _, modify_ok.2 rfl, pure_ok.2 ⟨rfl, rfl⟩⟩

/-- An instruction that is no label, or a label that has not been placed. -/
theorem emit_ends {instruction : Instruction}
    (h : ∀ name, instruction.label? = some name → name ∉ builder.labels.placed) :
    EndsOr foreseen (emit instruction) builder fun _ after => builder.Adds [instruction] after ∧
      after.table = builder.table ∧ after.labels.issued = builder.labels.issued := by
  cases instruction with
  | label name =>
    have hplace : builder.labels.place? name =
        some { builder.labels with placed := name :: builder.labels.placed } :=
      if_neg (h name rfl)
    have hrun : emit (.label name) builder = .ok () { builder with
        labels := { builder.labels with placed := name :: builder.labels.placed }
        instructions := builder.instructions.push (.label name) } := by
      simp only [emit, bind_ok, get_ok]
      refine ⟨_, _, ⟨rfl, rfl⟩, ?_⟩
      rw [hplace]
      rfl
    refine .inl ⟨(), _, hrun, ⟨by simp, rfl, fun other => ?_, fun other => ?_⟩, rfl, rfl⟩
    · simp [Instruction.label?, or_comm]
    · simp [Instruction.goal?]
  | jump name | branch _ name =>
    refine .inl ⟨(), _, rfl, ⟨by simp, ?_, fun other => ?_, fun other => ?_⟩, rfl, ?_⟩
    all_goals simp only [Labels.target]
    · split <;> rfl
    · split <;> simp [Instruction.label?]
    · split
      · next hmem => grind [Instruction.goal?, Instruction.goals_cons, Instruction.goals_nil]
      · simp [Instruction.goal?]
    · split <;> rfl
  | assign | param | call =>
    refine .inl ⟨(), _, rfl, ⟨by simp, rfl, fun other => ?_, fun other => ?_⟩, rfl, rfl⟩
    · simp [Instruction.label?]
    · simp [Instruction.goal?]

/-- A new label. -/
theorem freshLabel_ends (hstem : builder.labels.stem = "L") :
    EndsOr foreseen freshLabel builder fun name after =>
      name = Labels.nameOf (builder.labels.issued + 1) ∧ after.table = builder.table ∧
        after.labels.issued = builder.labels.issued + 1 ∧ builder.Adds [] after := by
  refine .inl ⟨_, _, rfl, ?_, rfl, rfl, .of_eq rfl rfl rfl rfl⟩
  rw [hstem]
  rfl

/-- A value that is there. -/
theorem requireValue_ends (node : Node) (value : String) :
    EndsOr foreseen (requireValue node (some value)) builder fun operand after =>
      value = operand ∧ builder = after := .pure ⟨rfl, rfl⟩

/-- The text of a format text. -/
theorem requireText_ends (lexeme : String) (mark : Mark) :
    EndsOr foreseen (requireText (.format lexeme mark)) builder fun text after =>
      lexeme = text ∧ builder = after := .pure ⟨rfl, rfl⟩

/-- The parameters of a print. -/
theorem params_ends (operands : List String) :
    EndsOr foreseen (operands.forM fun operand => emit (.param operand)) builder fun _ after =>
      builder.Adds (operands.map .param) after ∧ after.table = builder.table ∧
        after.labels.issued = builder.labels.issued := by
  induction operands generalizing builder with
  | nil => exact .pure ⟨.of_eq rfl rfl rfl rfl, rfl, rfl⟩
  | cons operand operands ih =>
    refine (emit_ends (by simp [Instruction.label?])).bind fun _ between h => ?_
    refine ih.mono fun _ after h' => ⟨h.1.trans h'.1, ?_, ?_⟩
    · rw [h'.2.1, h.2.1]
    · rw [h'.2.2, h.2.2]

/-- A new temporary that an instruction stores its value in. -/
theorem intoTemporary_ends {type : DataType} (h : type.isStorable = true)
    {instruction : String → Instruction} (hplain : ∀ name, (instruction name).label? = none) :
    Ends (intoTemporary type instruction) builder fun operand after =>
      ∃ number, operand = some (Temporaries.nameOf number) ∧
        builder.table.addTemporary (Temporaries.nameOf number) type = .ok after.table ∧
        builder.Adds [instruction (Temporaries.nameOf number)] after ∧
        after.labels.issued = builder.labels.issued := by
  refine (freshTemporary_ends h).bind ?_
  intro _ between hresult
  obtain ⟨⟨number, rfl, htable⟩, hinstructions, hlabels⟩ := hresult
  refine (emit_ends (by simp [hplain])).bind fun _ after hafter => .pure ⟨number, rfl, ?_, ?_, ?_⟩
  · rw [htable, hafter.2.1]
  · exact (Builder.Adds.of_eq hinstructions (by rw [hlabels]) (by rw [hlabels])
      (by rw [hlabels])).trans hafter.1
  · rw [hafter.2.2, hlabels]

end Lower

/-! ## Expressions -/

open Lower

/-- What the lowering of an expression comes to: its code, and the operand that holds its value. -/
def Node.IsLowered (node : Node) : Prop :=
  ∀ (budget : Nat) (builder : Builder), Ends (node.lower budget) builder fun operand after =>
    ∃ code value, operand = some value ∧ builder.Adds code after ∧
      after.labels.issued = builder.labels.issued ∧
      node.Computes builder.table code value after.table

namespace Node

variable {builder : Builder}

/-- Without a budget nothing is lowered. -/
theorem lower_zero_ends (node : Node) {wanted : Option String → Builder → Prop} :
    Ends (node.lower 0) builder wanted := by
  cases node <;> exact .inr ⟨_, builder, rfl, rfl⟩

/-- An operator in front of an operand. -/
theorem IsLowered.unary {operator : String} {operand : Node} {mark : Mark}
    (h : operand.IsLowered) (hoperator : operator ∈ unaryOperators)
    (hstorable : mark.type.isStorable = true) : (Node.unary operator operand mark).IsLowered := by
  intro budget builder
  cases budget with
  | zero => exact lower_zero_ends _
  | succ budget =>
    rw [lower, requireOperator, if_pos hoperator]
    refine (h budget builder).bind ?_
    intro _ between hresult
    obtain ⟨code, value, rfl, hadds, hissued, hcomputes⟩ := hresult
    refine (intoTemporary_ends hstorable fun _ => rfl).mono ?_
    intro _ after hresult
    obtain ⟨number, rfl, htable, hadds', hissued'⟩ := hresult
    exact ⟨_, _, rfl, hadds.trans hadds', hissued'.trans hissued, .unary hcomputes htable⟩

/-- An operator between two operands. -/
theorem IsLowered.binary {operator : String} {left right : Node} {mark : Mark}
    (hleft : left.IsLowered) (hright : right.IsLowered) (hoperator : operator ∈ binaryOperators)
    (hstorable : mark.type.isStorable = true) :
    (Node.binary operator left right mark).IsLowered := by
  intro budget builder
  cases budget with
  | zero => exact lower_zero_ends _
  | succ budget =>
    rw [lower, requireOperator, if_pos hoperator]
    refine (hleft budget builder).bind ?_
    intro _ between hresult
    obtain ⟨code, first, rfl, hadds, hissued, hcomputes⟩ := hresult
    refine (hright budget between).bind ?_
    intro _ between' hresult
    obtain ⟨code', second, rfl, hadds', hissued', hcomputes'⟩ := hresult
    refine (intoTemporary_ends hstorable fun _ => rfl).mono ?_
    intro _ after hresult
    obtain ⟨number, rfl, htable, hadds'', hissued''⟩ := hresult
    exact ⟨_, _, rfl, hadds.trans (hadds'.trans hadds''),
      hissued''.trans (hissued'.trans hissued), .binary hcomputes hcomputes' htable⟩

/-- A node without code. -/
theorem IsLowered.of_pure {node : Node} {value : String}
    (hlower : ∀ budget, node.lower (budget + 1) = pure (some value))
    (hcomputes : ∀ table, node.Computes table [] value table) : node.IsLowered := by
  intro budget builder
  cases budget with
  | zero => exact lower_zero_ends _
  | succ budget =>
    rw [hlower]
    exact .pure ⟨[], value, rfl, .of_eq rfl rfl rfl rfl, rfl, hcomputes _⟩

end Node

namespace Tree

variable {table : Table} {tree : Tree} {node : Node}

/-- The operators of a level are operators between two operands. -/
theorem mem_binaryOperators {level : Level} {operator : String}
    (h : level.holds (TokenKind.ofSpelling operator) = true) : operator ∈ binaryOperators := by
  have hlevel : ∀ operator ∈ level.operators, operator ∈ binaryOperators := by
    cases level <;> simp [Level.operators, binaryOperators]
  exact hlevel operator (Level.mem_operators h)

/-- Expressions that the checker accepts are lowered. -/
theorem Infers.isLowered (h : tree.Infers table node) : node.IsLowered := by
  induction h with
  | var | literal => exact .of_pure (fun _ => rfl) fun _ => by constructor
  | @input line =>
    intro budget builder
    cases budget with
    | zero => exact Node.lower_zero_ends _
    | succ budget =>
      refine (intoTemporary_ends rfl fun _ => rfl).mono ?_
      intro _ after hresult
      obtain ⟨number, rfl, htable, hadds, hissued⟩ := hresult
      exact ⟨_, _, rfl, hadds, hissued, .input htable⟩
  | group _ ih | single _ ih => exact ih
  | minus _ harithmetic ih =>
    refine ih.unary (by simp [unaryOperators]) ?_
    rw [DataType.arithmeticResult_single]
    exact DataType.isStorable_join _ _
  | negation _ _ ih => exact ih.unary (by simp [unaryOperators]) rfl
  | comparison _ _ hoperator _ _ ihLeft ihRight =>
    have hrelational : ∀ operator ∈ ["==", "!=", "<", ">", "<=", ">="],
        operator ∈ binaryOperators := by simp [binaryOperators]
    exact ihLeft.binary ihRight (hrelational _ (TokenKind.mem_of_isRelational hoperator)) rfl
  | @joined level _ _ _ _ _ _ _ _ _ _ hoperator _ _ ihLeft ihRight =>
    exact ihLeft.binary ihRight (mem_binaryOperators hoperator) (level.isStorable_result _ _)

/-- Arguments that the checker accepts are lowered. -/
theorem Infers.lowerArguments_ends {trees : List Tree} {nodes : List Node}
    (h : List.Forall₂ (Infers table) trees nodes) (budget : Nat) (builder : Builder) :
    Ends (Node.lowerArguments nodes budget) builder fun operands after => ∃ code,
      builder.Adds code after ∧ after.labels.issued = builder.labels.issued ∧
        Node.ComputesAll builder.table nodes code operands after.table := by
  induction h generalizing builder with
  | nil => exact .pure ⟨[], .of_eq rfl rfl rfl rfl, rfl, .nil⟩
  | cons hfirst _ ih =>
    refine (hfirst.isLowered budget builder).bind ?_
    intro _ between hresult
    obtain ⟨code, value, rfl, hadds, hissued, hcomputes⟩ := hresult
    refine (ih between).bind ?_
    intro operands after hresult
    obtain ⟨others, hadds', hissued', hothers⟩ := hresult
    exact .pure ⟨_, hadds.trans hadds', hissued'.trans hissued, .cons hcomputes hothers⟩

end Tree

/-! ## Statements -/

namespace Node

variable {builder : Builder}

/-- What the lowering of statements or of the parts of a conditional comes to. -/
def IsLoweredAs (shape : Shape) (nodes : List Node) (run : Lower Unit) (builder : Builder) : Prop :=
  Ends run builder fun _ after =>
    ∃ code, builder.Adds code after ∧ Lowers builder.supply shape nodes code after.supply

/-- Statements that are lowered wherever they stand. -/
def AreLowered (nodes : List Node) : Prop :=
  ∀ (budget : Nat) (builder : Builder), builder.IsFresh →
    IsLoweredAs .statements nodes (lowerAll nodes budget) builder

/-- Parts of a conditional that are lowered wherever they stand. -/
def ArePartsLowered (parts : List Node) : Prop :=
  ∀ (final : String) (budget : Nat) (builder : Builder), builder.IsFresh →
    IsLoweredAs (.parts final) parts (lowerBranches final parts budget) builder

/-- Statements, and more statements behind them. -/
theorem Lowers.append {supply between after : Supply} {first second : List Node}
    {code others : List Instruction} (h : Lowers supply .statements first code between)
    (h' : Lowers between .statements second others after) :
    Lowers supply .statements (first ++ second) (code ++ others) after := by
  generalize hshape : Shape.statements = shape at h
  induction h with
  | nil => exact h'
  | assignment hvalue _ ih =>
    simp only [List.append_assoc, List.cons_append]
    exact .assignment hvalue (ih h' hshape)
  | output harguments _ ih =>
    simp only [List.append_assoc, List.cons_append]
    exact .output harguments (ih h' hshape)
  | conditional hparts _ _ ih =>
    simp only [List.append_assoc, List.cons_append]
    exact .conditional hparts (ih h' hshape)
  | loop hcondition hbody _ _ ih =>
    simp only [List.append_assoc, List.cons_append]
    exact .loop hcondition hbody (ih h' hshape)
  | _ => cases hshape

/-- Lowering statements one after the other. -/
theorem lowerAll_append (first second : List Node) (budget : Nat) :
    lowerAll (first ++ second) budget = (do
      lowerAll first budget
      lowerAll second budget) := by
  induction first with
  | nil => rfl
  | cons node nodes ih =>
    simp only [List.cons_append, lowerAll, ih, bind_assoc]

/-- Statements, and more statements behind them. -/
theorem AreLowered.append {first second : List Node} (h : AreLowered first)
    (h' : AreLowered second) : AreLowered (first ++ second) := by
  intro budget builder hfresh
  rw [IsLoweredAs, lowerAll_append]
  refine (h budget builder hfresh).bind ?_
  intro _ between hresult
  obtain ⟨code, hadds, hlowers⟩ := hresult
  have hlabelled := hlowers.isLabelled
  have hfresh' := hfresh.adds hadds hlabelled.le hlabelled.exists_number
  refine (h' budget between hfresh').mono ?_
  intro _ after hresult
  obtain ⟨others, hadds', hlowers'⟩ := hresult
  exact ⟨_, hadds.trans hadds', hlowers.append hlowers'⟩

/-- A statement alone. -/
theorem AreLowered.of_node {node : Node} (h : ∀ (budget : Nat) (builder : Builder),
    builder.IsFresh → Ends (node.lower budget) builder fun _ after =>
      ∃ code, builder.Adds code after ∧
        Lowers builder.supply .statements [node] code after.supply) : AreLowered [node] := by
  intro budget builder hfresh
  exact (h budget builder hfresh).bind fun _ after hafter => .pure hafter

/-- A body. -/
theorem AreLowered.body {items : List Node} (h : AreLowered items) (mark : Mark) (budget : Nat)
    (hfresh : builder.IsFresh) : Ends ((Node.block items mark).lower budget) builder fun _ after =>
      ∃ code, builder.Adds code after ∧
        Lowers builder.supply .statements items code after.supply := by
  cases budget with
  | zero => exact lower_zero_ends _
  | succ budget => exact (h budget builder hfresh).bind fun _ after hafter => .pure hafter

/-- An assignment. -/
theorem IsLowered.assignment {node : Node} (h : node.IsLowered) (target : String)
    (declares : Bool) (mark : Mark) : AreLowered [.assignment target node declares mark] := by
  refine .of_node fun budget builder hfresh => ?_
  cases budget with
  | zero => exact lower_zero_ends _
  | succ budget =>
    rw [lower]
    refine (h budget builder).bind ?_
    intro _ between hresult
    obtain ⟨code, value, rfl, hadds, hissued, hcomputes⟩ := hresult
    refine (requireValue_ends node value).bind ?_
    intro _ _ hresult
    obtain ⟨rfl, rfl⟩ := hresult
    refine (emit_ends (by simp [Instruction.label?])).bind fun _ after hafter => .pure ?_
    refine ⟨_, hadds.trans hafter.1, ?_⟩
    have hsupply : after.supply = { builder.supply with table := between.table } := by
      simp only [Builder.supply, hafter.2.1, hafter.2.2, hissued]
    rw [hsupply]
    exact .assignment hcomputes .nil

/-- A print. -/
theorem output_lowered {arguments : List Node} (h : ∀ (budget : Nat) (builder : Builder),
    Ends (lowerArguments arguments budget) builder fun operands after => ∃ code,
      builder.Adds code after ∧ after.labels.issued = builder.labels.issued ∧
        ComputesAll builder.table arguments code operands after.table) (format : String)
    (formatMark mark : Mark) : AreLowered [.output (.format format formatMark) arguments mark] := by
  refine .of_node fun budget builder hfresh => ?_
  cases budget with
  | zero => exact lower_zero_ends _
  | succ budget =>
    rw [lower]
    refine (h budget builder).bind ?_
    intro operands b₁ hresult
    obtain ⟨code, hadds₁, hissued₁, hcomputes⟩ := hresult
    refine (requireText_ends format formatMark).bind ?_
    intro _ _ hresult
    obtain ⟨rfl, rfl⟩ := hresult
    refine (emit_ends (by simp [Instruction.label?])).bind fun _ b₂ h₂ => ?_
    refine (params_ends operands).bind fun _ b₃ h₃ => ?_
    refine (emit_ends (by simp [Instruction.label?])).bind fun _ b₄ h₄ => .pure ?_
    refine ⟨_, hadds₁.trans (h₂.1.trans (h₃.1.trans h₄.1)), ?_⟩
    have hsupply : b₄.supply = { builder.supply with table := b₁.table } := by
      simp only [Builder.supply, h₄.2.1, h₃.2.1, h₂.2.1, h₄.2.2, h₃.2.2, h₂.2.2, hissued₁]
    rw [hsupply]
    exact .output hcomputes .nil

/-- A conditional. -/
theorem ArePartsLowered.conditional {parts : List Node} (h : ArePartsLowered parts)
    (hbranches : (branches parts).isEmpty = false) (mark : Mark) :
    AreLowered [.conditional parts mark] := by
  refine .of_node fun budget b₀ hfresh => ?_
  cases budget with
  | zero => exact lower_zero_ends _
  | succ budget =>
    rw [lower, hbranches]
    refine (freshLabel_ends hfresh.stem).bind ?_
    intro _ b₁ hresult
    obtain ⟨rfl, htable₁, hissued₁, hadds₁⟩ := hresult
    refine (h _ budget b₁ (hfresh.adds hadds₁ (by omega) nofun)).bind ?_
    intro _ b₂ hresult
    obtain ⟨code, hadds₂, hlowers⟩ := hresult
    have hnew : Labels.nameOf (b₀.labels.issued + 1) ∉ b₂.labels.placed := by
      refine (hadds₁.trans hadds₂).not_mem_placed (hfresh.not_mem_placed (Nat.lt_succ_self _)) ?_
      exact hlowers.isLabelled.not_mem (.inl (Nat.le_of_eq hissued₁.symm))
    refine (emit_ends (by simpa [Instruction.label?] using hnew)).bind fun _ b₃ h₃ => .pure ?_
    refine ⟨_, (hadds₁.trans hadds₂).trans h₃.1, ?_⟩
    have hsupply₁ : b₁.supply = { b₀.supply with labels := b₀.supply.labels + 1 } := by
      simp only [Builder.supply, htable₁, hissued₁]
    have hsupply₃ : b₃.supply = b₂.supply := by
      simp only [Builder.supply, h₃.2.1, h₃.2.2]
    rw [hsupply₃]
    rw [hsupply₁] at hlowers
    exact .conditional hlowers .nil

/-- A body under a condition whose value an operand holds: it begins at one label, and behind the
jump at its end stands the label where the code goes on if the condition does not hold. -/
theorem guarded_ends {foreseen : LowerError → Prop} {Value Body : Type} {run : Lower Body}
    {next : Lower Value} {wanted : Value → Builder → Prop}
    (becomes : List Instruction → Supply → Prop) (operand goal : String) {inside exit : Nat}
    {b₀ : Builder} (hfresh : b₀.IsFresh) (hinside : Labels.nameOf inside ∉ b₀.labels.placed)
    (hexit : Labels.nameOf exit ∉ b₀.labels.placed) (hinsideLe : inside ≤ b₀.labels.issued)
    (hexitLe : exit ≤ b₀.labels.issued) (hne : inside ≠ exit)
    (hrun : ∀ start : Builder, start.IsFresh → start.supply = b₀.supply →
      EndsOr foreseen run start fun _ after => ∃ body, start.Adds body after ∧
        IsLabelled b₀.labels.issued after.labels.issued .statements body ∧
        becomes body after.supply)
    (hnext : ∀ body after, b₀.Adds (.branch operand (Labels.nameOf inside) ::
        .jump (Labels.nameOf exit) :: .label (Labels.nameOf inside) ::
          (body ++ [.jump goal, .label (Labels.nameOf exit)])) after →
      becomes body after.supply → after.IsFresh → EndsOr foreseen next after wanted) :
    EndsOr foreseen (do
      emit (.branch operand (Labels.nameOf inside))
      emit (.jump (Labels.nameOf exit))
      emit (.label (Labels.nameOf inside))
      let _ ← run
      emit (.jump goal)
      emit (.label (Labels.nameOf exit))
      next) b₀ wanted := by
  have hnames : Labels.nameOf exit ≠ Labels.nameOf inside :=
    fun h => hne (Labels.nameOf_injective h).symm
  refine (emit_ends (by simp [Instruction.label?])).bind fun _ b₁ h₁ => ?_
  refine (emit_ends (by simp [Instruction.label?])).bind fun _ b₂ h₂ => ?_
  have hinside₂ := (h₁.1.trans h₂.1).not_mem_placed hinside (by simp [Instruction.label?])
  refine (emit_ends (by simpa [Instruction.label?] using hinside₂)).bind fun _ b₃ h₃ => ?_
  have hadds₃ := h₁.1.trans (h₂.1.trans h₃.1)
  have hissued₃ : b₃.labels.issued = b₀.labels.issued := by rw [h₃.2.2, h₂.2.2, h₁.2.2]
  have hsupply₃ : b₃.supply = b₀.supply := by
    simp only [Builder.supply, h₃.2.1, h₂.2.1, h₁.2.1, hissued₃]
  have hfresh₃ := hfresh.adds hadds₃ (Nat.le_of_eq hissued₃.symm)
    (by simpa [Instruction.label?] using ⟨inside, by omega, rfl⟩)
  refine (hrun b₃ hfresh₃ hsupply₃).bind ?_
  intro _ b₄ hresult
  obtain ⟨body, hadds₄, hlabelled, hbecomes⟩ := hresult
  refine (emit_ends (by simp [Instruction.label?])).bind fun _ b₅ h₅ => ?_
  have hadds₅ := hadds₃.trans (hadds₄.trans h₅.1)
  have hexit₅ := hadds₅.not_mem_placed hexit (by
    have hbody := hlabelled.not_mem (.inl hexitLe)
    simpa [Instruction.label?, hnames] using hbody)
  refine (emit_ends (by simpa [Instruction.label?] using hexit₅)).bind fun _ b₆ h₆ => ?_
  have hissued₆ : b₆.labels.issued = b₄.labels.issued := by rw [h₆.2.2, h₅.2.2]
  have hsupply₆ : b₆.supply = b₄.supply := by
    simp only [Builder.supply, h₆.2.1, h₅.2.1, hissued₆]
  have hfresh₆ : b₆.IsFresh := by
    have hle : b₀.labels.issued ≤ b₄.labels.issued := hlabelled.le
    refine hfresh₃.adds (hadds₄.trans (h₅.1.trans h₆.1)) (by omega) ?_
    simp only [Instruction.labels_append, Instruction.labels_cons, Instruction.label?,
      Option.toList_none, Option.toList_some, Instruction.labels_nil, List.nil_append,
      List.append_nil, List.forall_mem_append, List.forall_mem_singleton, hissued₆]
    exact ⟨hlabelled.exists_number, exit, by omega, rfl⟩
  refine hnext body b₆ ?_ (hsupply₆ ▸ hbecomes) hfresh₆
  simpa using hadds₅.trans h₆.1

/-- A body, as it stands under a condition. -/
theorem AreLowered.guarded {items : List Node} (hitems : AreLowered items) (bodyMark : Mark)
    (budget : Nat) {start b₀ : Builder} (hfresh : start.IsFresh)
    (hsupply : start.supply = b₀.supply) :
    Ends ((Node.block items bodyMark).lower budget) start fun _ after => ∃ body,
      start.Adds body after ∧ IsLabelled b₀.labels.issued after.labels.issued .statements body ∧
        Lowers b₀.supply .statements items body after.supply := by
  refine (hitems.body bodyMark budget hfresh).mono ?_
  intro _ after hresult
  obtain ⟨body, hadds, hlowers⟩ := hresult
  rw [hsupply] at hlowers
  exact ⟨body, hadds, hlowers.isLabelled, hlowers⟩

/-- A loop. -/
theorem AreLowered.loop {condition : Node} {items : List Node} (hcondition : condition.IsLowered)
    (hitems : AreLowered items) (bodyMark mark : Mark) :
    AreLowered [.loop condition (.block items bodyMark) mark] := by
  refine .of_node fun budget b₀ hfresh => ?_
  cases budget with
  | zero => exact lower_zero_ends _
  | succ budget =>
    rw [lower]
    refine (freshLabel_ends hfresh.stem).bind ?_
    intro _ b₁ hresult
    obtain ⟨rfl, htable₁, hissued₁, hadds₁⟩ := hresult
    refine (freshLabel_ends (hadds₁.stem.trans hfresh.stem)).bind ?_
    intro _ b₂ hresult
    obtain ⟨rfl, htable₂, hissued₂, hadds₂⟩ := hresult
    refine (freshLabel_ends (hadds₂.stem.trans (hadds₁.stem.trans hfresh.stem))).bind ?_
    intro _ b₃ hresult
    obtain ⟨rfl, htable₃, hissued₃, hadds₃⟩ := hresult
    rw [hissued₂] at hissued₃ ⊢
    rw [hissued₁] at hissued₃ ⊢
    have hadds₀₃ := hadds₁.trans (hadds₂.trans hadds₃)
    have htop : Labels.nameOf (b₀.labels.issued + 1) ∉ b₃.labels.placed :=
      hadds₀₃.not_mem_placed (hfresh.not_mem_placed (by omega)) (by simp)
    refine (emit_ends (by simpa [Instruction.label?] using htop)).bind fun _ b₄ h₄ => ?_
    refine (hcondition budget b₄).bind ?_
    intro _ b₅ hresult
    obtain ⟨code, operand, rfl, hadds₅, hissued₅, hcomputes⟩ := hresult
    refine (requireValue_ends condition operand).bind ?_
    intro _ _ hresult
    obtain ⟨rfl, rfl⟩ := hresult
    have hissued : b₅.labels.issued = b₀.labels.issued + 3 := by
      rw [hissued₅, h₄.2.2, hissued₃]
    have hadds₀₅ := hadds₀₃.trans (h₄.1.trans hadds₅)
    have hlabels : Instruction.labels ([] ++ ([] ++ []) ++
        ([.label (Labels.nameOf (b₀.labels.issued + 1))] ++ code)) =
        [Labels.nameOf (b₀.labels.issued + 1)] := by
      simp [Instruction.label?, hcomputes.labels.1]
    have hnew {number : Nat} (hlt : b₀.labels.issued + 1 < number) :
        Labels.nameOf number ∉ b₅.labels.placed := by
      refine hadds₀₅.not_mem_placed (hfresh.not_mem_placed (by omega)) ?_
      rw [hlabels, List.mem_singleton]
      intro heq
      have := Labels.nameOf_injective heq
      omega
    have hfresh₅ : b₅.IsFresh := by
      refine hfresh.adds hadds₀₅ (by omega) ?_
      rw [hlabels, List.forall_mem_singleton]
      exact ⟨_, by omega, rfl⟩
    refine guarded_ends _ operand _ hfresh₅ (hnew (by omega)) (hnew (by omega)) (by omega)
      (by omega) (by omega) (fun _ => hitems.guarded bodyMark budget) fun body after hadds₆
        hlowers _ => .pure ?_
    refine ⟨_, hadds₀₅.trans hadds₆, ?_⟩
    have htable : b₄.table = b₀.supply.table := by
      rw [h₄.2.1, htable₃, htable₂, htable₁, Builder.supply]
    have hsupply : b₅.supply = ⟨b₅.table, b₀.supply.labels + 3⟩ := by
      rw [Builder.supply, hissued, Builder.supply]
    rw [htable] at hcomputes
    rw [hsupply] at hlowers
    have hloop : Lowers b₀.supply .statements [.loop condition (.block items bodyMark) mark] _
        after.supply := .loop hcomputes hlowers .nil
    simpa [Builder.supply] using hloop

/-- The parts of a conditional from a condition on. -/
theorem ArePartsLowered.branch {condition : Node} {items parts : List Node}
    (hcondition : condition.IsLowered) (hitems : AreLowered items) (hparts : ArePartsLowered parts)
    (bodyMark : Mark) : ArePartsLowered (condition :: .block items bodyMark :: parts) := by
  intro final budget b₀ hfresh
  rw [IsLoweredAs, lowerBranches]
  refine (hcondition budget b₀).bind ?_
  intro _ b₁ hresult
  obtain ⟨code, operand, rfl, hadds₁, hissued₁, hcomputes⟩ := hresult
  refine (requireValue_ends condition operand).bind ?_
  intro _ _ hresult
  obtain ⟨rfl, rfl⟩ := hresult
  have hstem₁ := hadds₁.stem.trans hfresh.stem
  refine (freshLabel_ends hstem₁).bind ?_
  intro _ b₂ hresult
  obtain ⟨rfl, htable₂, hissued₂, hadds₂⟩ := hresult
  refine (freshLabel_ends (hadds₂.stem.trans hstem₁)).bind ?_
  intro _ b₃ hresult
  obtain ⟨rfl, htable₃, hissued₃, hadds₃⟩ := hresult
  rw [hissued₂] at hissued₃ ⊢
  rw [hissued₁] at hissued₃ ⊢
  have hadds₀₃ := hadds₁.trans (hadds₂.trans hadds₃)
  have hlabels : Instruction.labels (code ++ ([] ++ [])) = [] := by simp [hcomputes.labels.1]
  have hnew {number : Nat} (hlt : b₀.labels.issued < number) :
      Labels.nameOf number ∉ b₃.labels.placed :=
    hadds₀₃.not_mem_placed (hfresh.not_mem_placed hlt) (by rw [hlabels]; nofun)
  have hfresh₃ := hfresh.adds hadds₀₃ (by omega) (by rw [hlabels]; nofun)
  refine guarded_ends _ operand _ hfresh₃ (hnew (by omega)) (hnew (by omega)) (by omega) (by omega)
    (by omega) (fun _ => hitems.guarded bodyMark budget) fun body b₄ hadds₄ hlowers hfresh₄ => ?_
  have hadds₀₄ := hadds₀₃.trans hadds₄
  have hsupply₃ : b₃.supply = ⟨b₁.table, b₀.supply.labels + 2⟩ := by
    simp only [Builder.supply, htable₃, htable₂, hissued₃]
  rw [hsupply₃] at hlowers
  refine (hparts final budget b₄ hfresh₄).mono ?_
  intro _ after hresult
  obtain ⟨others, hadds₅, hothers⟩ := hresult
  refine ⟨_, hadds₀₄.trans hadds₅, ?_⟩
  have hbranch : Lowers b₀.supply (.parts final) (condition :: .block items bodyMark :: parts) _
      after.supply := .branch hcomputes hlowers hothers
  simpa [Builder.supply] using hbranch

/-- The last body of a conditional. -/
theorem ArePartsLowered.otherwise {items : List Node} (hitems : AreLowered items)
    (bodyMark : Mark) : ArePartsLowered [.block items bodyMark] := by
  intro final budget builder hfresh
  refine (hitems.body bodyMark budget hfresh).bind ?_
  intro _ after hresult
  obtain ⟨code, hadds, hlowers⟩ := hresult
  exact .pure ⟨code, hadds, .otherwise hlowers⟩

/-- The end of a conditional without a last body. -/
theorem arePartsLowered_nil : ArePartsLowered [] :=
  fun _ _ _ _ => .pure ⟨[], .of_eq rfl rfl rfl rfl, .noElse⟩

/-- No statements. -/
theorem areLowered_nil : AreLowered [] :=
  fun _ _ _ => .pure ⟨[], .of_eq rfl rfl rfl rfl, .nil⟩

end Node

namespace Tree

variable {table after : Table} {tree : Tree} {nodes : List Node}

/-- What the checker leaves is lowered: as the parts of a conditional if it is left of a tail, else
as statements. -/
theorem Checks.areLowered (h : tree.Checks table nodes after) :
    if tree.isTail then Node.ArePartsLowered nodes else Node.AreLowered nodes := by
  induction h with
  | assignment _ _ hvalue _ => exact hvalue.isLowered.assignment _ _ _
  | letFixed hvalue _ | letMutable hvalue _ => exact hvalue.isLowered.assignment _ _ _
  | letUnset => exact Node.areLowered_nil
  | ifElse hcondition _ _ htail _ ihBody ihTail =>
    rw [htail] at ihTail
    exact (ihTail.branch hcondition.isLowered ihBody _).conditional rfl _
  | loop hcondition _ _ ih => exact ih.loop hcondition.isLowered _ _
  | output harguments => exact Node.output_lowered (Infers.lowerArguments_ends harguments) _ _ _
  | noElse => exact Node.arePartsLowered_nil
  | elseIf hcondition _ _ htail _ ihBody ihTail =>
    rw [htail] at ihTail
    exact ihTail.branch hcondition.isLowered ihBody _
  | otherwise _ ih => exact .otherwise ih _
  | nil => exact Node.areLowered_nil
  | cons hstatement _ _ ihFirst ihOthers =>
    rw [hstatement] at ihFirst
    exact Node.AreLowered.append ihFirst ihOthers

/-- A program that the checker accepts is lowered to code in which every jump has its label. -/
theorem Checks.lowerProgram_ends {statements : List Tree} {line : Line}
    (h : (block statements line).Checks table nodes after) (mark : Mark) (budget : Nat)
    (taken : Table) :
    Ends ((Node.program nodes mark).lowerProgram budget none) { table := taken }
      fun lines last => lines = last.lines ∧
        Node.Lowers ⟨taken, 0⟩ .statements nodes last.instructions.toList last.supply := by
  have hlowered : Node.AreLowered nodes := h.areLowered
  have hfresh : Builder.IsFresh { table := taken } := ⟨rfl, nofun⟩
  have hreset : Ends (modify fun builder : Builder =>
      { builder with table := Option.getD none builder.table }.reset) { table := taken }
      fun _ start => start = { table := taken } := .inl ⟨(), _, rfl, rfl⟩
  have hlower : Ends ((Node.program nodes mark).lower budget) { table := taken } fun _ last =>
      ∃ code, Builder.Adds { table := taken } code last ∧
        Node.Lowers ⟨taken, 0⟩ .statements nodes code last.supply := by
    cases budget with
    | zero => exact Node.lower_zero_ends _
    | succ budget => exact (hlowered budget _ hfresh).bind fun _ last hlast => .pure hlast
  refine hreset.bind ?_
  rintro _ _ rfl
  refine hlower.bind ?_
  intro _ last hresult
  obtain ⟨code, hadds, hlowers⟩ := hresult
  have hcode : last.instructions.toList = code := by
    rw [hadds.instructions]
    rfl
  have hunresolved : last.labels.unresolved = [] := by
    refine List.filter_eq_nil_iff.2 fun name hname => ?_
    rcases (hadds.targets name).1 hname with hname | hname
    · cases hname
    · rcases hlowers.isLabelled.goals name hname with hplaced | hplaced
      · simpa using (hadds.placed name).2 (.inr hplaced)
      · cases hplaced
  refine .inl ⟨last.lines, last, ?_, rfl, hcode ▸ hlowers⟩
  refine bind_ok.2 ⟨_, _, get_ok.2 ⟨rfl, rfl⟩, ?_⟩
  rw [hunresolved]
  exact bind_ok.2 ⟨_, _, get_ok.2 ⟨rfl, rfl⟩, pure_ok.2 ⟨rfl, rfl⟩⟩

end Tree

end ThreeAddress
