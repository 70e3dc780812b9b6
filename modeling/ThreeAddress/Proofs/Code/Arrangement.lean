import ThreeAddress.Proofs.Code.Layout
import ThreeAddress.Proofs.Code.Lowering

/-!
# Lowering lays code out

Whatever tree it is given, lowering lays its code out by the rules (`Node.LaysOut`), unless it ends
with an error; and no label is ever placed twice or jumped to without being placed.
-/

namespace ThreeAddress

open Sequence

/-- Errors that are not about labels. -/
def LowerError.IsApart : LowerError → Prop
  | placedTwice _ | undefinedLabels _ => False
  | _ => True

namespace Builder

variable {before between after : Builder} {shape : Shape} {nodes others : List Node}

/-- Nodes have been lowered to code that is laid out. -/
def Lays (before : Builder) (shape : Shape) (nodes : List Node) (after : Builder) : Prop :=
  ∃ code, before.Adds code after ∧
    Node.LaysOut before.labels.issued shape nodes code after.labels.issued

/-- The labels that have been placed have been handed out. -/
theorem Lays.isFresh (h : before.Lays shape nodes after) (hfresh : before.IsFresh) :
    after.IsFresh := by
  obtain ⟨code, hadds, hlays⟩ := h
  exact hfresh.adds hadds hlays.isLabelled.le hlays.isLabelled.exists_number

/-- Statements, and more statements. -/
theorem Lays.append (h : before.Lays .statements nodes between)
    (h' : between.Lays .statements others after) :
    before.Lays .statements (nodes ++ others) after := by
  obtain ⟨code, hadds, hlays⟩ := h
  obtain ⟨rest, hadds', hlays'⟩ := h'
  exact ⟨_, hadds.trans hadds', hlays.append hlays'⟩

/-- A node that takes no labels, with its parts. -/
theorem Lays.plain {node : Node} {own : List Instruction}
    (h : before.Lays .statements node.children between) (hplain : node.labelCount = 0)
    (hadds : between.Adds own after) (hissued : after.labels.issued = between.labels.issued)
    (hlabels : Instruction.labels own = []) (hgoals : Instruction.goals own = []) :
    before.Lays .statements [node] after := by
  obtain ⟨code, hadds', hlays⟩ := h
  rw [← hissued] at hlays
  exact ⟨_, hadds'.trans hadds, .plain hplain hlays hlabels hgoals⟩

/-- Nothing. -/
theorem Lays.nil (builder : Builder) : builder.Lays .statements [] builder :=
  ⟨[], .of_eq rfl rfl rfl rfl, .nil⟩

end Builder

namespace Lower

variable {Value : Type} {builder : Builder}

/-- Lowering leaves code as wanted or ends with an error that is not about labels. -/
abbrev EndsApart (run : Lower Value) (builder : Builder) (wanted : Value → Builder → Prop) : Prop :=
  EndsOr LowerError.IsApart run builder wanted

/-- A value, if it is there. -/
theorem requireValue_apart (node : Node) (operand : Option String) :
    EndsApart (requireValue node operand) builder fun _ after => builder = after := by
  cases operand with
  | none => exact .throw trivial
  | some => exact .pure rfl

/-- The text of a node, for which there is no code. -/
theorem requireText_apart (node : Node) :
    EndsApart (requireText node) builder fun _ after =>
      builder = after ∧ ∀ start : Builder, start.Lays .statements [node] start := by
  cases node with
  | literal | format =>
    exact .pure ⟨rfl, fun _ => ⟨[], .of_eq rfl rfl rfl rfl, .leaf rfl rfl rfl rfl _⟩⟩
  | _ => exact .throw trivial

/-- An operator that is listed. -/
theorem requireOperator_apart (operators : List String) (operator : String) {error : LowerError}
    (herror : error.IsApart) :
    EndsApart (requireOperator operators operator error) builder fun _ after =>
      builder = after := by
  rw [requireOperator]
  split
  · exact .pure rfl
  · exact .throw herror

/-- A new temporary. -/
theorem freshTemporary_apart (type : DataType) :
    EndsApart (freshTemporary type) builder fun _ after =>
      after.instructions = builder.instructions ∧ after.labels = builder.labels := by
  rw [freshTemporary]
  split
  · refine .get ?_
    rcases hallocate : builder.temporaries.allocate builder.table.names with ⟨name, temporaries⟩
    refine .get ?_
    rw [hallocate]
    refine .ok_bind rfl (.get ?_)
    cases hadd : builder.table.addTemporary name type with
    | ok table => exact .ok_bind rfl (.pure ⟨rfl, rfl⟩)
    | error error => exact .throw trivial
  · exact .throw trivial

/-- A new temporary that an instruction stores its value in. -/
theorem intoTemporary_apart (type : DataType) {instruction : String → Instruction}
    (hplain : ∀ name, (instruction name).label? = none) :
    EndsApart (intoTemporary type instruction) builder fun _ after =>
      ∃ name, builder.Adds [instruction name] after ∧
        after.labels.issued = builder.labels.issued := by
  refine (freshTemporary_apart type).bind fun name between hbetween => ?_
  refine (emit_ends (by simp [hplain])).bind fun _ after hafter => .pure ⟨name, ?_, ?_⟩
  · exact (Builder.Adds.of_eq hbetween.1 (by rw [hbetween.2]) (by rw [hbetween.2])
      (by rw [hbetween.2])).trans hafter.1
  · rw [hafter.2.2, hbetween.2]

end Lower

/-! ## Lowering -/

namespace Node

open Lower

variable {budget : Nat} {builder : Builder}

/-- Whatever a node is, its code is laid out, if nodes one level below are. -/
def LaysDown (budget : Nat) : Prop :=
  ∀ (node : Node) (builder : Builder), builder.IsFresh →
    EndsApart (node.lower budget) builder fun _ after => builder.Lays .statements [node] after

/-- Statements one after the other. -/
theorem LaysDown.all (h : LaysDown budget) (nodes : List Node) (hfresh : builder.IsFresh) :
    EndsApart (lowerAll nodes budget) builder fun _ after =>
      builder.Lays .statements nodes after := by
  induction nodes generalizing builder with
  | nil => exact .pure (.nil builder)
  | cons node nodes ih =>
    refine (h node builder hfresh).bind fun _ between hnode => ?_
    exact (ih (hnode.isFresh hfresh)).mono fun _ _ hnodes => hnode.append hnodes

/-- The arguments of a print. -/
theorem LaysDown.arguments (h : LaysDown budget) (nodes : List Node) (hfresh : builder.IsFresh) :
    EndsApart (lowerArguments nodes budget) builder fun _ after =>
      builder.Lays .statements nodes after := by
  induction nodes generalizing builder with
  | nil => exact .pure (.nil builder)
  | cons node nodes ih =>
    refine (h node builder hfresh).bind fun operand between hnode => ?_
    refine (requireValue_apart node operand).bind ?_
    rintro _ _ rfl
    refine (ih (hnode.isFresh hfresh)).bind fun _ _ hnodes => .pure (hnode.append hnodes)

/-- A body under a condition. -/
theorem LaysDown.guarded (h : LaysDown budget) (body : Node) {start b₀ : Builder}
    (hfresh : start.IsFresh) (hsupply : start.supply = b₀.supply) :
    EndsApart (body.lower budget) start fun _ after => ∃ code, start.Adds code after ∧
      IsLabelled b₀.labels.issued after.labels.issued .statements code ∧
      LaysOut b₀.labels.issued .statements [body] code after.supply.labels := by
  refine (h body start hfresh).mono fun _ after hresult => ?_
  obtain ⟨code, hadds, hlays⟩ := hresult
  rw [show start.labels.issued = b₀.labels.issued from congrArg Supply.labels hsupply] at hlays
  exact ⟨code, hadds, hlays.isLabelled, hlays⟩

/-- The parts of a conditional from a condition on. -/
theorem LaysDown.branch (h : LaysDown budget) {final : String} (condition body : Node)
    {parts : List Node} (hparts : ∀ builder : Builder, builder.IsFresh →
      EndsApart (lowerBranches final parts budget) builder fun _ after =>
        builder.Lays (.parts final) parts after) {b₀ : Builder} (hfresh : b₀.IsFresh) :
    EndsApart (lowerBranches final (condition :: body :: parts) budget) b₀ fun _ after =>
      b₀.Lays (.parts final) (condition :: body :: parts) after := by
  rw [lowerBranches]
  refine (h condition b₀ hfresh).bind fun _ b₁ hcondition => ?_
  have hfresh₁ := hcondition.isFresh hfresh
  obtain ⟨test, hadds₁, hlays₁⟩ := hcondition
  refine (requireValue_apart condition _).bind ?_
  rintro operand _ rfl
  refine (freshLabel_ends hfresh₁.stem).bind ?_
  intro _ b₂ hresult
  obtain ⟨rfl, -, hissued₂, hadds₂⟩ := hresult
  refine (freshLabel_ends (hadds₂.stem.trans hfresh₁.stem)).bind ?_
  intro _ b₃ hresult
  obtain ⟨rfl, -, hissued₃, hadds₃⟩ := hresult
  rw [hissued₂] at hissued₃ ⊢
  have hadds₁₃ := hadds₂.trans hadds₃
  have hnew {number : Nat} (hlt : b₁.labels.issued < number) :
      Labels.nameOf number ∉ b₃.labels.placed :=
    hadds₁₃.not_mem_placed (hfresh₁.not_mem_placed hlt) (by simp)
  have hfresh₃ := hfresh₁.adds hadds₁₃ (by omega) (List.forall_mem_nil _)
  refine guarded_ends (fun inner supply => LaysOut b₃.labels.issued .statements [body] inner
    supply.labels) operand final hfresh₃ (hnew (by omega)) (hnew (by omega)) (by omega) (by omega)
    (by omega) (fun _ => h.guarded body) fun inner b₄ hadds₄ hinner hfresh₄ => ?_
  refine (hparts b₄ hfresh₄).mono ?_
  intro _ after hresult
  obtain ⟨others, hadds₅, hothers⟩ := hresult
  rw [hissued₃] at hinner
  have hbranch := LaysOut.branch operand hlays₁ hinner hothers
  exact ⟨_, hadds₁.trans (hadds₁₃.trans (hadds₄.trans hadds₅)), by simpa using hbranch⟩

/-- The parts of a conditional. -/
theorem LaysDown.parts (h : LaysDown budget) (final : String) : ∀ (parts : List Node)
    (builder : Builder), builder.IsFresh →
      EndsApart (lowerBranches final parts budget) builder fun _ after =>
        builder.Lays (.parts final) parts after
  | [], builder, _ => .pure ⟨[], .of_eq rfl rfl rfl rfl, .noElse⟩
  | [body], builder, hfresh => by
    have hbody : EndsApart (body.lower budget) builder fun _ after =>
        builder.Lays (.parts final) [body] after :=
      (h body builder hfresh).mono fun _ _ ⟨code, hadds, hlays⟩ => ⟨code, hadds, .otherwise hlays⟩
    cases body with
    | absent =>
      exact .pure ⟨[], .of_eq rfl rfl rfl rfl, .otherwise (.leaf rfl rfl rfl rfl _)⟩
    | _ => exact hbody.bind fun _ _ hresult => .pure hresult
  | condition :: body :: parts, _, hfresh =>
    h.branch condition body (h.parts final parts) hfresh

/-- A conditional. -/
theorem LaysDown.conditional (h : LaysDown budget) (parts : List Node) (mark : Mark)
    {b₀ : Builder} (hfresh : b₀.IsFresh) :
    EndsApart ((Node.conditional parts mark).lower (budget + 1)) b₀ fun _ after =>
      b₀.Lays .statements [.conditional parts mark] after := by
  rw [lower]
  split
  · exact .throw trivial
  next hbranches =>
  refine (freshLabel_ends hfresh.stem).bind ?_
  intro _ b₁ hresult
  obtain ⟨rfl, -, hissued₁, hadds₁⟩ := hresult
  refine (h.parts _ parts b₁ (hfresh.adds hadds₁ (by omega) (List.forall_mem_nil _))).bind ?_
  intro _ b₂ hresult
  obtain ⟨code, hadds₂, hlays⟩ := hresult
  rw [hissued₁] at hlays
  have hnew : Labels.nameOf (b₀.labels.issued + 1) ∉ b₂.labels.placed :=
    (hadds₁.trans hadds₂).not_mem_placed (hfresh.not_mem_placed (Nat.lt_succ_self _))
      (hlays.isLabelled.not_mem (.inl (Nat.le_refl _)))
  refine (emit_ends (by simpa [Instruction.label?] using hnew)).bind fun _ b₃ h₃ => .pure ?_
  refine ⟨_, hadds₁.trans (hadds₂.trans h₃.1), ?_⟩
  rw [h₃.2.2]
  exact .conditional mark (by simpa using hbranches) hlays

/-- A loop. -/
theorem LaysDown.loop (h : LaysDown budget) (condition body : Node) (mark : Mark) {b₀ : Builder}
    (hfresh : b₀.IsFresh) :
    EndsApart ((Node.loop condition body mark).lower (budget + 1)) b₀ fun _ after =>
      b₀.Lays .statements [.loop condition body mark] after := by
  rw [lower]
  refine (freshLabel_ends hfresh.stem).bind ?_
  intro _ b₁ hresult
  obtain ⟨rfl, -, hissued₁, hadds₁⟩ := hresult
  refine (freshLabel_ends (hadds₁.stem.trans hfresh.stem)).bind ?_
  intro _ b₂ hresult
  obtain ⟨rfl, -, hissued₂, hadds₂⟩ := hresult
  refine (freshLabel_ends (hadds₂.stem.trans (hadds₁.stem.trans hfresh.stem))).bind ?_
  intro _ b₃ hresult
  obtain ⟨rfl, -, hissued₃, hadds₃⟩ := hresult
  rw [hissued₂] at hissued₃ ⊢
  rw [hissued₁] at hissued₃ ⊢
  have hadds₀₃ := hadds₁.trans (hadds₂.trans hadds₃)
  have htop : Labels.nameOf (b₀.labels.issued + 1) ∉ b₃.labels.placed :=
    hadds₀₃.not_mem_placed (hfresh.not_mem_placed (by omega)) (by simp)
  refine (emit_ends (by simpa [Instruction.label?] using htop)).bind fun _ b₄ h₄ => ?_
  have hissued₄ : b₄.labels.issued = b₀.labels.issued + 3 := h₄.2.2.trans hissued₃
  have hadds₀₄ := hadds₀₃.trans h₄.1
  have hfresh₄ := hfresh.adds hadds₀₄ (by omega)
    (by simpa [Instruction.label?] using ⟨b₀.labels.issued + 1, by omega, rfl⟩)
  refine (h condition b₄ hfresh₄).bind fun _ b₅ hcondition => ?_
  have hfresh₅ := hcondition.isFresh hfresh₄
  obtain ⟨test, hadds₅, hlays₅⟩ := hcondition
  rw [hissued₄] at hlays₅
  have hle₅ := hlays₅.isLabelled.le
  refine (requireValue_apart condition _).bind ?_
  rintro operand _ rfl
  have hnew {number : Nat} (hlt : b₀.labels.issued + 1 < number)
      (hle : number ≤ b₀.labels.issued + 3) : Labels.nameOf number ∉ b₅.labels.placed := by
    refine (hadds₀₄.trans hadds₅).not_mem_placed (hfresh.not_mem_placed (by omega)) ?_
    have htest := hlays₅.isLabelled.not_mem (.inl hle)
    have hne : Labels.nameOf number ≠ Labels.nameOf (b₀.labels.issued + 1) := fun heq => by
      have := Labels.nameOf_injective heq
      omega
    simpa [Instruction.label?, hne] using htest
  refine guarded_ends (fun inner supply => LaysOut b₅.labels.issued .statements [body] inner
    supply.labels) operand _ hfresh₅ (hnew (by omega) (by omega)) (hnew (by omega) (by omega))
    (by omega) (by omega) (by omega) (fun _ => h.guarded body) fun inner after hadds₆ hinner _ =>
      .pure ?_
  have hloop := LaysOut.loop mark operand hlays₅ hinner
  exact ⟨_, hadds₀₄.trans (hadds₅.trans hadds₆), by simpa [Builder.supply] using hloop⟩

/-- Whatever a node is, its code is laid out. -/
theorem laysDown (budget : Nat) : LaysDown budget := by
  induction budget with
  | zero => exact fun node builder _ => .inr ⟨.tooDeep, builder, by cases node <;> rfl, trivial⟩
  | succ budget ih =>
    intro node builder hfresh
    cases node with
    | absent | bare | format => exact .throw trivial
    | literal | var => exact .pure ⟨[], .of_eq rfl rfl rfl rfl, .leaf rfl rfl rfl rfl _⟩
    | program statements | block statements =>
      refine (ih.all statements hfresh).bind fun _ after hstatements => .pure ?_
      exact hstatements.plain rfl (.of_eq rfl rfl rfl rfl) rfl rfl rfl
    | assignment target value declares mark =>
      refine (ih value builder hfresh).bind fun _ between hvalue => ?_
      refine (requireValue_apart value _).bind ?_
      rintro operand _ rfl
      refine (emit_ends (by simp [Instruction.label?])).bind fun _ after hafter => .pure ?_
      exact hvalue.plain rfl hafter.1 hafter.2.2 rfl rfl
    | output text arguments mark =>
      refine (ih.arguments arguments hfresh).bind fun operands between harguments => ?_
      refine (requireText_apart text).bind ?_
      rintro format _ ⟨rfl, htext⟩
      refine (emit_ends (by simp [Instruction.label?])).bind fun _ b₁ h₁ => ?_
      refine (params_ends operands).bind fun _ b₂ h₂ => ?_
      refine (emit_ends (by simp [Instruction.label?])).bind fun _ after h₃ => .pure ?_
      have hissued : after.labels.issued = between.labels.issued := by
        rw [h₃.2.2, h₂.2.2, h₁.2.2]
      refine ((htext builder).append harguments).plain rfl (h₁.1.trans (h₂.1.trans h₃.1)) hissued
        ?_ ?_
      · simp [Instruction.label?]
      · simp [Instruction.goal?]
    | conditional parts mark => exact ih.conditional parts mark hfresh
    | loop condition body mark => exact ih.loop condition body mark hfresh
    | binary operator left right mark =>
      refine (requireOperator_apart binaryOperators operator (by exact trivial)).bind ?_
      rintro _ _ rfl
      refine (ih left builder hfresh).bind fun first between hleft => ?_
      refine (ih right between (hleft.isFresh hfresh)).bind fun second between' hright => ?_
      refine (intoTemporary_apart mark.type fun _ => rfl).mono ?_
      rintro _ after ⟨name, hadds, hissued⟩
      exact (hleft.append hright).plain rfl hadds hissued rfl rfl
    | unary operator operand mark =>
      refine (requireOperator_apart unaryOperators operator (by exact trivial)).bind ?_
      rintro _ _ rfl
      refine (ih operand builder hfresh).bind fun value between hoperand => ?_
      refine (intoTemporary_apart mark.type fun _ => rfl).mono ?_
      rintro _ after ⟨name, hadds, hissued⟩
      exact hoperand.plain rfl hadds hissued rfl rfl
    | input mark =>
      refine (intoTemporary_apart mark.type fun _ => rfl).mono ?_
      rintro _ after ⟨name, hadds, hissued⟩
      exact (Builder.Lays.nil builder).plain rfl hadds hissued rfl rfl

/-- A program of any shape is lowered to code that is laid out, in which every jump has its label,
or lowering ends with an error that is not about labels. -/
theorem lowerProgram_lays (root : Node) (budget : Nat) (taken : Table) :
    EndsApart (root.lowerProgram budget none) { table := taken } fun lines last =>
      lines = last.lines ∧
        LaysOut 0 .statements [root] last.instructions.toList last.labels.issued := by
  cases root with
  | program statements mark =>
    have hfresh : Builder.IsFresh { table := taken } := ⟨rfl, nofun⟩
    refine .ok_bind rfl ?_
    refine (laysDown budget (.program statements mark) _ hfresh).bind fun _ last hlast => ?_
    obtain ⟨code, hadds, hlays⟩ := hlast
    have hcode : last.instructions.toList = code := hadds.instructions
    have hunresolved : last.labels.unresolved = [] := by
      refine List.filter_eq_nil_iff.2 fun name hname => ?_
      rcases (hadds.targets name).1 hname with hname | hname
      · cases hname
      · rcases hlays.isLabelled.goals name hname with hplaced | hplaced
        · simpa using (hadds.placed name).2 (.inr hplaced)
        · cases hplaced
    refine .get ?_
    rw [hunresolved]
    exact .get (.pure ⟨rfl, hcode ▸ hlays⟩)
  | _ => exact .throw trivial

end Node

end ThreeAddress
