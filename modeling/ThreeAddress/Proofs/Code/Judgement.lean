import ThreeAddress.Code.Lowering
import ThreeAddress.Proofs.Check.Soundness
import ThreeAddress.Proofs.Code.Names

/-!
# The rules of lowering

Which code a checked tree becomes, as rules. `Node.Computes` gives the code of an expression, the
operand that holds its value afterwards, and the table with the temporaries it took;
`Node.Lowers` gives the code of statements and of the parts of a conditional, which also draw
numbers for labels. Lowering follows the rules on what the checker leaves
(`Tree.Checks.lowers`): it ends with what they give, or because the budget is used up.
-/

namespace ThreeAddress

open Sequence

/-! ## Rules -/

/-- What names are drawn from: the table of the names that are taken, and the number of the last
label. -/
structure Supply where
  table : Table
  labels : Nat

/-- What a list of nodes stands for: statements one after the other, or the parts of a conditional
with the label of its end. -/
inductive Shape where
  | statements
  | parts (final : String)

namespace Node

/-- The code of an expression and the operand that holds its value afterwards. Every operator and
every input stores its value in a new temporary. -/
inductive Computes : Table → Node → List Instruction → String → Table → Prop where
  | literal {table : Table} {lexeme : String} {mark : Mark} :
      Computes table (.literal lexeme mark) [] lexeme table
  | var {table : Table} {name : String} {mark : Mark} :
      Computes table (.var name mark) [] name table
  | input {table after : Table} {mark : Mark} {number : Nat} :
      table.addTemporary (Temporaries.nameOf number) mark.type = .ok after →
      Computes table (.input mark) [.call "input" 0 (some (Temporaries.nameOf number))]
        (Temporaries.nameOf number) after
  | unary {table between after : Table} {operator : String} {operand : Node} {mark : Mark}
      {code : List Instruction} {value : String} {number : Nat} :
      Computes table operand code value between →
      between.addTemporary (Temporaries.nameOf number) mark.type = .ok after →
      Computes table (.unary operator operand mark)
        (code ++ [.assign (Temporaries.nameOf number) (some value) (some operator) none])
        (Temporaries.nameOf number) after
  | binary {table between between' after : Table} {operator : String} {left right : Node}
      {mark : Mark} {leftCode rightCode : List Instruction} {first second : String}
      {number : Nat} : Computes table left leftCode first between →
      Computes between right rightCode second between' →
      between'.addTemporary (Temporaries.nameOf number) mark.type = .ok after →
      Computes table (.binary operator left right mark)
        (leftCode ++ (rightCode ++ [.assign (Temporaries.nameOf number) (some first)
          (some operator) (some second)]))
        (Temporaries.nameOf number) after

/-- The code of arguments and the operands that hold their values afterwards. -/
inductive ComputesAll : Table → List Node → List Instruction → List String → Table → Prop where
  | nil {table : Table} : ComputesAll table [] [] [] table
  | cons {table between after : Table} {node : Node} {nodes : List Node}
      {code others : List Instruction} {operand : String} {operands : List String} :
      Computes table node code operand between →
      ComputesAll between nodes others operands after →
      ComputesAll table (node :: nodes) (code ++ others) (operand :: operands) after

/-- The code of statements, or of the parts of a conditional. -/
inductive Lowers : Supply → Shape → List Node → List Instruction → Supply → Prop where
  | nil {supply : Supply} : Lowers supply .statements [] [] supply
  | assignment {supply after : Supply} {between : Table} {target value : String} {node : Node}
      {declares : Bool} {mark : Mark} {nodes : List Node} {code others : List Instruction} :
      Computes supply.table node code value between →
      Lowers { supply with table := between } .statements nodes others after →
      Lowers supply .statements (.assignment target node declares mark :: nodes)
        (code ++ (.assign target (some value) none none :: others)) after
  | output {supply after : Supply} {between : Table} {format : String} {formatMark mark : Mark}
      {arguments nodes : List Node} {code others : List Instruction} {operands : List String} :
      ComputesAll supply.table arguments code operands between →
      Lowers { supply with table := between } .statements nodes others after →
      Lowers supply .statements (.output (.format format formatMark) arguments mark :: nodes)
        (code ++ ((format :: operands).map .param ++
          (.call "printf" (operands.length + 1) none :: others))) after
  | conditional {supply between after : Supply} {parts nodes : List Node} {mark : Mark}
      {code others : List Instruction} :
      Lowers { supply with labels := supply.labels + 1 }
        (.parts (Labels.nameOf (supply.labels + 1))) parts code between →
      Lowers between .statements nodes others after →
      Lowers supply .statements (.conditional parts mark :: nodes)
        (code ++ (.label (Labels.nameOf (supply.labels + 1)) :: others)) after
  | loop {supply between after : Supply} {table : Table} {condition : Node} {operand : String}
      {items nodes : List Node} {bodyMark mark : Mark} {code body others : List Instruction} :
      Computes supply.table condition code operand table →
      Lowers ⟨table, supply.labels + 3⟩ .statements items body between →
      Lowers between .statements nodes others after →
      Lowers supply .statements (.loop condition (.block items bodyMark) mark :: nodes)
        (.label (Labels.nameOf (supply.labels + 1)) :: (code ++
          (.branch operand (Labels.nameOf (supply.labels + 2)) ::
            .jump (Labels.nameOf (supply.labels + 3)) ::
            .label (Labels.nameOf (supply.labels + 2)) :: (body ++
              (.jump (Labels.nameOf (supply.labels + 1)) ::
                .label (Labels.nameOf (supply.labels + 3)) :: others))))) after
  | noElse {supply : Supply} {final : String} : Lowers supply (.parts final) [] [] supply
  | otherwise {supply after : Supply} {final : String} {items : List Node} {mark : Mark}
      {code : List Instruction} : Lowers supply .statements items code after →
      Lowers supply (.parts final) [.block items mark] code after
  | branch {supply between after : Supply} {table : Table} {final : String} {condition : Node}
      {operand : String} {items parts : List Node} {mark : Mark}
      {code body others : List Instruction} :
      Computes supply.table condition code operand table →
      Lowers ⟨table, supply.labels + 2⟩ .statements items body between →
      Lowers between (.parts final) parts others after →
      Lowers supply (.parts final) (condition :: .block items mark :: parts)
        (code ++ (.branch operand (Labels.nameOf (supply.labels + 1)) ::
          .jump (Labels.nameOf (supply.labels + 2)) ::
          .label (Labels.nameOf (supply.labels + 1)) :: (body ++
            (.jump final :: .label (Labels.nameOf (supply.labels + 2)) :: others)))) after

end Node

/-! ## The table -/

namespace Node

/-- An expression keeps every name. -/
theorem Computes.grows {table after : Table} {node : Node} {code : List Instruction}
    {operand : String} (h : node.Computes table code operand after) : table.Grows after := by
  induction h with
  | literal | var => exact .refl _
  | input htable => exact Table.grows_of_addTemporary htable
  | unary _ htable ih => exact ih.trans (Table.grows_of_addTemporary htable)
  | binary _ _ htable ihLeft ihRight =>
    exact (ihLeft.trans ihRight).trans (Table.grows_of_addTemporary htable)

/-- Arguments keep every name. -/
theorem ComputesAll.grows {table after : Table} {nodes : List Node}
    {code : List Instruction} {operands : List String}
    (h : Node.ComputesAll table nodes code operands after) : table.Grows after := by
  induction h with
  | nil => exact .refl _
  | cons hnode _ ih => exact hnode.grows.trans ih

/-- Lowering keeps every name. -/
theorem Lowers.grows {supply after : Supply} {shape : Shape} {nodes : List Node}
    {code : List Instruction} (h : Node.Lowers supply shape nodes code after) :
    supply.table.Grows after.table := by
  induction h with
  | nil | noElse => exact .refl _
  | assignment hvalue _ ih => exact hvalue.grows.trans ih
  | output harguments _ ih => exact harguments.grows.trans ih
  | conditional _ _ ihParts ihNodes => exact ihParts.trans ihNodes
  | loop hcondition _ _ ihBody ihNodes => exact (hcondition.grows.trans ihBody).trans ihNodes
  | otherwise _ ih => exact ih
  | branch hcondition _ _ ihBody ihParts => exact (hcondition.grows.trans ihBody).trans ihParts

/-- The code of statements, cut behind some of them. -/
theorem Lowers.append_inv {supply after : Supply} {nodes others : List Node}
    {code : List Instruction} (h : Node.Lowers supply .statements (nodes ++ others) code after) :
    ∃ first rest between, code = first ++ rest ∧
      Node.Lowers supply .statements nodes first between ∧
      Node.Lowers between .statements others rest after := by
  induction nodes generalizing supply code with
  | nil => exact ⟨[], code, supply, rfl, .nil, h⟩
  | cons node nodes ih =>
    cases h with
    | assignment hvalue hnodes =>
      obtain ⟨first, rest, between, rfl, hfirst, hrest⟩ := ih hnodes
      exact ⟨_, rest, between, by simp, .assignment hvalue hfirst, hrest⟩
    | output harguments hnodes =>
      obtain ⟨first, rest, between, rfl, hfirst, hrest⟩ := ih hnodes
      exact ⟨_, rest, between, by simp, .output harguments hfirst, hrest⟩
    | conditional hparts hnodes =>
      obtain ⟨first, rest, between, rfl, hfirst, hrest⟩ := ih hnodes
      exact ⟨_, rest, between, by simp, .conditional hparts hfirst, hrest⟩
    | loop hcondition hbody hnodes =>
      obtain ⟨first, rest, between, rfl, hfirst, hrest⟩ := ih hnodes
      exact ⟨_, rest, between, by simp, .loop hcondition hbody hfirst, hrest⟩

end Node

/-! ## Labels and jumps -/

namespace Instruction

/-- The label that an instruction is. -/
def label? : Instruction → Option String
  | .label name => some name
  | _ => none

/-- The label that an instruction jumps to. -/
def goal? : Instruction → Option String
  | .jump goal | .branch _ goal => some goal
  | _ => none

/-- The labels in code. -/
def labels (code : List Instruction) : List String := code.filterMap label?

/-- The labels that code jumps to. -/
def goals (code : List Instruction) : List String := code.filterMap goal?

/-- The labels of code and more code. -/
@[simp] theorem labels_append (first second : List Instruction) :
    labels (first ++ second) = labels first ++ labels second := List.filterMap_append

/-- The jumps of code and more code. -/
@[simp] theorem goals_append (first second : List Instruction) :
    goals (first ++ second) = goals first ++ goals second := List.filterMap_append

@[simp] theorem labels_nil : labels [] = [] := rfl

@[simp] theorem goals_nil : goals [] = [] := rfl

/-- The labels of an instruction and more code. -/
@[simp] theorem labels_cons (instruction : Instruction) (code : List Instruction) :
    labels (instruction :: code) = instruction.label?.toList ++ labels code := by
  cases h : instruction.label? <;> simp [labels, h]

/-- The jumps of an instruction and more code. -/
@[simp] theorem goals_cons (instruction : Instruction) (code : List Instruction) :
    goals (instruction :: code) = instruction.goal?.toList ++ goals code := by
  cases h : instruction.goal? <;> simp [goals, h]

/-- Parameters are neither labels nor jumps. -/
@[simp] theorem labels_params (operands : List String) : labels (operands.map .param) = [] := by
  induction operands with
  | nil => rfl
  | cons operand operands ih => simpa [label?] using ih

/-- Parameters are neither labels nor jumps. -/
@[simp] theorem goals_params (operands : List String) : goals (operands.map .param) = [] := by
  induction operands with
  | nil => rfl
  | cons operand operands ih => simpa [goal?] using ih

end Instruction

namespace Node

open Instruction

/-- An expression has no labels and no jumps. -/
theorem Computes.labels {table after : Table} {node : Node} {code : List Instruction}
    {operand : String} (h : node.Computes table code operand after) :
    Instruction.labels code = [] ∧ goals code = [] := by
  induction h with
  | literal | var => exact ⟨rfl, rfl⟩
  | input => exact ⟨rfl, rfl⟩
  | unary _ _ ih => simp [ih.1, ih.2, label?, goal?]
  | binary _ _ _ ihLeft ihRight =>
    simp [ihLeft.1, ihLeft.2, ihRight.1, ihRight.2, label?, goal?]

/-- Arguments have no labels and no jumps. -/
theorem ComputesAll.labels {table after : Table} {nodes : List Node} {code : List Instruction}
    {operands : List String} (h : ComputesAll table nodes code operands after) :
    Instruction.labels code = [] ∧ goals code = [] := by
  induction h with
  | nil => exact ⟨rfl, rfl⟩
  | cons hnode _ ih => simp [hnode.labels.1, hnode.labels.2, ih.1, ih.2]

/-- The labels in code are distinct and have the numbers after `first` up to `last`; its jumps go
to them, or to the end of the conditional that it belongs to. -/
structure IsLabelled (first last : Nat) (shape : Shape) (code : List Instruction) : Prop where
  le : first ≤ last
  numbers : ∃ numbers : List Nat, Instruction.labels code = numbers.map Labels.nameOf ∧
    numbers.Nodup ∧ ∀ number ∈ numbers, first < number ∧ number ≤ last
  goals : ∀ goal ∈ Instruction.goals code,
    goal ∈ Instruction.labels code ∨ shape = .parts goal

/-- Code without labels and jumps. -/
theorem IsLabelled.of_nil {number : Nat} {shape : Shape} {code : List Instruction}
    (hlabels : Instruction.labels code = []) (hgoals : Instruction.goals code = []) :
    IsLabelled number number shape code :=
  ⟨Nat.le_refl _, ⟨[], hlabels, .nil, nofun⟩, by simp [hgoals]⟩

/-- What is lowered is labelled. -/
theorem Lowers.isLabelled {supply after : Supply} {shape : Shape} {nodes : List Node}
    {code : List Instruction} (h : Lowers supply shape nodes code after) :
    IsLabelled supply.labels after.labels shape code := by
  induction h with
  | nil | noElse => exact .of_nil rfl rfl
  | otherwise _ ih =>
    exact ⟨ih.le, ih.numbers, fun goal hgoal => (ih.goals goal hgoal).imp_right nofun⟩
  | assignment hvalue _ ih =>
    obtain ⟨hle, ⟨numbers, hnumbers, hnodup, hrange⟩, hgoals⟩ := ih
    refine ⟨hle, ⟨numbers, ?_, hnodup, hrange⟩, ?_⟩
    · simp [hvalue.labels.1, label?, hnumbers]
    · simpa [hvalue.labels.1, hvalue.labels.2, label?, goal?] using hgoals
  | output harguments _ ih =>
    obtain ⟨hle, ⟨numbers, hnumbers, hnodup, hrange⟩, hgoals⟩ := ih
    refine ⟨hle, ⟨numbers, ?_, hnodup, hrange⟩, ?_⟩
    · simp [harguments.labels.1, label?, hnumbers]
    · simpa [harguments.labels.1, harguments.labels.2, label?, goal?] using hgoals
  | @conditional supply between after parts nodes mark code others _ _ ihParts ihNodes =>
    obtain ⟨hle₁, ⟨numbers₁, hnumbers₁, hnodup₁, hrange₁⟩, hgoals₁⟩ := ihParts
    obtain ⟨hle₂, ⟨numbers₂, hnumbers₂, hnodup₂, hrange₂⟩, hgoals₂⟩ := ihNodes
    simp only at hle₁ hrange₁
    refine ⟨by omega, ⟨numbers₁ ++ (supply.labels + 1) :: numbers₂, ?_, ?_, ?_⟩, ?_⟩
    · simp [hnumbers₁, hnumbers₂, label?]
    · grind
    · grind
    · simp only [goals_append, goals_cons, goal?, labels_append, labels_cons, label?]
      grind
  | @loop supply between after table condition operand items nodes bodyMark mark code body others
      hcondition _ _ ihBody ihNodes =>
    obtain ⟨hle₁, ⟨numbers₁, hnumbers₁, hnodup₁, hrange₁⟩, hgoals₁⟩ := ihBody
    obtain ⟨hle₂, ⟨numbers₂, hnumbers₂, hnodup₂, hrange₂⟩, hgoals₂⟩ := ihNodes
    simp only at hle₁ hrange₁
    refine ⟨by omega, ⟨(supply.labels + 1) :: (supply.labels + 2) :: (numbers₁ ++
      (supply.labels + 3) :: numbers₂), ?_, ?_, ?_⟩, ?_⟩
    · simp [hnumbers₁, hnumbers₂, hcondition.labels.1, label?]
    · grind
    · grind
    · simp only [goals_append, goals_cons, goal?, labels_append, labels_cons, label?,
        hcondition.labels.1, hcondition.labels.2]
      grind
  | @branch supply between after table final condition operand items parts mark code body others
      hcondition _ _ ihBody ihParts =>
    obtain ⟨hle₁, ⟨numbers₁, hnumbers₁, hnodup₁, hrange₁⟩, hgoals₁⟩ := ihBody
    obtain ⟨hle₂, ⟨numbers₂, hnumbers₂, hnodup₂, hrange₂⟩, hgoals₂⟩ := ihParts
    simp only at hle₁ hrange₁
    refine ⟨by omega, ⟨(supply.labels + 1) :: (numbers₁ ++ (supply.labels + 2) :: numbers₂), ?_, ?_,
      ?_⟩, ?_⟩
    · simp [hnumbers₁, hnumbers₂, hcondition.labels.1, label?]
    · grind
    · grind
    · simp only [goals_append, goals_cons, goal?, labels_append, labels_cons, label?,
        hcondition.labels.1, hcondition.labels.2]
      grind

end Node

end ThreeAddress
