import Mathlib.Data.List.Forall2
import ThreeAddress.Proofs.Code.Lowering

/-!
# What becomes of the operators of any tree

A tree made by hand may hold a node of any form in any place. Lowering refuses a node without a
value where a condition, an argument or a value to store is needed. It does not refuse one where an
operator needs an operand: the operator becomes an instruction all the same, in which this operand
is missing. So the instructions with operators answer to the operator nodes one by one, and each is
whole iff the operands of its node have values.
-/

namespace ThreeAddress

open Sequence

/-! ## Nodes and what they need -/

namespace Node

/-- Whether a node has a value once it is lowered. -/
def hasValue : Node → Bool
  | .binary .. | .unary .. | .literal .. | .var .. | .input _ => true
  | _ => false

/-- Whether a node is an operator with its operands. -/
def isOperator : Node → Bool
  | .binary .. | .unary .. => true
  | _ => false

/-- The operands of an operator. -/
def operands : Node → List Node
  | .binary _ left right _ => [left, right]
  | .unary _ operand _ => [operand]
  | _ => []

/-- The nodes whose values a statement needs: conditions, arguments and values to store. -/
def needed : Node → List Node
  | .assignment _ value _ _ => [value]
  | .output _ arguments _ => arguments
  | .conditional parts _ => (branches parts).map Prod.fst
  | .loop condition _ _ => [condition]
  | _ => []

/-- Whether a node is a print whose format text is a node without a text. -/
def isTextless : Node → Bool
  | .output text _ _ => text.lexeme?.isNone
  | _ => false

mutual
/-- The nodes of a tree that are lowered, each behind those below it. These are all nodes but the
format texts of prints. -/
def lowered : Node → List Node
  | .program statements mark => loweredAll statements ++ [.program statements mark]
  | .block statements mark => loweredAll statements ++ [.block statements mark]
  | .assignment target value declares mark =>
    lowered value ++ [.assignment target value declares mark]
  | .output text arguments mark => loweredAll arguments ++ [.output text arguments mark]
  | .conditional parts mark => loweredAll parts ++ [.conditional parts mark]
  | .loop condition body mark =>
    lowered condition ++ (lowered body ++ [.loop condition body mark])
  | .binary operator left right mark =>
    lowered left ++ (lowered right ++ [.binary operator left right mark])
  | .unary operator operand mark => lowered operand ++ [.unary operator operand mark]
  | .absent => [.absent]
  | .bare mark => [.bare mark]
  | .literal lexeme mark => [.literal lexeme mark]
  | .format lexeme mark => [.format lexeme mark]
  | .var name mark => [.var name mark]
  | .input mark => [.input mark]

/-- The nodes of several trees that are lowered. -/
def loweredAll : List Node → List Node
  | [] => []
  | node :: nodes => lowered node ++ loweredAll nodes
end

/-- An instruction performs an operator: it has an operand where the operand of the operator has a
value. -/
inductive IsPerformedBy : Node → Instruction → Prop where
  | binary {operator target : String} {left right : Node} {mark : Mark}
      {first second : Option String} : first.isSome = left.hasValue →
      second.isSome = right.hasValue →
      IsPerformedBy (.binary operator left right mark) (.assign target first (some operator) second)
  | unary {operator target : String} {operand : Node} {mark : Mark} {first : Option String} :
      first.isSome = operand.hasValue →
      IsPerformedBy (.unary operator operand mark) (.assign target first (some operator) none)

/-- An instruction performs an operator and has all its operands: an operator between two operands
has become a binary form, and one in front of its operand a unary form. -/
inductive IsFilledBy : Node → Instruction → Prop where
  | binary {operator target first second : String} {left right : Node} {mark : Mark} :
      IsFilledBy (.binary operator left right mark)
        (.assign target (some first) (some operator) (some second))
  | unary {operator target first : String} {operand : Node} {mark : Mark} :
      IsFilledBy (.unary operator operand mark) (.assign target (some first) (some operator) none)

end Node

/-- Whether an instruction is an assignment with an operator. -/
def Instruction.hasOperator : Instruction → Bool
  | .assign _ _ operator _ => operator.isSome
  | _ => false

namespace Node

/-- Code answers to nodes: it performs the operators among them in order, its other assignments are
copies of an operand, and no statement among the nodes has lacked a value or a text. -/
structure Renders (nodes : List Node) (code : List Instruction) : Prop where
  performed : List.Forall₂ IsPerformedBy (nodes.filter isOperator) (code.filter (·.hasOperator))
  copies : ∀ target first second, .assign target first none second ∈ code →
    first.isSome = true ∧ second = none
  served : ∀ node ∈ nodes, ∀ part ∈ node.needed, part.hasValue = true
  texts : ∀ node ∈ nodes, node.isTextless = false

/-- Code fills the operators among nodes: each has become an instruction with all its operands. -/
def Fills (nodes : List Node) (code : List Instruction) : Prop :=
  List.Forall₂ IsFilledBy (nodes.filter isOperator) (code.filter (·.hasOperator))

namespace Renders

variable {nodes others : List Node} {code code' : List Instruction}

/-- No nodes and no code. -/
theorem nil : Renders [] [] := ⟨.nil, nofun, nofun, nofun⟩

/-- Nodes and code, and more of both behind them. -/
theorem append (h : Renders nodes code) (h' : Renders others code') :
    Renders (nodes ++ others) (code ++ code') := by
  refine ⟨?_, fun target first second hmem => ?_, fun node hmem => ?_, fun node hmem => ?_⟩
  · rw [List.filter_append, List.filter_append]
    exact List.rel_append h.performed h'.performed
  · exact (List.mem_append.1 hmem).elim (h.copies _ _ _) (h'.copies _ _ _)
  · exact (List.mem_append.1 hmem).elim (h.served _) (h'.served _)
  · exact (List.mem_append.1 hmem).elim (h.texts _) (h'.texts _)

/-- A node that is no operator and lacks nothing needs no code of its own. -/
theorem of_node {node : Node} (hoperator : node.isOperator = false)
    (hneeded : ∀ part ∈ node.needed, part.hasValue = true) (htext : node.isTextless = false) :
    Renders [node] [] := by
  refine ⟨?_, nofun, List.forall_mem_singleton.2 hneeded, List.forall_mem_singleton.2 htext⟩
  rw [List.filter_singleton, hoperator]
  exact .nil

/-- An instruction that is no assignment answers to no operator. -/
theorem of_plain {instruction : Instruction}
    (h : ∀ target first operator second, instruction ≠ .assign target first operator second) :
    Renders [] [instruction] := by
  refine ⟨?_, fun target first second hmem => ?_, nofun, nofun⟩
  · cases instruction with
    | assign => exact absurd rfl (h _ _ _ _)
    | _ => exact .nil
  · exact absurd (List.mem_singleton.1 hmem).symm (h _ _ _ _)

/-- A copy of an operand answers to no operator. -/
theorem of_copy (target first : String) : Renders [] [.assign target (some first) none none] := by
  refine ⟨.nil, fun _ _ _ hmem => ?_, nofun, nofun⟩
  cases List.mem_singleton.1 hmem
  exact ⟨rfl, rfl⟩

/-- An instruction that performs an operator answers to it. -/
theorem of_operator {node : Node} {instruction : Instruction} (h : node.IsPerformedBy instruction) :
    Renders [node] [instruction] := by
  have hneeded : node.needed = [] ∧ node.isTextless = false ∧ node.isOperator = true := by
    cases h <;> exact ⟨rfl, rfl, rfl⟩
  refine ⟨?_, fun _ _ _ hmem => ?_, ?_, List.forall_mem_singleton.2 hneeded.2.1⟩
  · have hinstruction : instruction.hasOperator = true := by cases h <;> rfl
    rw [List.filter_singleton, List.filter_singleton, hneeded.2.2, hinstruction]
    exact .cons h .nil
  · rw [← List.mem_singleton.1 hmem] at h
    cases h
  · rw [List.forall_mem_singleton, hneeded.1]
    nofun

/-- An operator is performed by an instruction with all operands iff its own operands have
values. -/
theorem isFilledBy_iff {node : Node} {instruction : Instruction}
    (h : node.IsPerformedBy instruction) : node.IsFilledBy instruction ↔
      ∀ operand ∈ node.operands, operand.hasValue = true := by
  cases h with
  | @binary operator target left right mark first second hfirst hsecond =>
    simp only [Node.operands, List.forall_mem_cons, ← hfirst, ← hsecond]
    constructor
    · rintro ⟨⟩
      exact ⟨rfl, rfl, nofun⟩
    · rintro ⟨hleft, hright, -⟩
      obtain ⟨first, rfl⟩ := Option.isSome_iff_exists.1 hleft
      obtain ⟨second, rfl⟩ := Option.isSome_iff_exists.1 hright
      exact .binary
  | @unary operator target operand mark first hfirst =>
    simp only [Node.operands, List.forall_mem_singleton, ← hfirst]
    constructor
    · rintro ⟨⟩
      rfl
    · intro hoperand
      obtain ⟨first, rfl⟩ := Option.isSome_iff_exists.1 hoperand
      exact .unary

/-- Other nodes have no operands. -/
theorem operands_eq_nil {node : Node} (h : node.isOperator = false) : node.operands = [] := by
  cases node with
  | binary | unary => cases h
  | _ => rfl

/-- Operators are performed by instructions with all operands iff all their own operands have
values. -/
theorem forall₂_isFilledBy_iff {operators : List Node} {instructions : List Instruction}
    (h : List.Forall₂ IsPerformedBy operators instructions) :
    List.Forall₂ IsFilledBy operators instructions ↔
      ∀ node ∈ operators, ∀ operand ∈ node.operands, operand.hasValue = true := by
  induction h with
  | nil => exact ⟨fun _ => nofun, fun _ => .nil⟩
  | cons hnode _ ih => rw [List.forall₂_cons, ih, isFilledBy_iff hnode, List.forall_mem_cons]

/-- Code that answers to nodes fills their operators iff all their operands have values. -/
theorem fills_iff (h : Renders nodes code) : Fills nodes code ↔
    ∀ node ∈ nodes, ∀ operand ∈ node.operands, operand.hasValue = true := by
  have hnodes : (∀ node ∈ nodes, ∀ operand ∈ node.operands, operand.hasValue = true) ↔
      ∀ node ∈ nodes.filter isOperator, ∀ operand ∈ node.operands, operand.hasValue = true := by
    refine ⟨fun hall node hmem => hall node (List.mem_of_mem_filter hmem), fun hall node hmem => ?_⟩
    cases hoperator : node.isOperator with
    | true => exact hall node (List.mem_filter.2 ⟨hmem, hoperator⟩)
    | false =>
      rw [operands_eq_nil hoperator]
      nofun
  rw [hnodes]
  exact forall₂_isFilledBy_iff h.performed

end Renders

end Node

/-! ## Runs that answer to nodes -/

namespace Builder

variable {builder after : Builder} {opened others : List String}

/-- The labels handed out are told apart from those placed, and the given ones are still to be
placed. -/
structure Awaits (builder : Builder) (opened : List String) : Prop where
  fresh : builder.IsFresh
  named : ∀ name ∈ opened, ∃ number ≤ builder.labels.issued, name = Labels.nameOf number
  missing : ∀ name ∈ opened, name ∉ builder.labels.placed

/-- Fewer labels that are still to be placed. -/
theorem Awaits.mono (h : builder.Awaits opened) (hsub : others ⊆ opened) :
    builder.Awaits others where
  fresh := h.fresh
  named name hname := h.named name (hsub hname)
  missing name hname := h.missing name (hsub hname)

/-- After code that places none of the labels that are still to be placed. -/
theorem Awaits.adds {code : List Instruction} (h : builder.Awaits opened)
    (hadds : builder.Adds code after) (hissued : after.labels.issued = builder.labels.issued)
    (hcode : ∀ name ∈ Instruction.labels code, name ∉ opened ∧
      ∃ number ≤ builder.labels.issued, name = Labels.nameOf number) : after.Awaits opened where
  fresh := h.fresh.adds hadds (Nat.le_of_eq hissued.symm)
    (hissued ▸ fun name hname => (hcode name hname).2)
  named := hissued ▸ h.named
  missing name hname :=
    hadds.not_mem_placed (h.missing name hname) fun hmem => (hcode name hmem).1 hname

/-- A new run has placed no labels. -/
theorem isFresh_reset (h : builder.labels.stem = "L") : builder.reset.IsFresh where
  stem := h
  placed _ hname := nomatch hname

/-- After one more label has been handed out. -/
theorem Awaits.opens (h : builder.Awaits opened) : Awaits
    { builder with labels := { builder.labels with issued := builder.labels.issued + 1 } }
    (Labels.nameOf (builder.labels.issued + 1) :: opened) := by
  refine ⟨⟨h.fresh.stem, fun name hname => ?_⟩, List.forall_mem_cons.2 ⟨⟨_, Nat.le_refl _, rfl⟩,
    fun name hname => ?_⟩, List.forall_mem_cons.2 ⟨?_, h.missing⟩⟩
  · obtain ⟨number, hle, rfl⟩ := h.fresh.placed name hname
    exact ⟨number, Nat.le_succ_of_le hle, rfl⟩
  · obtain ⟨number, hle, rfl⟩ := h.named name hname
    exact ⟨number, Nat.le_succ_of_le hle, rfl⟩
  · exact h.fresh.not_mem_placed (Nat.lt_succ_self _)

end Builder

/-- The errors that any tree may end in: the intended one, a print whose format text is a node
without a text, and, unless labels handed out are told apart from those placed, a label that is
placed a second time. -/
def LowerError.IsForeseen (tidy textless : Prop) (error : LowerError) : Prop :=
  (∃ reason, error.report = .lowering reason) ∨ (textless ∧ error = .noText) ∨
    (¬tidy ∧ ∃ label, error = .placedTwice label)

/-- An error at a node is the intended one, whether the line of the node is known or not. -/
theorem LowerError.exists_atNode (line : Option Line) (reason : String) :
    ∃ worded, LowerError.atNode line reason = .lowering worded := by
  cases line <;> exact ⟨_, rfl⟩

namespace Lower

variable {Value Other : Type} {tidy textless : Prop} {opened between left : List String}
  {nodes others : List Node} {wanted : Value → Prop} {wantedNext : Other → Prop}
  {run : Lower Value} {builder : Builder}

/-- A piece of lowering answers to nodes: where the `opened` labels are awaited it appends code
that answers to them, and leaves a value as wanted and the `left` labels to be placed; or it fails
as foreseen. -/
def Answers (tidy textless : Prop) (opened left : List String) (nodes : List Node)
    (wanted : Value → Prop) (run : Lower Value) : Prop :=
  ∀ before : Builder, (tidy → before.Awaits opened) →
    EndsOr (LowerError.IsForeseen tidy textless) run before fun value after =>
      (tidy → after.Awaits left) ∧ wanted value ∧
        ∃ code, after.instructions.toList = before.instructions.toList ++ code ∧
          Node.Renders nodes code

namespace Answers

/-- A piece, and another one behind it. -/
theorem bind {next : Value → Lower Other}
    (h : Answers tidy textless opened between nodes wanted run)
    (hnext : ∀ value, wanted value →
      Answers tidy textless between left others wantedNext (next value)) :
    Answers tidy textless opened left (nodes ++ others) wantedNext (run >>= next) := by
  intro before hbefore
  refine (h before hbefore).bind ?_
  rintro value middle ⟨hmiddle, hvalue, code, hcode, hrenders⟩
  refine (hnext value hvalue middle hmiddle).mono ?_
  rintro result after ⟨hafter, hresult, code', hcode', hrenders'⟩
  refine ⟨hafter, hresult, code ++ code', ?_, hrenders.append hrenders'⟩
  rw [hcode', hcode, List.append_assoc]

/-- A piece that answers to no node, and another one behind it. -/
theorem prepare {next : Value → Lower Other}
    (h : Answers tidy textless opened between [] wanted run)
    (hnext : ∀ value, wanted value →
      Answers tidy textless between left nodes wantedNext (next value)) :
    Answers tidy textless opened left nodes wantedNext (run >>= next) := h.bind hnext

/-- A value, where the nodes need no code of their own. -/
theorem pure {value : Value} (hnodes : Node.Renders nodes []) (hvalue : wanted value) :
    Answers tidy textless opened opened nodes wanted (Pure.pure value) :=
  fun _ hbefore => .pure ⟨hbefore, hvalue, [], (List.append_nil _).symm, hnodes⟩

/-- A failure that is intended. -/
theorem throw {error : LowerError} (h : ∃ reason, error.report = .lowering reason) :
    Answers tidy textless opened left nodes wanted (throw error : Lower Value) :=
  fun _ _ => .throw (.inl h)

/-- Less is wanted of the value. -/
theorem imp {wanted' : Value → Prop} (h : Answers tidy textless opened left nodes wanted run)
    (himp : ∀ value, wanted value → wanted' value) :
    Answers tidy textless opened left nodes wanted' run :=
  fun before hbefore => (h before hbefore).mono fun value _ ⟨hafter, hvalue, hcode⟩ =>
    ⟨hafter, himp value hvalue, hcode⟩

/-- An instruction that is no label. -/
theorem emit {instruction : Instruction} (hplain : instruction.label? = none)
    (hnodes : Node.Renders nodes [instruction]) :
    Answers tidy textless opened opened nodes (fun _ => True) (emit instruction) := by
  intro before hbefore
  refine (emit_ends (by rw [hplain]; nofun)).mono ?_
  rintro _ after ⟨hadds, -, hissued⟩
  refine ⟨fun htidy => (hbefore htidy).adds hadds hissued ?_, trivial, _,
    hadds.instructions, hnodes⟩
  rw [Instruction.labels_cons, hplain]
  nofun

/-- One of the labels that are to be placed. -/
theorem place {name : String} (hmem : name ∈ opened) (hsub : left ⊆ opened)
    (hnew : tidy → name ∉ left) :
    Answers tidy textless opened left [] (fun _ => True) (Lower.emit (.label name)) := by
  intro before hbefore
  by_cases hplaced : name ∈ before.labels.placed
  · have htidy : ¬tidy := fun htidy => (hbefore htidy).missing name hmem hplaced
    have hplace : before.labels.place? name = none := if_pos hplaced
    refine .inr ⟨.placedTwice name, before, ?_, .inr (.inr ⟨htidy, name, rfl⟩)⟩
    refine bind_error.2 (.inr ⟨before, before, rfl, ?_⟩)
    rw [hplace]
    rfl
  · have hlabel : ∀ label, (Instruction.label name).label? = some label →
        label ∉ before.labels.placed := by
      rintro _ ⟨⟩
      exact hplaced
    refine (emit_ends hlabel).mono ?_
    rintro _ after ⟨hadds, -, hissued⟩
    refine ⟨fun htidy => ?_, trivial, _, hadds.instructions, .of_plain nofun⟩
    have hname := (hbefore htidy).named name hmem
    refine ((hbefore htidy).mono hsub).adds hadds hissued ?_
    exact List.forall_mem_singleton.2 ⟨hnew htidy, hname⟩

/-- A label that is to be placed later on. -/
theorem freshLabel {next : String → Lower Value} (hnext : ∀ name, (tidy → name ∉ opened) →
      Answers tidy textless (name :: opened) left nodes wanted (next name)) :
    Answers tidy textless opened left nodes wanted (Lower.freshLabel >>= next) := by
  intro before hbefore
  have hrun : Lower.freshLabel before =
      .ok (before.labels.stem ++ toString (before.labels.issued + 1))
      { before with labels := { before.labels with issued := before.labels.issued + 1 } } := rfl
  have hname (htidy : tidy) : before.labels.stem ++ toString (before.labels.issued + 1) =
      Labels.nameOf (before.labels.issued + 1) := by
    rw [(hbefore htidy).fresh.stem]
    rfl
  refine .ok_bind hrun (hnext _ (fun htidy hmem => ?_) _ fun htidy => ?_)
  · obtain ⟨number, hle, heq⟩ := (hbefore htidy).named _ hmem
    have := Labels.nameOf_injective ((hname htidy).symm.trans heq)
    omega
  · rw [hname htidy]
    exact (hbefore htidy).opens

/-- A new temporary. -/
theorem freshTemporary (type : DataType) :
    Answers tidy textless opened opened [] (fun _ => True) (freshTemporary type) := by
  by_cases hstorable : type.isStorable = true
  · intro before hbefore
    rcases @freshTemporary_ends before type hstorable with
      ⟨name, after, hrun, -, hinstructions, hlabels⟩ | ⟨_, _, hrun, rfl⟩
    · have hadds : before.Adds [] after :=
        .of_eq hinstructions (by rw [hlabels]) (by rw [hlabels]) (by rw [hlabels])
      refine .inl ⟨name, after, hrun, fun htidy => ?_, trivial, [], hadds.instructions, .nil⟩
      exact (hbefore htidy).adds hadds (by rw [hlabels]) nofun
    · exact .inr ⟨_, _, hrun, .inl ⟨_, rfl⟩⟩
  · rw [Lower.freshTemporary, if_neg hstorable]
    exact throw ⟨_, rfl⟩

/-- An operator that stores its value in a new temporary. -/
theorem intoTemporary {type : DataType} {instruction : String → Instruction}
    (hplain : ∀ name, (instruction name).label? = none)
    (hnodes : ∀ name, Node.Renders nodes [instruction name]) :
    Answers tidy textless opened opened nodes (fun operand => operand.isSome = true)
      (intoTemporary type instruction) := by
  refine (freshTemporary type).prepare fun name _ => ?_
  rw [← List.append_nil nodes]
  exact (emit (hplain name) (hnodes name)).bind fun _ _ => pure .nil rfl

/-- A value that a statement needs. -/
theorem requireValue {node : Node} {operand : Option String}
    (h : operand.isSome = node.hasValue) : Answers tidy textless opened opened []
      (fun _ => node.hasValue = true) (requireValue node operand) := by
  cases operand with
  | none => exact throw (LowerError.exists_atNode _ _)
  | some operand => exact pure .nil h.symm

/-- The text of a format text, or of a node without one. -/
theorem requireText {node : Node} (h : node.lexeme?.isNone = true → textless) :
    Answers tidy textless opened opened [] (fun _ => node.lexeme?.isNone = false)
      (requireText node) := by
  rw [Lower.requireText]
  cases hlexeme : node.lexeme? with
  | none =>
    rw [hlexeme] at h
    exact fun _ _ => .throw (.inr (.inl ⟨h rfl, rfl⟩))
  | some lexeme => exact pure .nil rfl

/-- An operator that must be listed. -/
theorem requireOperator {operators : List String} {operator : String} {error : LowerError}
    (h : ∃ reason, error.report = .lowering reason) :
    Answers tidy textless opened opened [] (fun _ => True)
      (requireOperator operators operator error) := by
  rw [Lower.requireOperator]
  split
  · exact pure .nil trivial
  · exact throw h

/-- The parameters of a print. -/
theorem params (operands : List String) : Answers tidy textless opened opened [] (fun _ => True)
    (operands.forM fun operand => Lower.emit (.param operand)) := by
  induction operands with
  | nil => exact pure .nil trivial
  | cons operand operands ih =>
    have hparam : Node.Renders [] [.param operand] := .of_plain nofun
    exact (emit rfl hparam).prepare fun _ _ => ih

end Answers

end Lower

/-! ## Lowering answers to the tree -/

namespace Node

open Lower

variable {tidy textless : Prop} {opened : List String} {budget : Nat}

/-- Nodes of any form are lowered within a budget as they should, whatever labels are awaited. -/
def AreAnswered (tidy textless : Prop) (budget : Nat) : Prop :=
  ∀ (node : Node) (opened : List String),
    (∀ part ∈ node.lowered, part.isTextless = true → textless) →
    Answers tidy textless opened opened node.lowered (fun operand => operand.isSome = node.hasValue)
      (node.lower budget)

/-- Statements one after the other. -/
theorem AreAnswered.all (h : AreAnswered tidy textless budget) (nodes : List Node)
    (htexts : ∀ part ∈ loweredAll nodes, part.isTextless = true → textless) :
    Answers tidy textless opened opened (loweredAll nodes) (fun _ => True)
      (lowerAll nodes budget) := by
  induction nodes with
  | nil => exact .pure .nil trivial
  | cons node nodes ih =>
    obtain ⟨hnode, hnodes⟩ := List.forall_mem_append.1 htexts
    exact (h node opened hnode).bind fun _ _ => ih hnodes

/-- The arguments of a print. -/
theorem AreAnswered.arguments (h : AreAnswered tidy textless budget) (nodes : List Node)
    (htexts : ∀ part ∈ loweredAll nodes, part.isTextless = true → textless) :
    Answers tidy textless opened opened (loweredAll nodes)
      (fun _ => ∀ node ∈ nodes, node.hasValue = true) (lowerArguments nodes budget) := by
  induction nodes with
  | nil => exact .pure .nil nofun
  | cons node nodes ih =>
    obtain ⟨hnode, hnodes⟩ := List.forall_mem_append.1 htexts
    refine (h node opened hnode).bind fun operand hoperand => ?_
    refine (Answers.requireValue hoperand).prepare fun _ hvalue => ?_
    rw [← List.append_nil (loweredAll nodes)]
    exact (ih hnodes).bind fun _ hvalues =>
      .pure .nil (List.forall_mem_cons.2 ⟨hvalue, hvalues⟩)

/-- The parts of a conditional. -/
theorem AreAnswered.parts (h : AreAnswered tidy textless budget) (final : String) :
    ∀ parts : List Node, (∀ part ∈ loweredAll parts, part.isTextless = true → textless) →
      Answers tidy textless opened opened (loweredAll parts)
        (fun _ => ∀ condition ∈ (branches parts).map Prod.fst, condition.hasValue = true)
        (lowerBranches final parts budget)
  | [], _ => .pure .nil nofun
  | [body], htexts => by
    have hbody : Answers tidy textless opened opened (loweredAll [body])
        (fun _ => ∀ condition ∈ (branches [body]).map Prod.fst, condition.hasValue = true)
        (do let _ ← body.lower budget; return ()) := by
      refine (h body opened fun part hpart => htexts part ?_).bind fun _ _ => .pure .nil nofun
      exact List.mem_append_left _ hpart
    cases body with
    | absent => exact .pure (.of_node rfl nofun rfl) nofun
    | _ => exact hbody
  | condition :: body :: parts, htexts => by
    obtain ⟨hcondition, hothers⟩ := List.forall_mem_append.1 htexts
    obtain ⟨hbody, hparts⟩ := List.forall_mem_append.1 hothers
    refine (h condition opened hcondition).bind fun operand hoperand => ?_
    refine (Answers.requireValue hoperand).prepare fun operand hvalue => ?_
    refine .freshLabel fun inside hinside => .freshLabel fun next hnext => ?_
    have hbranch : Renders [] [.branch operand inside] := .of_plain nofun
    have hskip : Renders [] [.jump next] := .of_plain nofun
    have hleave : Renders [] [.jump final] := .of_plain nofun
    refine (Answers.emit rfl hbranch).prepare fun _ _ => ?_
    refine (Answers.emit rfl hskip).prepare fun _ _ => ?_
    have hinside' (htidy : tidy) : inside ∉ next :: opened := by
      have hne : inside ≠ next := fun heq => hnext htidy (heq ▸ .head _)
      exact List.not_mem_cons_of_ne_of_not_mem hne (hinside htidy)
    have hnext' (htidy : tidy) : next ∉ opened := fun hmem => hnext htidy (.tail _ hmem)
    refine (Answers.place (.tail _ (.head _)) (by simp) hinside').prepare fun _ _ => ?_
    refine (h body (next :: opened) hbody).bind fun _ _ => ?_
    refine (Answers.emit rfl hleave).prepare fun _ _ => ?_
    refine (Answers.place (.head _) (List.subset_cons_self _ _) hnext').prepare fun _ _ => ?_
    exact (h.parts final parts hparts).imp fun _ hvalues =>
      List.forall_mem_cons.2 ⟨hvalue, hvalues⟩

/-- A tree of any form is lowered as it should. -/
theorem areAnswered (budget : Nat) : AreAnswered tidy textless budget := by
  induction budget with
  | zero =>
    intro node opened _
    have hzero : node.lower 0 = throw .tooDeep := by cases node <;> rfl
    exact hzero ▸ .throw ⟨_, rfl⟩
  | succ budget ih =>
    intro node opened htexts
    cases node with
    | absent => exact .throw ⟨_, rfl⟩
    | bare | format => exact .throw (LowerError.exists_atNode _ _)
    | literal | var => exact .pure (.of_node rfl (List.forall_mem_nil _) rfl) rfl
    | input mark =>
      have hread (name : String) : Renders [] [.call "input" 0 (some name)] := .of_plain (by simp)
      have hnode : Renders [.input mark] [] := .of_node rfl (List.forall_mem_nil _) rfl
      exact .intoTemporary (fun _ => rfl) fun name => (hread name).append hnode
    | program statements mark | block statements mark =>
      refine (ih.all statements fun part hpart => htexts part ?_).bind fun _ _ =>
        .pure (.of_node rfl (List.forall_mem_nil _) rfl) rfl
      exact List.mem_append_left _ hpart
    | assignment target value declares mark =>
      obtain ⟨hvalue, -⟩ := List.forall_mem_append.1 htexts
      refine (ih value opened hvalue).bind fun operand hoperand => ?_
      refine (Answers.requireValue hoperand).prepare fun operand hhas => ?_
      refine (Answers.emit rfl (.of_copy target operand)).prepare fun _ _ => ?_
      exact .pure (.of_node rfl (List.forall_mem_singleton.2 hhas) rfl) rfl
    | output text arguments mark =>
      obtain ⟨harguments, htext⟩ := List.forall_mem_append.1 htexts
      refine (ih.arguments arguments harguments).bind fun operands hvalues => ?_
      refine (Answers.requireText (htext _ (.head _))).prepare fun lexeme hlexeme => ?_
      have hformat : Renders [] [.param lexeme] := .of_plain (by simp)
      have hprint : Renders [] [.call "printf" (operands.length + 1) none] := .of_plain (by simp)
      refine (Answers.emit rfl hformat).prepare fun _ _ => ?_
      refine (Answers.params operands).prepare fun _ _ => ?_
      refine (Answers.emit rfl hprint).prepare fun _ _ => ?_
      exact .pure (.of_node rfl hvalues hlexeme) rfl
    | conditional parts mark =>
      obtain ⟨hparts, -⟩ := List.forall_mem_append.1 htexts
      rw [lower]
      split
      · exact .throw (LowerError.exists_atNode _ _)
      · refine .freshLabel fun final hfinal => ?_
        refine (ih.parts final parts hparts).bind fun _ hvalues => ?_
        refine (Answers.place (.head _) (List.subset_cons_self _ _) hfinal).prepare fun _ _ => ?_
        exact .pure (.of_node rfl hvalues rfl) rfl
    | loop condition body mark =>
      obtain ⟨hcondition, hothers⟩ := List.forall_mem_append.1 htexts
      obtain ⟨hbody, -⟩ := List.forall_mem_append.1 hothers
      refine .freshLabel fun top htop => .freshLabel fun inside hinside =>
        .freshLabel fun exit hexit => ?_
      have htop' (htidy : tidy) : top ∉ exit :: inside :: opened := by
        have := htop htidy
        have := hinside htidy
        have := hexit htidy
        grind
      have hinside' (htidy : tidy) : inside ∉ exit :: opened := by
        have := hinside htidy
        have := hexit htidy
        grind
      have hexit' (htidy : tidy) : exit ∉ opened := by
        have := hexit htidy
        grind
      refine (Answers.place (by simp) (by grind) htop').prepare fun _ _ => ?_
      refine (ih condition _ hcondition).bind fun operand hoperand => ?_
      refine (Answers.requireValue hoperand).prepare fun operand hvalue => ?_
      have hbranch : Renders [] [.branch operand inside] := .of_plain (by simp)
      have hleave : Renders [] [.jump exit] := .of_plain (by simp)
      have hagain : Renders [] [.jump top] := .of_plain (by simp)
      refine (Answers.emit rfl hbranch).prepare fun _ _ => ?_
      refine (Answers.emit rfl hleave).prepare fun _ _ => ?_
      refine (Answers.place (by simp) (by simp) hinside').prepare fun _ _ => ?_
      refine (ih body _ hbody).bind fun _ _ => ?_
      refine (Answers.emit rfl hagain).prepare fun _ _ => ?_
      refine (Answers.place (.head _) (List.subset_cons_self _ _) hexit').prepare fun _ _ => ?_
      exact .pure (.of_node rfl (List.forall_mem_singleton.2 hvalue) rfl) rfl
    | binary operator left right mark =>
      obtain ⟨hleft, hothers⟩ := List.forall_mem_append.1 htexts
      obtain ⟨hright, -⟩ := List.forall_mem_append.1 hothers
      have hunknown : ∃ reason, (LowerError.binaryOperator operator mark.line).report =
          .lowering reason := LowerError.exists_atNode _ _
      refine (Answers.requireOperator hunknown).prepare fun _ _ => ?_
      refine (ih left opened hleft).bind fun first hfirst => ?_
      refine (ih right opened hright).bind fun second hsecond => ?_
      exact .intoTemporary (fun _ => rfl) fun _ => .of_operator (.binary hfirst hsecond)
    | unary operator operand mark =>
      obtain ⟨hoperand, -⟩ := List.forall_mem_append.1 htexts
      have hunknown : ∃ reason, (LowerError.unaryOperator operator mark.line).report =
          .lowering reason := LowerError.exists_atNode _ _
      refine (Answers.requireOperator hunknown).prepare fun _ _ => ?_
      refine (ih operand opened hoperand).bind fun first hfirst => ?_
      exact .intoTemporary (fun _ => rfl) fun _ => .of_operator (.unary hfirst)

/-! ## Whole trees -/

/-- Whether the format text of some print in a tree is a node without a text. -/
def HasTextless (root : Node) : Prop := ∃ part ∈ root.lowered, part.isTextless = true

/-- Code answers to a tree, and it fills the operators of the tree iff all their operands have
values. -/
def IsRenderedAs (root : Node) (code : List Instruction) : Prop :=
  Renders root.lowered code ∧ (Fills root.lowered code ↔
    ∀ node ∈ root.lowered, ∀ operand ∈ node.operands, operand.hasValue = true)

variable {root : Node} {builder : Builder}

/-- What the lowering of a tree of any form comes to. -/
theorem lower_answers (root : Node) (budget : Nat) (htidy : tidy → builder.IsFresh) :
    EndsOr (LowerError.IsForeseen tidy root.HasTextless) (root.lower budget) builder
      fun value after => value.isSome = root.hasValue ∧ ∃ code,
        after.instructions.toList = builder.instructions.toList ++ code ∧
          root.IsRenderedAs code := by
  have htexts : ∀ part ∈ root.lowered, part.isTextless = true → root.HasTextless :=
    fun part hpart htext => ⟨part, hpart, htext⟩
  refine (areAnswered budget root [] htexts builder fun h => ⟨htidy h, nofun, nofun⟩).mono ?_
  rintro value after ⟨-, hvalue, code, hcode, hrenders⟩
  exact ⟨hvalue, code, hcode, hrenders, hrenders.fills_iff⟩

/-- Lowering a tree of any form, as part of a run or as a whole program, leaves code that answers to
it: an operator whose operands have values becomes a binary or a unary form with all its operands,
and one that lacks a value becomes an instruction that lacks an operand. Where a condition, an
argument or a value to store is missing there is no code. A failure is an intended one, apart from
prints whose format texts have no text and from labels that were placed by hand. -/
theorem lower_renders (root : Node) (budget : Nat) (builder : Builder) :
    EndsOr (LowerError.IsForeseen builder.IsFresh root.HasTextless) (root.lower budget) builder
        (fun value after => value.isSome = root.hasValue ∧ ∃ code,
          after.instructions.toList = builder.instructions.toList ++ code ∧
            root.IsRenderedAs code) ∧
      ∀ table : Option Table,
        EndsOr (LowerError.IsForeseen (builder.labels.stem = "L") root.HasTextless)
          (root.lowerProgram budget table) builder fun lines after =>
            lines = after.lines ∧ root.IsRenderedAs after.instructions.toList := by
  refine ⟨lower_answers root budget id, fun table => ?_⟩
  cases root with
  | program statements mark =>
    have hreset : (modify fun builder => { builder with table := table.getD builder.table }.reset :
        Lower Unit) builder = .ok () { builder with table := table.getD builder.table }.reset := rfl
    refine .ok_bind hreset ?_
    refine (lower_answers _ budget fun hstem => Builder.isFresh_reset hstem).bind ?_
    rintro _ after ⟨-, code, hcode, hrendered⟩
    refine .get ?_
    dsimp only
    split
    · exact .pure ⟨rfl, hcode ▸ hrendered⟩
    · exact .throw (.inl ⟨_, rfl⟩)
  | _ => exact .throw (.inl ⟨_, rfl⟩)

/-- A subtraction whose second operand is a body becomes a unary form, and no instruction has two
operands. -/
theorem lowerProgram_hole : ∃ after,
    (program [.assignment "x" (.binary "-" (.literal "5" ⟨none, .int⟩) (.block [] ⟨none, .void⟩)
      ⟨none, .int⟩) true ⟨none, .void⟩] ⟨none, .void⟩).lowerProgram standardBudget none {} =
        .ok ["t1 = - 5", "x = t1"] after ∧
      after.instructions = #[.assign "t1" (some "5") (some "-") none,
        .assign "x" (some "t1") none none] ∧ after.instructions.any (·.isBinary) = false :=
  ⟨_, rfl, by decide +kernel, by decide +kernel⟩

end Node

end ThreeAddress
