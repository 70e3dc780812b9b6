import ThreeAddress.Proofs.Check.Literals
import ThreeAddress.Proofs.Code.Operands

/-!
# The literals in code

Lowering copies literals and format texts into the code and changes none of them. The operands of
the code that are no variables are the literals of the checked tree in some order, each as often as
it is written there (`Node.Lowers.keeps`). The format texts keep their order: the first
parameters of the calls are those of the prints in the tree (`Node.Lowers.formats`).
-/

namespace ThreeAddress

/-- The literals of a type that can be stored have a kind, and it is not that of format texts. -/
theorem DataType.exists_literalKind? {type : DataType} (h : type.isStorable = true) :
    ∃ kind, type.literalKind? = some kind ∧ kind ≠ .stringLit := by
  cases type <;> first | exact ⟨_, rfl, nofun⟩ | cases h

namespace Instruction

/-! ## Constants -/

/-- Those among operands that are no variables. -/
def constants (operands : List String) : List String :=
  operands.filter fun operand => !isVariable operand

/-- The constants among operands and more operands. -/
@[simp] theorem constants_append (operands others : List String) :
    constants (operands ++ others) = constants operands ++ constants others :=
  List.filter_append ..

/-- A variable is no constant. -/
theorem constants_variable {operand : String} (h : isVariable operand = true) :
    constants [operand] = [] := by
  simp [constants, h]

/-- A literal is one. -/
theorem constants_literal {operand : String} (h : isVariable operand = false) :
    constants [operand] = [operand] := by
  simp [constants, h]

/-- The constants in code and among the operands that it hands on are the given texts, in some
order. -/
def Keeps (code : List Instruction) (handed texts : List String) : Prop :=
  (constants (operands code ++ handed)).Perm texts

namespace Keeps

variable {code others : List Instruction} {handed handed' texts texts' : List String}

/-- Code that reads nothing. -/
theorem of_plain (h : operands code = []) : Keeps code [] [] := by
  rw [Keeps, h]
  exact .nil

/-- No code, and operands that are handed on. -/
theorem nil (h : constants handed = texts) : Keeps [] handed texts := h ▸ .refl _

/-- Code and more code. -/
theorem append (h : Keeps code handed texts) (h' : Keeps others handed' texts') :
    Keeps (code ++ others) (handed ++ handed') (texts ++ texts') := by
  refine List.perm_iff_count.2 fun text => ?_
  have hcount := h.count_eq text
  have hcount' := h'.count_eq text
  simp only [operands_append, constants_append, List.count_append] at hcount hcount' ⊢
  omega

/-- Code that reads what has been handed on, and hands on a variable at most. -/
theorem consume (h : Keeps code handed texts)
    (hreads : constants (operands others) = constants handed) (hhanded : constants handed' = []) :
    Keeps (code ++ others) handed' texts := by
  rw [Keeps, operands_append, constants_append, constants_append, hreads, hhanded, List.append_nil,
    ← constants_append]
  exact h

/-- A body under a condition. -/
theorem guarded {operand : String} (h : Keeps code [operand] texts) (hbody : Keeps others [] texts')
    (inside exit goal : String) :
    Keeps (code ++ (.branch operand inside :: .jump exit :: .label inside ::
      (others ++ [.jump goal, .label exit]))) [] (texts ++ texts') := by
  have hopening : Keeps (code ++ [.branch operand inside, .jump exit, .label inside]) [] texts :=
    h.consume rfl rfl
  have hclosing : Keeps [.jump goal, .label exit] [] [] := of_plain rfl
  simpa using hopening.append (hbody.append hclosing)

end Keeps

/-! ## Formats -/

/-- The first parameters of the calls in code. A parameter behind another one is not the first. -/
def formats : (behind : Bool) → List Instruction → List String
  | _, [] => []
  | false, .param operand :: code => operand :: formats true code
  | true, .param _ :: code => formats true code
  | _, _ :: code => formats false code

/-- An instruction that is no parameter. -/
theorem formats_cons {instruction : Instruction} (h : ∀ operand, instruction ≠ .param operand)
    (behind : Bool) (code : List Instruction) :
    formats behind (instruction :: code) = formats false code := by
  cases instruction with
  | param operand => exact absurd rfl (h operand)
  | _ => cases behind <;> rfl

/-- Code without parameters. -/
theorem formats_append {code : List Instruction} (h : ∀ operand, .param operand ∉ code)
    (others : List Instruction) : formats false (code ++ others) = formats false others := by
  induction code with
  | nil => rfl
  | cons instruction code ih =>
    have hfirst : ∀ operand, instruction ≠ .param operand := fun operand heq =>
      h operand (heq ▸ .head _)
    rw [List.cons_append, formats_cons hfirst]
    exact ih fun operand hmem => h operand (.tail _ hmem)

/-- Parameters behind a parameter. -/
theorem formats_params (operands : List String) (code : List Instruction) :
    formats true (operands.map .param ++ code) = formats true code := by
  induction operands with
  | nil => rfl
  | cons operand operands ih => exact ih

end Instruction

namespace Node

open Instruction

variable {users table after : Table} {node : Node} {nodes : List Node} {code : List Instruction}
  {operand : String} {operands : List String}

/-- The texts of the literals and formats in trees. -/
def literalTexts (nodes : List Node) : List String := (nodes.flatMap literals).map Prod.snd

/-- The texts of the formats in trees. -/
def formatTexts (nodes : List Node) : List String :=
  ((nodes.flatMap literals).filter fun piece => piece.1 = .stringLit).map Prod.snd

/-- The literals of a tree and more trees. -/
theorem literalTexts_cons (node : Node) (nodes : List Node) :
    literalTexts (node :: nodes) = literalTexts [node] ++ literalTexts nodes := by
  simp [literalTexts]

/-- The formats of a tree and more trees. -/
theorem formatTexts_cons (node : Node) (nodes : List Node) :
    formatTexts (node :: nodes) = formatTexts [node] ++ formatTexts nodes := by
  simp [formatTexts]

section
variable {target : String} {declares : Bool} {mark : Mark}

theorem formatTexts_assignment :
    formatTexts [.assignment target node declares mark] = formatTexts [node] := by
  simp [formatTexts]

theorem formatTexts_output :
    formatTexts [.output node nodes mark] = formatTexts [node] ++ formatTexts nodes := by
  simp [formatTexts]

theorem formatTexts_conditional :
    formatTexts [.conditional nodes mark] = formatTexts nodes := by
  simp [formatTexts]

theorem formatTexts_loop {body : Node} :
    formatTexts [.loop node body mark] = formatTexts [node, body] := by
  simp [formatTexts]

theorem formatTexts_block : formatTexts [.block nodes mark] = formatTexts nodes := by
  simp [formatTexts]

end

/-! ## Literals -/

/-- The code of an expression keeps its literals. -/
theorem Computes.keeps (h : node.Computes table code operand after) (hsound : node.IsSound users) :
    Keeps code [operand] (literalTexts [node]) := by
  have hname (number : Nat) : constants [Temporaries.nameOf number] = [] :=
    constants_variable (Temporaries.isVariable_nameOf number)
  induction h with
  | literal =>
    obtain ⟨hstorable, hliteral, -⟩ := (isSound_iff.1 hsound).1
    obtain ⟨kind, hkind, -⟩ := DataType.exists_literalKind? hstorable
    refine .nil ((constants_literal hliteral).trans ?_)
    simp [literalTexts, literals_eq, literal?, children, hkind]
  | var => exact .nil (constants_variable (isSound_iff.1 hsound).1.2)
  | input =>
    have hnone : Keeps [] [] [] := .nil rfl
    exact hnone.consume rfl (hname _)
  | unary _ _ ih =>
    have hinner := ih ((isSound_iff.1 hsound).2 _ (.head _))
    rw [literalTexts, List.flatMap_singleton, literals_unary]
    simpa [literalTexts] using hinner.consume rfl (hname _)
  | binary _ _ _ ihLeft ihRight =>
    obtain ⟨-, hchildren⟩ := isSound_iff.1 hsound
    have hboth := (ihLeft (hchildren _ (.head _))).append
      (ihRight (hchildren _ (.tail _ (.head _))))
    rw [← List.append_assoc]
    simpa [literalTexts] using hboth.consume rfl (hname _)

/-- The code of arguments keeps their literals. -/
theorem ComputesAll.keeps (h : ComputesAll table nodes code operands after)
    (hsound : ∀ node ∈ nodes, node.IsSound users) : Keeps code operands (literalTexts nodes) := by
  induction h with
  | nil => exact .nil rfl
  | cons hnode _ ih =>
    obtain ⟨hsoundNode, hsoundNodes⟩ := List.forall_mem_cons.1 hsound
    rw [literalTexts_cons]
    exact (hnode.keeps hsoundNode).append (ih hsoundNodes)

/-- The code of statements and of the parts of a conditional keeps the literals and formats in
them. -/
theorem Lowers.keeps {supply after : Supply} {shape : Shape}
    (h : Lowers supply shape nodes code after) (hsound : ∀ node ∈ nodes, node.IsSound users) :
    Keeps code [] (literalTexts nodes) := by
  have hlabel (name : String) : Keeps [.label name] [] [] := .of_plain rfl
  induction h with
  | nil | noElse => exact .nil rfl
  | @assignment _ _ _ target _ _ _ _ _ _ _ hvalue _ ih =>
    obtain ⟨hassignment, hothers⟩ := List.forall_mem_cons.1 hsound
    have hcode := hvalue.keeps ((isSound_iff.1 hassignment).2 _ (.head _))
    have hstored : Keeps (_ ++ [.assign target (some _) none none]) [] _ := hcode.consume rfl rfl
    simpa [literalTexts] using hstored.append (ih hothers)
  | @output _ _ _ format _ _ _ _ _ _ operands harguments _ ih =>
    obtain ⟨houtput, hothers⟩ := List.forall_mem_cons.1 hsound
    obtain ⟨hformat, harguments'⟩ := List.forall_mem_cons.1 (isSound_iff.1 houtput).2
    have hconstant : constants [format] = [format] := by
      refine constants_literal ?_
      rw [isVariable, (isSound_iff.1 hformat).1.2]
      rfl
    have hall := (Keeps.nil hconstant).append (harguments.keeps harguments')
    have hprinted : Keeps (_ ++ ((format :: operands).map .param ++
        [.call "printf" (operands.length + 1) none])) [] _ :=
      hall.consume (by simp [reads]) rfl
    simpa [literalTexts] using hprinted.append (ih hothers)
  | conditional _ _ ihParts ihNodes =>
    obtain ⟨hconditional, hothers⟩ := List.forall_mem_cons.1 hsound
    have hcode := ihParts (isSound_iff.1 hconditional).2
    simpa [literalTexts] using hcode.append ((hlabel _).append (ihNodes hothers))
  | loop hcondition _ _ ihBody ihNodes =>
    obtain ⟨hloop, hothers⟩ := List.forall_mem_cons.1 hsound
    obtain ⟨hsoundCondition, hblock⟩ := List.forall_mem_cons.1 (isSound_iff.1 hloop).2
    have hitems := ihBody (isSound_iff.1 (List.forall_mem_singleton.1 hblock)).2
    have hguarded := (hcondition.keeps hsoundCondition).guarded hitems
    simpa [literalTexts] using (hlabel _).append ((hguarded _ _ _).append (ihNodes hothers))
  | otherwise _ ih =>
    have hitems := ih (isSound_iff.1 (List.forall_mem_singleton.1 hsound)).2
    simpa [literalTexts] using hitems
  | branch hcondition _ _ ihBody ihParts =>
    obtain ⟨hsoundCondition, hothers⟩ := List.forall_mem_cons.1 hsound
    obtain ⟨hblock, hsoundParts⟩ := List.forall_mem_cons.1 hothers
    have hguarded := (hcondition.keeps hsoundCondition).guarded (ihBody (isSound_iff.1 hblock).2)
    simpa [literalTexts] using (hguarded _ _ _).append (ihParts hsoundParts)

/-! ## Formats -/

/-- The code of an expression has no parameters. -/
theorem Computes.param_not_mem (h : node.Computes table code operand after) (text : String) :
    .param text ∉ code := by
  induction h with
  | literal | var => nofun
  | input => simp
  | unary _ _ ih => simpa using ih
  | binary _ _ _ ihLeft ihRight => simpa using ⟨ihLeft, ihRight⟩

/-- The code of arguments has no parameters. -/
theorem ComputesAll.param_not_mem (h : ComputesAll table nodes code operands after)
    (text : String) : .param text ∉ code := by
  induction h with
  | nil => nofun
  | cons hnode _ ih => simpa using ⟨hnode.param_not_mem text, ih⟩

/-- An expression has no formats. -/
theorem Computes.formatTexts (h : node.Computes table code operand after)
    (hsound : node.IsSound users) : formatTexts [node] = [] := by
  induction h with
  | literal =>
    obtain ⟨hstorable, -⟩ := (isSound_iff.1 hsound).1
    obtain ⟨kind, hkind, hne⟩ := DataType.exists_literalKind? hstorable
    simp [Node.formatTexts, literals_eq, literal?, children, hkind, hne]
  | var | input => rfl
  | unary _ _ ih =>
    have hinner := ih ((isSound_iff.1 hsound).2 _ (.head _))
    rwa [Node.formatTexts, List.flatMap_singleton, literals_unary,
      ← List.flatMap_singleton literals]
  | binary _ _ _ ihLeft ihRight =>
    obtain ⟨-, hchildren⟩ := isSound_iff.1 hsound
    have hboth := congrArg₂ (· ++ ·) (ihLeft (hchildren _ (.head _)))
      (ihRight (hchildren _ (.tail _ (.head _))))
    simpa [Node.formatTexts] using hboth

/-- Arguments have no formats. -/
theorem ComputesAll.formatTexts (h : ComputesAll table nodes code operands after)
    (hsound : ∀ node ∈ nodes, node.IsSound users) : formatTexts nodes = [] := by
  induction h with
  | nil => rfl
  | cons hnode _ ih =>
    obtain ⟨hsoundNode, hsoundNodes⟩ := List.forall_mem_cons.1 hsound
    rw [formatTexts_cons, hnode.formatTexts hsoundNode, ih hsoundNodes, List.append_nil]

/-- The prints in the code of statements and of the parts of a conditional have the formats in them,
in their order. -/
theorem Lowers.formats {supply after : Supply} {shape : Shape}
    (h : Lowers supply shape nodes code after) (hsound : ∀ node ∈ nodes, node.IsSound users)
    (others : List Instruction) :
    formats false (code ++ others) = formatTexts nodes ++ formats false others := by
  have hplain {node : Node} {table after : Table} {code : List Instruction} {operand : String}
      (h : node.Computes table code operand after) (others : List Instruction) :
      Instruction.formats false (code ++ others) = Instruction.formats false others :=
    formats_append h.param_not_mem others
  induction h generalizing others with
  | nil | noElse => rfl
  | assignment hvalue _ ih =>
    obtain ⟨hassignment, hothers⟩ := List.forall_mem_cons.1 hsound
    have hnone := hvalue.formatTexts ((isSound_iff.1 hassignment).2 _ (.head _))
    rw [formatTexts_cons, formatTexts_assignment, hnone]
    simp [hplain hvalue, formats_cons, ih hothers]
  | @output _ _ _ format formatMark _ _ _ _ _ operands harguments _ ih =>
    obtain ⟨houtput, hothers⟩ := List.forall_mem_cons.1 hsound
    obtain ⟨-, hsoundArguments⟩ := List.forall_mem_cons.1 (isSound_iff.1 houtput).2
    rw [formatTexts_cons, formatTexts_output, harguments.formatTexts hsoundArguments,
      List.append_assoc, formats_append harguments.param_not_mem]
    simp [Instruction.formats, formats_params, ih hothers, Node.formatTexts]
  | conditional _ _ ihParts ihNodes =>
    obtain ⟨hconditional, hothers⟩ := List.forall_mem_cons.1 hsound
    rw [formatTexts_cons, formatTexts_conditional]
    simp [ihParts (isSound_iff.1 hconditional).2, formats_cons, ihNodes hothers]
  | loop hcondition _ _ ihBody ihNodes =>
    obtain ⟨hloop, hothers⟩ := List.forall_mem_cons.1 hsound
    obtain ⟨hsoundCondition, hblock⟩ := List.forall_mem_cons.1 (isSound_iff.1 hloop).2
    have hitems := ihBody (isSound_iff.1 (List.forall_mem_singleton.1 hblock)).2
    have hnone := hcondition.formatTexts hsoundCondition
    rw [formatTexts_cons, formatTexts_loop, formatTexts_cons, hnone, formatTexts_block]
    simp [formats_cons, hplain hcondition, hitems, ihNodes hothers]
  | otherwise _ ih =>
    rw [formatTexts_block]
    exact ih (isSound_iff.1 (List.forall_mem_singleton.1 hsound)).2 others
  | branch hcondition _ _ ihBody ihParts =>
    obtain ⟨hsoundCondition, hothers⟩ := List.forall_mem_cons.1 hsound
    obtain ⟨hblock, hsoundParts⟩ := List.forall_mem_cons.1 hothers
    have hnone := hcondition.formatTexts hsoundCondition
    rw [formatTexts_cons, hnone, formatTexts_cons, formatTexts_block]
    simp [hplain hcondition, formats_cons, ihBody (isSound_iff.1 hblock).2, ihParts hsoundParts]

end Node

end ThreeAddress
