import ThreeAddress.Proofs.Code.Judgement

/-!
# Where the texts in code come from

The checker and lowering invent no text but the names of temporaries, labels and calls: every other
text in the code is that of a node, and every text of a node that of a token. So what holds of the
texts of tokens and of those names holds of all texts in the code (`Tree.Checks.madeOf`,
`Node.Lowers.madeOf`).
-/

namespace ThreeAddress

/-! ## Texts of nodes -/

namespace Node

/-- The texts that a node carries. -/
def texts : Node → List String
  | assignment target _ _ _ => [target]
  | binary operator _ _ _ | unary operator _ _ => [operator]
  | literal lexeme _ | format lexeme _ => [lexeme]
  | var name _ => [name]
  | absent | bare _ | program .. | block .. | output .. | conditional .. | loop .. | input _ => []

/-- What holds of all texts in a tree. -/
def MadeOf (holds : String → Prop) (node : Node) : Prop :=
  ∀ part ∈ node.preorder, ∀ text ∈ part.texts, holds text

variable {holds : String → Prop} {node : Node}

/-- What holds of all texts in a tree holds of those at the root and below it. -/
theorem madeOf_iff : node.MadeOf holds ↔
    (∀ text ∈ node.texts, holds text) ∧ ∀ child ∈ node.children, child.MadeOf holds :=
  forall_mem_preorder

/-- A node without texts and without children. -/
theorem madeOf_input (mark : Mark) : (input mark).MadeOf holds := madeOf_iff.2 ⟨nofun, nofun⟩

/-- A body has the texts of its statements. -/
theorem madeOf_block {items : List Node} {mark : Mark} (h : ∀ item ∈ items, item.MadeOf holds) :
    (block items mark).MadeOf holds := madeOf_iff.2 ⟨nofun, h⟩

end Node

/-! ## Texts of tokens -/

namespace Tree

open Node

variable {holds : String → Prop} {table after : Table} {tree : Tree} {node : Node}

/-- What holds of the texts of all tokens of a tree. -/
def SpeltOf (holds : String → Prop) (tree : Tree) : Prop := ∀ piece ∈ tree.spelling, holds piece.2

/-- What holds of all tokens holds of those of a tree that has no others. -/
theorem SpeltOf.mono {part : Tree} (h : tree.SpeltOf holds)
    (hpart : part.spelling.Sublist tree.spelling) : part.SpeltOf holds :=
  fun piece hpiece => h piece (hpart.subset hpiece)

/-- What holds of all tokens holds of those of a part. -/
theorem SpeltOf.part {part : Tree} (h : tree.SpeltOf holds) (hpart : part ∈ tree.parts) :
    part.SpeltOf holds := h.mono (spelling_sublist part hpart)

/-- The texts in the node of an expression are those of its tokens. -/
theorem Infers.madeOf (h : tree.Infers table node) (hspelt : tree.SpeltOf holds) :
    node.MadeOf holds := by
  induction h with
  | var | literal =>
    exact madeOf_iff.2 ⟨List.forall_mem_singleton.2 (hspelt _ (.head _)), nofun⟩
  | input => exact madeOf_input _
  | group _ ih | single _ ih => exact ih (hspelt.part (.head _))
  | minus _ _ ih | negation _ _ ih =>
    refine madeOf_iff.2 ⟨List.forall_mem_singleton.2 (hspelt _ (.head _)), ?_⟩
    exact List.forall_mem_singleton.2 (ih (hspelt.part (.head _)))
  | comparison _ _ _ _ _ ihLeft ihRight =>
    have hleft := ihLeft (hspelt.part (.head _))
    have hoperation := hspelt.part (.tail _ (.head _))
    have hright := ihRight (hoperation.part (.head _))
    refine madeOf_iff.2 ⟨List.forall_mem_singleton.2 (hoperation _ (.head _)), ?_⟩
    exact List.forall_mem_cons.2 ⟨hleft, List.forall_mem_singleton.2 hright⟩
  | joined _ _ _ _ _ ihLeft ihRight =>
    have hleft := ihLeft (hspelt.mono (chain_sublist ..))
    have hoperation := hspelt.part (.tail _ (List.mem_append_right _ (.head _)))
    have hright := ihRight (hoperation.part (.head _))
    refine madeOf_iff.2 ⟨List.forall_mem_singleton.2 (hoperation _ (.head _)), ?_⟩
    exact List.forall_mem_cons.2 ⟨hleft, List.forall_mem_singleton.2 hright⟩

/-- The texts in the nodes that a tree leaves are those of its tokens. -/
theorem Checks.madeOf {nodes : List Node} (h : tree.Checks table nodes after)
    (hspelt : tree.SpeltOf holds) : ∀ node ∈ nodes, node.MadeOf holds := by
  induction h with
  | @assignment _ _ name _ _ _ _ _ _ hvalue | @letFixed _ _ name _ _ _ hvalue
  | @letMutable _ _ name _ _ _ hvalue =>
    have hname : holds name := hspelt (.ident, name) (by simp [spelling])
    have hnode := hvalue.madeOf (hspelt.part (.head _))
    refine List.forall_mem_singleton.2 (madeOf_iff.2 ⟨List.forall_mem_singleton.2 hname, ?_⟩)
    exact List.forall_mem_singleton.2 hnode
  | letUnset | noElse | nil => nofun
  | ifElse hcondition _ _ _ _ ihBody ihTail =>
    have htest := hcondition.madeOf (hspelt.part (.head _))
    have hitems := ihBody (hspelt.part (.tail _ (.head _)))
    have hparts := ihTail (hspelt.part (.tail _ (.tail _ (.head _))))
    refine List.forall_mem_singleton.2 (madeOf_iff.2 ⟨nofun, ?_⟩)
    exact List.forall_mem_cons.2 ⟨htest, List.forall_mem_cons.2 ⟨madeOf_block hitems, hparts⟩⟩
  | elseIf hcondition _ _ _ _ ihBody ihTail =>
    have htest := hcondition.madeOf (hspelt.part (.head _))
    have hitems := ihBody (hspelt.part (.tail _ (.head _)))
    have hparts := ihTail (hspelt.part (.tail _ (.tail _ (.head _))))
    exact List.forall_mem_cons.2 ⟨htest, List.forall_mem_cons.2 ⟨madeOf_block hitems, hparts⟩⟩
  | otherwise _ ih =>
    exact List.forall_mem_singleton.2 (madeOf_block (ih (hspelt.part (.head _))))
  | loop hcondition _ _ ih =>
    have htest := hcondition.madeOf (hspelt.part (.head _))
    have hitems := ih (hspelt.part (.tail _ (.head _)))
    refine List.forall_mem_singleton.2 (madeOf_iff.2 ⟨nofun, ?_⟩)
    exact List.forall_mem_cons.2 ⟨htest, List.forall_mem_singleton.2 (madeOf_block hitems)⟩
  | @output table format arguments nodes line harguments =>
    have hnodes := Infers.forall_nodes harguments fun _ hmem _ hnode =>
      hnode.madeOf (hspelt.part hmem)
    have hformat : (Node.format format ⟨line, .string⟩).MadeOf holds :=
      madeOf_iff.2 ⟨List.forall_mem_singleton.2 (hspelt (.stringLit, format) (by simp [spelling])),
        nofun⟩
    exact List.forall_mem_singleton.2
      (madeOf_iff.2 ⟨nofun, List.forall_mem_cons.2 ⟨hformat, hnodes⟩⟩)
  | cons _ _ _ ihFirst ihOthers =>
    have hfirst := ihFirst (hspelt.part (.head _))
    have hothers := ihOthers (hspelt.mono (block_sublist ..))
    exact List.forall_mem_append.2 ⟨hfirst, hothers⟩

end Tree

/-! ## Texts of instructions -/

namespace Instruction

/-- The texts that an instruction is put together from. -/
def texts : Instruction → List String
  | .assign target first operator second =>
    target :: (first.toList ++ operator.toList ++ second.toList)
  | .jump goal => [goal]
  | .branch condition goal => [condition, goal]
  | .label name => [name]
  | .param operand => [operand]
  | .call function _ target => function :: target.toList

/-- What holds of all texts in code. -/
def MadeOf (holds : String → Prop) (code : List Instruction) : Prop :=
  ∀ instruction ∈ code, ∀ text ∈ instruction.texts, holds text

/-- What holds of the names of all temporaries, labels and functions. -/
structure HoldsOfNames (holds : String → Prop) : Prop where
  temporary : ∀ number, holds (Temporaries.nameOf number)
  label : ∀ number, holds (Labels.nameOf number)
  print : holds "printf"
  read : holds "input"

variable {holds : String → Prop} {code others : List Instruction} {instruction : Instruction}

@[simp] theorem madeOf_nil : MadeOf holds [] := nofun

/-- What holds of the texts in an instruction and in more code. -/
@[simp] theorem madeOf_cons : MadeOf holds (instruction :: code) ↔
    (∀ text ∈ instruction.texts, holds text) ∧ MadeOf holds code := List.forall_mem_cons

/-- What holds of the texts in code and more code. -/
@[simp] theorem madeOf_append : MadeOf holds (code ++ others) ↔
    MadeOf holds code ∧ MadeOf holds others := List.forall_mem_append

end Instruction

namespace Node

open Instruction

variable {holds : String → Prop} {table after : Table} {node : Node} {code : List Instruction}

/-- The texts in the code of an expression, and its operand. -/
theorem Computes.madeOf {operand : String} (h : node.Computes table code operand after)
    (hnames : HoldsOfNames holds) (hnode : node.MadeOf holds) :
    Instruction.MadeOf holds code ∧ holds operand := by
  induction h with
  | literal | var => exact ⟨madeOf_nil, (madeOf_iff.1 hnode).1 _ (.head _)⟩
  | input => simp [Instruction.texts, hnames.temporary, hnames.read]
  | unary _ _ ih =>
    obtain ⟨htexts, hchildren⟩ := madeOf_iff.1 hnode
    obtain ⟨hcode, hvalue⟩ := ih (hchildren _ (.head _))
    have hoperator := htexts _ (.head _)
    simp [Instruction.texts, hnames.temporary, hcode, hvalue, hoperator]
  | binary _ _ _ ihLeft ihRight =>
    obtain ⟨htexts, hchildren⟩ := madeOf_iff.1 hnode
    obtain ⟨hleft, hfirst⟩ := ihLeft (hchildren _ (.head _))
    obtain ⟨hright, hsecond⟩ := ihRight (hchildren _ (.tail _ (.head _)))
    have hoperator := htexts _ (.head _)
    simp [Instruction.texts, hnames.temporary, hleft, hright, hfirst, hsecond, hoperator]

/-- The texts in the code of arguments, and their operands. -/
theorem ComputesAll.madeOf {nodes : List Node} {operands : List String}
    (h : ComputesAll table nodes code operands after) (hnames : HoldsOfNames holds)
    (hnodes : ∀ node ∈ nodes, node.MadeOf holds) :
    Instruction.MadeOf holds code ∧ ∀ operand ∈ operands, holds operand := by
  induction h with
  | nil => exact ⟨madeOf_nil, nofun⟩
  | cons hnode _ ih =>
    obtain ⟨hfirst, hothers⟩ := List.forall_mem_cons.1 hnodes
    obtain ⟨hcode, hoperand⟩ := hnode.madeOf hnames hfirst
    obtain ⟨hrest, hoperands⟩ := ih hothers
    exact ⟨madeOf_append.2 ⟨hcode, hrest⟩, List.forall_mem_cons.2 ⟨hoperand, hoperands⟩⟩

/-- The texts in the code of statements and of the parts of a conditional. -/
theorem Lowers.madeOf {supply after : Supply} {shape : Shape} {nodes : List Node}
    (h : Lowers supply shape nodes code after) (hnames : HoldsOfNames holds)
    (hshape : ∀ final, shape = .parts final → holds final)
    (hnodes : ∀ node ∈ nodes, node.MadeOf holds) : Instruction.MadeOf holds code := by
  induction h with
  | nil | noElse => exact madeOf_nil
  | assignment hvalue _ ih =>
    obtain ⟨hassignment, hothers⟩ := List.forall_mem_cons.1 hnodes
    obtain ⟨htexts, hchildren⟩ := madeOf_iff.1 hassignment
    obtain ⟨hcode, hoperand⟩ := hvalue.madeOf hnames (hchildren _ (.head _))
    have htarget := htexts _ (.head _)
    simp [Instruction.texts, hcode, hoperand, htarget, ih nofun hothers]
  | output harguments _ ih =>
    obtain ⟨houtput, hothers⟩ := List.forall_mem_cons.1 hnodes
    obtain ⟨hformat, harguments'⟩ := List.forall_mem_cons.1 (madeOf_iff.1 houtput).2
    obtain ⟨hcode, hoperands⟩ := harguments.madeOf hnames harguments'
    have htext := (madeOf_iff.1 hformat).1 _ (.head _)
    have hparams : Instruction.MadeOf holds (List.map .param _) :=
      List.forall_mem_map.2 fun operand hmem => List.forall_mem_singleton.2 (hoperands operand hmem)
    simp [Instruction.texts, hcode, htext, hparams, hnames.print, ih nofun hothers]
  | conditional _ _ ihParts ihNodes =>
    obtain ⟨hconditional, hothers⟩ := List.forall_mem_cons.1 hnodes
    have hparts := ihParts (by rintro _ ⟨⟩; exact hnames.label _) (madeOf_iff.1 hconditional).2
    simp [Instruction.texts, hparts, hnames.label, ihNodes nofun hothers]
  | loop hcondition _ _ ihBody ihNodes =>
    obtain ⟨hloop, hothers⟩ := List.forall_mem_cons.1 hnodes
    obtain ⟨htest, hblock⟩ := List.forall_mem_cons.1 (madeOf_iff.1 hloop).2
    obtain ⟨hcode, hoperand⟩ := hcondition.madeOf hnames htest
    have hbody := ihBody nofun (madeOf_iff.1 (hblock _ (.head _))).2
    simp [Instruction.texts, hcode, hoperand, hbody, hnames.label, ihNodes nofun hothers]
  | otherwise _ ih => exact ih nofun (madeOf_iff.1 (hnodes _ (.head _))).2
  | branch hcondition _ _ ihBody ihParts =>
    obtain ⟨htest, hothers⟩ := List.forall_mem_cons.1 hnodes
    obtain ⟨hblock, hparts⟩ := List.forall_mem_cons.1 hothers
    obtain ⟨hcode, hoperand⟩ := hcondition.madeOf hnames htest
    have hbody := ihBody nofun (madeOf_iff.1 hblock).2
    simp [Instruction.texts, hcode, hoperand, hbody, hnames.label, hshape _ rfl,
      ihParts hshape hparts]

end Node

end ThreeAddress
