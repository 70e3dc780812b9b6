import ThreeAddress.Proofs.Check.Order
import ThreeAddress.Proofs.Code.Operands

/-!
# Values are stored before they are read

In the order of the code, every variable that an instruction reads is stored by an earlier one. For
the variables of the program this is what the checker knows: a name with a known type has been
assigned to, and its assignment has been lowered to code in front (`Tree.Checks.areSupplied`). A
temporary is read in the same straight piece of code in which it is stored.
-/

namespace ThreeAddress

namespace Instruction

variable {users : Table} {before code others : List Instruction} {name operand : String}

/-- A name is stored in code, and what stands behind is straight: it has no labels and no jumps. -/
def Carries (code : List Instruction) (name : String) : Prop :=
  ∃ front instruction behind, code = front ++ instruction :: behind ∧
    instruction.defines? = some name ∧ labels behind = [] ∧ goals behind = []

/-- What an operand needs of the code in front of where it is read. -/
structure IsSupplied (users : Table) (before : List Instruction) (operand : String) : Prop where
  user : isVariable operand = true → operand ∈ users → operand ∈ targets before
  temporary : users.isTemporary operand = true → Carries before operand

/-- All operands that code reads are supplied, where other code stands in front of it. -/
def AreSupplied (users : Table) : List Instruction → List Instruction → Prop
  | _, [] => True
  | before, instruction :: code =>
    (∀ operand ∈ instruction.reads, IsSupplied users before operand) ∧
      AreSupplied users (before ++ [instruction]) code

@[simp] theorem areSupplied_nil : AreSupplied users before [] := trivial

@[simp] theorem areSupplied_cons {instruction : Instruction} :
    AreSupplied users before (instruction :: code) ↔
      (∀ operand ∈ instruction.reads, IsSupplied users before operand) ∧
        AreSupplied users (before ++ [instruction]) code := .rfl

/-- More code is supplied by the code in front of it. -/
@[simp] theorem areSupplied_append : AreSupplied users before (code ++ others) ↔
    AreSupplied users before code ∧ AreSupplied users (before ++ code) others := by
  induction code generalizing before with
  | nil => simp
  | cons instruction code ih => simp [ih, and_assoc]

/-- What is carried is carried through straight code. -/
theorem Carries.append (h : Carries code name) (hlabels : labels others = [])
    (hgoals : goals others = []) : Carries (code ++ others) name := by
  obtain ⟨front, instruction, behind, rfl, htarget, hlabels', hgoals'⟩ := h
  refine ⟨front, instruction, behind ++ others, by simp, htarget, ?_, ?_⟩
  · rw [labels_append, hlabels', hlabels, List.append_nil]
  · rw [goals_append, hgoals', hgoals, List.append_nil]

/-- What is supplied stays so behind straight code. -/
theorem IsSupplied.append (h : IsSupplied users before operand) (hlabels : labels code = [])
    (hgoals : goals code = []) : IsSupplied users (before ++ code) operand where
  user hvariable hmem := by
    rw [targets_append]
    exact List.mem_append_left _ (h.user hvariable hmem)
  temporary htemporary := (h.temporary htemporary).append hlabels hgoals

/-- A literal needs nothing. -/
theorem IsSupplied.literal (h : isVariable operand = false) : IsSupplied users before operand where
  user hvariable := by
    rw [h] at hvariable
    cases hvariable
  temporary htemporary := by
    rw [Table.isTemporary, h] at htemporary
    cases htemporary

/-- A variable of the program needs an assignment. -/
theorem IsSupplied.of_user (hmem : operand ∈ users) (h : operand ∈ targets before) :
    IsSupplied users before operand where
  user _ _ := h
  temporary htemporary := by
    rw [Table.isTemporary, decide_eq_true hmem, Bool.not_true, Bool.and_false] at htemporary
    cases htemporary

/-- A name that has just been stored is supplied. -/
theorem IsSupplied.of_target {instruction : Instruction}
    (h : instruction.defines? = some operand) :
    IsSupplied users (before ++ [instruction]) operand where
  user _ _ := by simp [h]
  temporary _ := ⟨before, instruction, [], rfl, h, rfl, rfl⟩

/-- The operands of an instruction in supplied code. -/
theorem AreSupplied.reads {front behind : List Instruction} {instruction : Instruction}
    (h : AreSupplied users [] code) (hcode : code = front ++ instruction :: behind) :
    ∀ operand ∈ instruction.reads, IsSupplied users front operand := by
  rw [hcode, areSupplied_append] at h
  exact h.2.1

end Instruction

open Instruction

/-- A declaration leaves the entries of the other names as they were. -/
theorem Table.find?_declare_of_ne {table after : Table} {name other : String} {type : DataType}
    {assignable : Bool} (hdeclare : table.declare name type assignable = .ok after)
    (hne : other ≠ name) : after.find? other = table.find? other := by
  obtain ⟨isNew, rfl⟩ := declare_ok hdeclare
  exact find?_push_of_ne isNew hne

/-- The names that a table knows the types of have been stored. -/
def Table.IsStored (table : Table) (code : List Instruction) : Prop :=
  ∀ name type, table.type? name = some type → type.isStorable = true → name ∈ targets code

namespace Table.IsStored

variable {table after : Table} {code : List Instruction} {name : String}

/-- What has been stored before more code. -/
theorem append (h : table.IsStored code) (others : List Instruction) :
    table.IsStored (code ++ others) := by
  intro name type htype hstorable
  rw [targets_append]
  exact List.mem_append_left _ (h name type htype hstorable)

/-- A name is stored, and only its entry is another one. -/
theorem store (h : table.IsStored code)
    (hother : ∀ other, other ≠ name → after.find? other = table.find? other)
    {instruction : Instruction} (htarget : instruction.defines? = some name) :
    after.IsStored (code ++ [instruction]) := by
  intro other type htype hstorable
  by_cases heq : other = name
  · simp [heq, htarget]
  · rw [type?, hother other heq] at htype
    exact h.append _ other type htype hstorable

/-- A name without a type is declared. -/
theorem declare {assignable : Bool} (h : table.IsStored code)
    (hdeclare : table.declare name .unknown assignable = .ok after) : after.IsStored code := by
  intro other type htype hstorable
  by_cases heq : other = name
  · rw [heq, type?, find?_of_declare hdeclare] at htype
    cases htype
    cases hstorable
  · rw [type?, find?_declare_of_ne hdeclare heq] at htype
    exact h other type htype hstorable

end Table.IsStored

namespace Node

variable {users known table after : Table} {node : Node} {before code : List Instruction}
  {operand : String}

/-- The code of an expression is supplied, and so is its operand behind it, if the names in the
expression have been stored. -/
theorem Computes.supplied (h : node.Computes table code operand after)
    (hsound : node.IsSound known) (hstored : known.IsStored before) (husers : known.Grows users) :
    AreSupplied users before code ∧ IsSupplied users (before ++ code) operand := by
  induction h generalizing before with
  | literal =>
    obtain ⟨-, hliteral, -⟩ := (isSound_iff.1 hsound).1
    exact ⟨areSupplied_nil, .literal hliteral⟩
  | @var _ name mark =>
    obtain ⟨⟨hstorable, entry, hfind, htype⟩, -⟩ := (isSound_iff.1 hsound).1
    have hmem : name ∈ users := husers.mem (Table.mem_iff_find?.2 ⟨entry, hfind⟩)
    have htype? : known.type? name = some mark.type := by
      rw [Table.type?, hfind, htype]
      rfl
    rw [List.append_nil]
    exact ⟨areSupplied_nil, .of_user hmem (hstored name mark.type htype? hstorable)⟩
  | input => exact ⟨⟨List.forall_mem_nil _, trivial⟩, .of_target rfl⟩
  | unary _ _ ih =>
    obtain ⟨hcode, hvalue⟩ := ih ((isSound_iff.1 hsound).2 _ (.head _)) hstored
    rw [← List.append_assoc]
    exact ⟨areSupplied_append.2 ⟨hcode, List.forall_mem_singleton.2 hvalue, trivial⟩,
      .of_target rfl⟩
  | binary _ hright _ ihLeft ihRight =>
    obtain ⟨-, hchildren⟩ := isSound_iff.1 hsound
    obtain ⟨hleftCode, hfirst⟩ := ihLeft (hchildren _ (.head _)) hstored
    obtain ⟨hrightCode, hsecond⟩ := ihRight (hchildren _ (.tail _ (.head _))) (hstored.append _)
    have hboth := hfirst.append hright.labels.1 hright.labels.2
    refine ⟨?_, ?_⟩
    · rw [areSupplied_append, areSupplied_append]
      exact ⟨hleftCode, hrightCode,
        List.forall_mem_cons.2 ⟨hboth, List.forall_mem_singleton.2 hsecond⟩, trivial⟩
    · rw [← List.append_assoc, ← List.append_assoc]
      exact .of_target rfl

/-- The code of arguments is supplied, and so are their operands behind it. -/
theorem ComputesAll.supplied {nodes : List Node} {operands : List String}
    (h : ComputesAll table nodes code operands after) (hsound : ∀ node ∈ nodes, node.IsSound known)
    (hstored : known.IsStored before) (husers : known.Grows users) :
    AreSupplied users before code ∧
      ∀ operand ∈ operands, IsSupplied users (before ++ code) operand := by
  induction h generalizing before with
  | nil => exact ⟨areSupplied_nil, nofun⟩
  | cons hnode hnodes ih =>
    obtain ⟨hsoundNode, hsoundNodes⟩ := List.forall_mem_cons.1 hsound
    obtain ⟨hcode, hoperand⟩ := hnode.supplied hsoundNode hstored husers
    obtain ⟨hothers, hoperands⟩ := ih hsoundNodes (hstored.append _)
    refine ⟨areSupplied_append.2 ⟨hcode, hothers⟩, ?_⟩
    rw [← List.append_assoc]
    exact List.forall_mem_cons.2 ⟨hoperand.append hnodes.labels.1 hnodes.labels.2, hoperands⟩

end Node

/-! ## Statements -/

/-- Parameters are supplied by the code in front of all of them. -/
theorem Instruction.areSupplied_params {users : Table} {before : List Instruction}
    {operands : List String} (h : ∀ operand ∈ operands, IsSupplied users before operand) :
    AreSupplied users before (operands.map .param) := by
  induction operands generalizing before with
  | nil => exact areSupplied_nil
  | cons operand operands ih =>
    obtain ⟨hoperand, hoperands⟩ := List.forall_mem_cons.1 h
    refine ⟨List.forall_mem_singleton.2 hoperand, ih fun other hmem => ?_⟩
    exact (hoperands other hmem).append rfl rfl

namespace Node

variable {users table between after : Table} {shape : Shape} {final : String} {mark : Mark}
  {node : Node} {items nodes parts others : List Node}

/-- The code of the nodes is supplied behind code that stores the names with known types; and it
stores those whose types become known. -/
def AreSupplied (users table after : Table) (shape : Shape) (nodes : List Node) : Prop :=
  ∀ ⦃supply last : Supply⦄ ⦃before code : List Instruction⦄, Lowers supply shape nodes code last →
    table.IsStored before →
    Instruction.AreSupplied users before code ∧ after.IsStored (before ++ code)

namespace AreSupplied

/-- Nothing is lowered. -/
theorem of_nil (h : ∀ code, table.IsStored code → after.IsStored code) :
    AreSupplied users table after shape [] := by
  intro supply last before code hlowers hstored
  cases hlowers <;> exact ⟨areSupplied_nil, by simpa using h before hstored⟩

/-- Statements, and more statements behind them. -/
theorem append (h : AreSupplied users table between .statements nodes)
    (h' : AreSupplied users between after .statements others) :
    AreSupplied users table after .statements (nodes ++ others) := by
  intro supply last before code hlowers hstored
  obtain ⟨first, rest, middle, rfl, hfirst, hrest⟩ := hlowers.append_inv
  obtain ⟨hcode, hstored'⟩ := h hfirst hstored
  obtain ⟨hcode', hstored''⟩ := h' hrest hstored'
  rw [← List.append_assoc]
  exact ⟨areSupplied_append.2 ⟨hcode, hcode'⟩, hstored''⟩

/-- A value is stored under a name, and only the entry of the name is another one. -/
theorem assignment {name : String} {declares : Bool} (hsound : node.IsSound table)
    (husers : table.Grows users)
    (hother : ∀ other, other ≠ name → after.find? other = table.find? other) :
    AreSupplied users table after .statements [.assignment name node declares mark] := by
  intro supply last before code hlowers hstored
  cases hlowers with
  | assignment hvalue hnil =>
  cases hnil
  obtain ⟨hcode, hoperand⟩ := hvalue.supplied hsound hstored husers
  refine ⟨areSupplied_append.2 ⟨hcode, List.forall_mem_singleton.2 hoperand, trivial⟩, ?_⟩
  rw [← List.append_assoc]
  exact (hstored.append _).store hother rfl

/-- A print. -/
theorem output {format : String} {formatMark : Mark} {arguments : List Node}
    (hformat : Instruction.isVariable format = false)
    (hsound : ∀ node ∈ arguments, node.IsSound table) (husers : table.Grows users) :
    AreSupplied users table table .statements
      [.output (.format format formatMark) arguments mark] := by
  intro supply last before code hlowers hstored
  cases hlowers with
  | output harguments hnil =>
  cases hnil
  obtain ⟨hcode, hoperands⟩ := harguments.supplied hsound hstored husers
  have hparams := areSupplied_params (List.forall_mem_cons.2 ⟨.literal hformat, hoperands⟩)
  refine ⟨areSupplied_append.2 ⟨hcode, areSupplied_append.2 ⟨hparams, nofun, trivial⟩⟩, ?_⟩
  exact hstored.append _

/-- A condition, and a body under it that begins behind jumps. -/
theorem guarded {supply last : Supply} {source taken : Table} {before code body : List Instruction}
    {operand : String} (hsound : node.IsSound table) (husers : table.Grows users)
    (hitems : AreSupplied users table between .statements items) (hstored : table.IsStored before)
    (hcondition : node.Computes source code operand taken)
    (hbody : Lowers supply .statements items body last) (inside exit goal : String) :
    Instruction.AreSupplied users before (code ++ (.branch operand inside :: .jump exit ::
      .label inside :: (body ++ [.jump goal, .label exit]))) ∧
    between.IsStored (before ++ (code ++ (.branch operand inside :: .jump exit ::
      .label inside :: (body ++ [.jump goal, .label exit])))) := by
  obtain ⟨hcode, hoperand⟩ := hcondition.supplied hsound hstored husers
  obtain ⟨hbodyCode, hstored'⟩ := hitems hbody
    (hstored.append (code ++ [.branch operand inside, .jump exit, .label inside]))
  have hopening : Instruction.AreSupplied users (before ++ code)
      [.branch operand inside, .jump exit, .label inside] :=
    ⟨List.forall_mem_singleton.2 hoperand, nofun, nofun, trivial⟩
  have hclosing (front : List Instruction) :
      Instruction.AreSupplied users front [.jump goal, .label exit] := ⟨nofun, nofun, trivial⟩
  refine ⟨?_, by simpa using hstored'.append [.jump goal, .label exit]⟩
  have hall := areSupplied_append.2 ⟨areSupplied_append.2 ⟨hcode, hopening⟩,
    areSupplied_append.2 ⟨hbodyCode, hclosing _⟩⟩
  simpa only [List.append_assoc, List.cons_append, List.nil_append] using hall

/-- A loop. -/
theorem loop {bodyMark : Mark} (hsound : node.IsSound table) (husers : table.Grows users)
    (hitems : AreSupplied users table after .statements items) :
    AreSupplied users table after .statements [.loop node (.block items bodyMark) mark] := by
  intro supply last before code hlowers hstored
  cases hlowers with
  | loop hcondition hbody hnil =>
  cases hnil
  obtain ⟨hcode, hstored'⟩ := hitems.guarded hsound husers (hstored.append [.label _]) hcondition
    hbody _ _ _
  refine ⟨areSupplied_cons.2 ⟨nofun, hcode⟩, ?_⟩
  simpa only [List.append_assoc, List.cons_append, List.nil_append] using hstored'

/-- The parts of a conditional from a condition on. -/
theorem branch {bodyMark : Mark} (hsound : node.IsSound table) (husers : table.Grows users)
    (hitems : AreSupplied users table between .statements items)
    (hparts : AreSupplied users between after (.parts final) parts) :
    AreSupplied users table after (.parts final) (node :: .block items bodyMark :: parts) := by
  intro supply last before code hlowers hstored
  cases hlowers with
  | branch hcondition hbody hothers =>
  obtain ⟨hcode, hstored'⟩ := hitems.guarded hsound husers hstored hcondition hbody _ _ final
  obtain ⟨hrest, hstored''⟩ := hparts hothers hstored'
  have hall := areSupplied_append.2 ⟨hcode, hrest⟩
  refine ⟨?_, ?_⟩
  · simpa only [List.append_assoc, List.cons_append, List.nil_append] using hall
  · simpa only [List.append_assoc, List.cons_append, List.nil_append] using hstored''

/-- A conditional. -/
theorem conditional (hparts : ∀ final, AreSupplied users table after (.parts final) parts) :
    AreSupplied users table after .statements [.conditional parts mark] := by
  intro supply last before code hlowers hstored
  cases hlowers with
  | conditional hcode hnil =>
  cases hnil
  obtain ⟨hsupplied, hstored'⟩ := hparts _ hcode hstored
  rw [← List.append_assoc]
  exact ⟨areSupplied_append.2 ⟨hsupplied, nofun, trivial⟩, hstored'.append _⟩

/-- The last body of a conditional. -/
theorem otherwise (hitems : AreSupplied users table after .statements items) :
    AreSupplied users table after (.parts final) [.block items mark] := by
  intro supply last before code hlowers hstored
  cases hlowers with
  | otherwise hbody => exact hitems hbody hstored

end AreSupplied

end Node

namespace Tree

variable {users table after : Table} {tree : Tree} {node : Node} {nodes : List Node}
  {pieces : List Piece}

/-- The node of an expression is sound over the table that it has been checked over. -/
theorem Infers.isSound (h : tree.Infers table node) (hplain : table.IsPlain)
    (hpieces : tree.spelling ⊆ pieces)
    (hlexemes : ∀ piece ∈ pieces, IsLexeme piece.1 piece.2.toList) : node.IsSound table :=
  fun part hpart =>
    ⟨(h.typed hplain).2 part hpart, (h.isQuoted hpieces part hpart).isLegible hlexemes⟩

/-- What the checker leaves is lowered to code that is supplied. -/
theorem Checks.areSupplied (h : tree.Checks table nodes after) (hplain : table.IsPlain)
    (hpieces : tree.spelling ⊆ pieces)
    (hlexemes : ∀ piece ∈ pieces, IsLexeme piece.1 piece.2.toList) (husers : after.Grows users)
    (final : String) : Node.AreSupplied users table after (tree.shape final) nodes := by
  induction h generalizing final with
  | assignment _ _ hvalue hresolve =>
    have hsound := hvalue.isSound hplain (spelling_subset_of_part (.head _) hpieces) hlexemes
    exact .assignment hsound ((Table.grows_of_resolve hresolve).trans husers) fun other hne =>
      Table.Records.find?_resolve_of_ne hresolve hne
  | letFixed hvalue hdeclare | letMutable hvalue hdeclare =>
    have hsound := hvalue.isSound hplain (spelling_subset_of_part (.head _) hpieces) hlexemes
    exact .assignment hsound ((Table.grows_of_declare hdeclare).trans husers) fun other hne =>
      Table.find?_declare_of_ne hdeclare hne
  | letUnset hdeclare => exact .of_nil fun code hstored => hstored.declare hdeclare
  | ifElse htest _ hitems htail hrest ihBody ihTail =>
    have hsound := htest.isSound hplain (spelling_subset_of_part (.head _) hpieces) hlexemes
    have husersBody := hrest.grows.trans husers
    have hbody := ihBody hplain (spelling_subset_of_part (.tail _ (.head _)) hpieces) husersBody ""
    have hparts := ihTail (hitems.typed hplain).1
      (spelling_subset_of_part (.tail _ (.tail _ (.head _))) hpieces) husers
    simp only [shape_of_isTail _ htail] at hparts
    exact .conditional fun label =>
      .branch hsound (hitems.grows.trans husersBody) hbody (hparts label)
  | elseIf htest _ hitems htail hrest ihBody ihTail =>
    have hsound := htest.isSound hplain (spelling_subset_of_part (.head _) hpieces) hlexemes
    have husersBody := hrest.grows.trans husers
    have hbody := ihBody hplain (spelling_subset_of_part (.tail _ (.head _)) hpieces) husersBody ""
    have hparts := ihTail (hitems.typed hplain).1
      (spelling_subset_of_part (.tail _ (.tail _ (.head _))) hpieces) husers
    simp only [shape_of_isTail _ htail] at hparts
    exact .branch hsound (hitems.grows.trans husersBody) hbody (hparts final)
  | otherwise _ ih =>
    exact .otherwise (ih hplain (spelling_subset_of_part (.head _) hpieces) husers "")
  | loop htest _ hitems ih =>
    have hsound := htest.isSound hplain (spelling_subset_of_part (.head _) hpieces) hlexemes
    have hbody := ih hplain (spelling_subset_of_part (.tail _ (.head _)) hpieces) husers ""
    exact .loop hsound (hitems.grows.trans husers) hbody
  | @output _ format arguments _ line harguments =>
    have hformat : (.stringLit, format) ∈ pieces := hpieces (by simp [spelling])
    have hparts : ∀ part ∈ (Tree.output format arguments line).parts, part.spelling ⊆ pieces :=
      fun _ hmem => spelling_subset_of_part hmem hpieces
    refine .output ((hlexemes _ hformat).isOperand.2 rfl) ?_ husers
    exact Infers.forall_nodes harguments fun argument hmem _ hnode =>
      hnode.isSound hplain (hparts argument hmem) hlexemes
  | noElse | nil => exact .of_nil fun _ hstored => hstored
  | cons hstatement hfirst hothers ihFirst ihOthers =>
    have husersFirst := hothers.grows.trans husers
    have hcode := ihFirst hplain (spelling_subset_of_part (.head _) hpieces) husersFirst ""
    have hrest := ihOthers (hfirst.typed hplain).1
      (List.Subset.trans (block_sublist ..).subset hpieces) husers ""
    rw [shape_of_isStatement _ hstatement] at hcode
    exact hcode.append hrest

end Tree

end ThreeAddress
