import ThreeAddress.Proofs.Code.Typing

/-!
# What code reads and writes

Every temporary is written once and read once. Lowering enters each temporary into the table where
it appends the instruction that writes it, and hands its name on to one instruction that reads it
(`Node.Lowers.isFrugal`). What stands between the two is code of expressions, so there is no way
into or out of it.
-/

namespace ThreeAddress

/-- What arithmetic accepts can be stored. -/
theorem DataType.isStorable_of_isArithmetic {type : DataType} (h : type.isArithmetic = true) :
    type.isStorable = true := by
  cases type <;> first | rfl | cases h

/-! ## Reads and writes -/

namespace Instruction

/-- The operands that an instruction reads. -/
def reads : Instruction → List String
  | .assign _ first _ second => first.toList ++ second.toList
  | .branch condition _ => [condition]
  | .param operand => [operand]
  | .jump _ | .label _ | .call .. => []

/-- A variable is read or written by an instruction. -/
def Involves (instruction : Instruction) (name : String) : Prop :=
  (name ∈ instruction.reads ∧ isVariable name = true) ∨ instruction.defines? = some name

/-- The names that code stores values in. -/
def targets (code : List Instruction) : List String := code.filterMap defines?

/-- The operands that code reads. -/
def operands (code : List Instruction) : List String := code.flatMap reads

variable {instruction : Instruction} {code others : List Instruction}

@[simp] theorem targets_nil : targets [] = [] := rfl

@[simp] theorem operands_nil : operands [] = [] := rfl

/-- The targets of code and more code. -/
@[simp] theorem targets_append (code others : List Instruction) :
    targets (code ++ others) = targets code ++ targets others := List.filterMap_append

/-- The operands of code and more code. -/
@[simp] theorem operands_append (code others : List Instruction) :
    operands (code ++ others) = operands code ++ operands others := List.flatMap_append

/-- The targets of an instruction and more code. -/
@[simp] theorem targets_cons (instruction : Instruction) (code : List Instruction) :
    targets (instruction :: code) = instruction.defines?.toList ++ targets code := by
  cases h : instruction.defines? <;> simp [targets, h]

/-- The operands of an instruction and more code. -/
@[simp] theorem operands_cons (instruction : Instruction) (code : List Instruction) :
    operands (instruction :: code) = instruction.reads ++ operands code := List.flatMap_cons

/-- Parameters store nothing. -/
@[simp] theorem targets_params (params : List String) : targets (params.map .param) = [] := by
  induction params with
  | nil => rfl
  | cons operand params ih => exact ih

/-- Parameters read what they are. -/
@[simp] theorem operands_params (params : List String) : operands (params.map .param) = params := by
  induction params with
  | nil => rfl
  | cons operand params ih => exact congrArg (operand :: ·) ih

/-- An instruction that reads something is no label. -/
theorem label?_of_reads {operand : String} (h : operand ∈ instruction.reads) :
    instruction.label? = none := by
  cases instruction with
  | label => cases h
  | _ => rfl

/-- The variables that a typed instruction reads have types that can be stored. -/
theorem IsTyped.type_of_reads {table : Table} (h : instruction.IsTyped table) :
    ∀ operand ∈ instruction.reads, isVariable operand = true →
      ∃ type, table.type? operand = some type ∧ type.isStorable = true := by
  have hvariable {operand : String} {type : DataType}
      (hoperand : table.operandType? operand = some type) (hstorable : type.isStorable = true)
      (h : isVariable operand = true) :
      ∃ type, table.type? operand = some type ∧ type.isStorable = true := by
    rw [Table.operandType?_variable h] at hoperand
    exact ⟨type, hoperand, hstorable⟩
  cases h with
  | jump | label | print | read => exact List.forall_mem_nil _
  | copy hstorable hoperand | param hstorable hoperand =>
    exact List.forall_mem_singleton.2 (hvariable hoperand hstorable)
  | negation hoperand | branch hoperand =>
    exact List.forall_mem_singleton.2 (hvariable hoperand rfl)
  | minus harithmetic hoperand =>
    exact List.forall_mem_singleton.2
      (hvariable hoperand (DataType.isStorable_of_isArithmetic harithmetic))
  | logical _ hfirst hsecond =>
    exact List.forall_mem_cons.2
      ⟨hvariable hfirst rfl, List.forall_mem_singleton.2 (hvariable hsecond rfl)⟩
  | relational _ hleft hright hfirst hsecond | arithmetic _ hleft hright hfirst hsecond =>
    exact List.forall_mem_cons.2 ⟨hvariable hfirst (DataType.isStorable_of_isArithmetic hleft),
      List.forall_mem_singleton.2 (hvariable hsecond (DataType.isStorable_of_isArithmetic hright))⟩
  | format htext =>
    refine List.forall_mem_singleton.2 fun hvariable => ?_
    rw [isVariable, htext] at hvariable
    cases hvariable

/-- The target of a typed instruction has a type that can be stored. -/
theorem IsTyped.type_of_defines {table : Table} {target : String} (h : instruction.IsTyped table)
    (htarget : instruction.defines? = some target) :
    ∃ type, table.type? target = some type ∧ type.isStorable = true := by
  cases h with
  | copy hstorable _ htype =>
    cases htarget
    exact ⟨_, htype, hstorable⟩
  | negation _ htype | logical _ _ _ htype | relational _ _ _ _ _ htype | read htype =>
    cases htarget
    exact ⟨_, htype, rfl⟩
  | minus _ _ htype | arithmetic _ _ _ _ _ htype =>
    cases htarget
    exact ⟨_, htype, DataType.isStorable_join _ _⟩
  | branch | jump | label | format | param | print => cases htarget

end Instruction

/-! ## Temporaries -/

namespace Table

variable {table after : Table} {name : String} {type : DataType}

/-- A temporary comes behind the others, and no name of the program comes with it. -/
theorem temporaries_of_addTemporary (h : table.addTemporary name type = .ok after) :
    after.temporaries = table.temporaries ++ [name] ∧ after.declared = table.declared := by
  obtain ⟨isNew, rfl⟩ := addTemporary_ok h
  simp [temporaries, declared, push]

/-- No temporary has two entries. -/
theorem nodup_temporaries (table : Table) : table.temporaries.Nodup :=
  table.distinct.sublist (List.filter_sublist.map _)

/-- No temporary is a name of the program. -/
theorem not_mem_declared (h : name ∈ table.temporaries) : name ∉ table.declared := by
  intro hdeclared
  obtain ⟨entry, hentry, rfl⟩ := List.mem_map.1 h
  obtain ⟨other, hother, hname⟩ := List.mem_map.1 hdeclared
  obtain ⟨hmem, htemporary⟩ := List.mem_filter.1 hentry
  obtain ⟨hmem', hdeclares⟩ := List.mem_filter.1 hother
  have hsame : other = entry := by
    have hfind := find?_of_mem hmem'
    rw [hname, find?_of_mem hmem] at hfind
    exact (Option.some.inj hfind).symm
  rw [hsame, htemporary] at hdeclares
  cases hdeclares

/-- Whether an operand is a variable that is none of the names of the program. -/
def isTemporary (users : Table) (operand : String) : Bool :=
  Instruction.isVariable operand && !decide (operand ∈ users)

/-- A variable that is none of the names of the program. -/
theorem isTemporary_of_not_mem {users : Table} {operand : String}
    (hvariable : Instruction.isVariable operand = true) (hmem : operand ∉ users) :
    users.isTemporary operand = true := by
  rw [isTemporary, hvariable, decide_eq_false hmem]
  rfl

end Table

/-- How code deals with temporaries. Each one that it adds to the table is written by one of its
instructions, and all are read as often as they are written, if those that are handed on are read
once more. -/
structure IsFrugal (users before after : Table) (code : List Instruction) (handed : List String) :
    Prop where
  declared : after.declared = before.declared
  temporaries : after.temporaries =
    before.temporaries ++ (Instruction.targets code).filter users.isTemporary
  uses : ∀ name, users.isTemporary name = true →
    (Instruction.operands code).count name + handed.count name =
      (Instruction.targets code).count name

namespace IsFrugal

open Instruction

variable {users before between after : Table} {code others : List Instruction}
  {handed handed' : List String}

/-- No code, and no temporary that is handed on. -/
theorem nil (h : ∀ operand ∈ handed, users.isTemporary operand = false) :
    IsFrugal users before before [] handed := by
  refine ⟨rfl, by simp, fun name hname => ?_⟩
  have hcount : handed.count name = 0 := by
    refine List.count_eq_zero.2 fun hmem => ?_
    rw [h name hmem] at hname
    cases hname
  simp [hcount]

/-- Code and more code. -/
theorem append (h : IsFrugal users before between code handed)
    (h' : IsFrugal users between after others handed') :
    IsFrugal users before after (code ++ others) (handed ++ handed') := by
  refine ⟨h'.declared.trans h.declared, ?_, fun name hname => ?_⟩
  · rw [h'.temporaries, h.temporaries, targets_append, List.filter_append, List.append_assoc]
  · have huses := h.uses name hname
    have huses' := h'.uses name hname
    rw [operands_append, targets_append, List.count_append, List.count_append, List.count_append]
    omega

/-- Code whose operands are read by the code behind it, which writes names of the program only. -/
theorem consume (h : IsFrugal users before after code (operands others))
    (htargets : ∀ name ∈ targets others, name ∈ users) :
    IsFrugal users before after (code ++ others) [] := by
  have hplain : ∀ name ∈ targets others, users.isTemporary name = false := by
    intro name hname
    rw [Table.isTemporary, decide_eq_true (htargets name hname)]
    exact Bool.and_false _
  have hfilter : (targets others).filter users.isTemporary = [] :=
    List.filter_eq_nil_iff.2 fun name hname => by simp [hplain name hname]
  refine ⟨h.declared, ?_, fun name hname => ?_⟩
  · rw [h.temporaries, targets_append, List.filter_append, hfilter, List.append_nil]
  · have huses := h.uses name hname
    have hcount : (targets others).count name = 0 := by
      refine List.count_eq_zero.2 fun hmem => ?_
      rw [hplain name hmem] at hname
      cases hname
    rw [operands_append, targets_append, List.count_append, List.count_append, List.count_nil]
    omega

/-- Code that reads and writes nothing. -/
theorem of_plain (hoperands : operands code = []) (htargets : targets code = []) :
    IsFrugal users before before code [] := by
  have hnil : IsFrugal users before before [] (operands code) := .nil (by simp [hoperands])
  exact hnil.consume (by simp [htargets])

/-- Code whose operands are read by an instruction that writes a new temporary. -/
theorem take {instruction : Instruction} {number : Nat} {type : DataType}
    (h : IsFrugal users before between code instruction.reads)
    (htarget : instruction.defines? = some (Temporaries.nameOf number))
    (htable : between.addTemporary (Temporaries.nameOf number) type = .ok after)
    (husers : ∀ name ∈ users, name ∈ between) :
    IsFrugal users before after (code ++ [instruction]) [Temporaries.nameOf number] := by
  obtain ⟨htemporaries, hdeclared⟩ := Table.temporaries_of_addTemporary htable
  obtain ⟨isNew, -⟩ := Table.addTemporary_ok htable
  have htemporary : users.isTemporary (Temporaries.nameOf number) = true := by
    rw [Table.isTemporary, Temporaries.isVariable_nameOf,
      decide_eq_false fun hmem => isNew (husers _ hmem)]
    rfl
  have htargets : targets [instruction] = [Temporaries.nameOf number] := by simp [htarget]
  refine ⟨hdeclared.trans h.declared, ?_, fun name hname => ?_⟩
  · rw [htemporaries, h.temporaries, targets_append, htargets, List.filter_append,
      List.filter_cons_of_pos htemporary, List.filter_nil, List.append_assoc]
  · have huses := h.uses name hname
    rw [operands_append, targets_append, htargets, List.count_append, List.count_append,
      operands_cons, operands_nil, List.append_nil]
    omega

/-- A print of operands under a format text. -/
theorem printed {format : String} (h : IsFrugal users before after code handed)
    (hformat : users.isTemporary format = false) (count : Int) :
    IsFrugal users before after
      (code ++ ((format :: handed).map .param ++ [.call "printf" count none])) [] := by
  have hall := (nil (List.forall_mem_singleton.2 hformat)).append h
  refine consume ?_ ?_
  · rw [operands_append, operands_params]
    simpa [reads] using hall
  · rw [targets_append, targets_params]
    nofun

/-- A body under a condition. -/
theorem guarded {operand : String} (h : IsFrugal users before between code [operand])
    (hbody : IsFrugal users between after others []) (inside exit goal : String) :
    IsFrugal users before after (code ++ (.branch operand inside :: .jump exit :: .label inside ::
      (others ++ [.jump goal, .label exit]))) [] := by
  have hopening : IsFrugal users before between
      (code ++ [.branch operand inside, .jump exit, .label inside]) [] := h.consume nofun
  have hclosing : IsFrugal users after after [.jump goal, .label exit] [] := .of_plain rfl rfl
  simpa using hopening.append (hbody.append hclosing)

/-- Each temporary of a whole program is written once and read once. -/
theorem once (h : IsFrugal users users after code []) (husers : users.temporaries = [])
    {name : String} (hname : name ∈ after.temporaries) :
    users.isTemporary name = true ∧ (targets code).count name = 1 ∧
      (operands code).count name = 1 := by
  have htemporaries := h.temporaries
  rw [husers, List.nil_append] at htemporaries
  have hnodup := after.nodup_temporaries
  rw [htemporaries] at hname hnodup
  obtain ⟨-, htemporary⟩ := List.mem_filter.1 hname
  have huses := h.uses name htemporary
  have hcount := List.count_eq_one_of_mem hnodup hname
  rw [List.count_filter htemporary] at hcount
  rw [List.count_nil, hcount] at huses
  exact ⟨htemporary, hcount, huses⟩

end IsFrugal

/-! ## Lowered code -/

namespace Node

open Instruction

variable {users table after : Table} {node : Node} {code : List Instruction} {operand : String}

/-- The code of an expression hands its operand on. -/
theorem Computes.isFrugal (h : node.Computes table code operand after)
    (husers : ∀ name ∈ users, name ∈ table) (hsound : node.IsSound users) :
    IsFrugal users table after code [operand] := by
  induction h with
  | literal =>
    obtain ⟨-, hliteral, -⟩ := (isSound_iff.1 hsound).1
    exact .nil (List.forall_mem_singleton.2 (by rw [Table.isTemporary, hliteral]; rfl))
  | @var _ name =>
    obtain ⟨⟨-, entry, hfind, -⟩, -⟩ := (isSound_iff.1 hsound).1
    refine .nil (List.forall_mem_singleton.2 ?_)
    rw [Table.isTemporary, decide_eq_true (Table.mem_iff_find?.2 ⟨entry, hfind⟩)]
    exact Bool.and_false _
  | input htable =>
    show IsFrugal users _ _ ([] ++ [_]) _
    exact .take (.nil nofun) rfl htable husers
  | unary hvalue htable ih =>
    have hinner := (isSound_iff.1 hsound).2 _ (.head _)
    exact (ih husers hinner).take rfl htable fun name hname => hvalue.grows.mem (husers name hname)
  | binary hleft hright htable ihLeft ihRight =>
    obtain ⟨-, hchildren⟩ := isSound_iff.1 hsound
    have husersRight := fun name hname => hleft.grows.mem (husers name hname)
    have hboth := (ihLeft husers (hchildren _ (.head _))).append
      (ihRight husersRight (hchildren _ (.tail _ (.head _))))
    rw [← List.append_assoc]
    exact hboth.take rfl htable fun name hname => hright.grows.mem (husersRight name hname)

/-- The code of arguments hands their operands on. -/
theorem ComputesAll.isFrugal {nodes : List Node} {operands : List String}
    (h : ComputesAll table nodes code operands after) (husers : ∀ name ∈ users, name ∈ table)
    (hsound : ∀ node ∈ nodes, node.IsSound users) :
    IsFrugal users table after code operands := by
  induction h with
  | nil => exact .nil nofun
  | cons hnode _ ih =>
    obtain ⟨hsoundNode, hsoundNodes⟩ := List.forall_mem_cons.1 hsound
    have hothers := ih (fun name hname => hnode.grows.mem (husers name hname)) hsoundNodes
    exact (hnode.isFrugal husers hsoundNode).append hothers

/-- The code of statements and of the parts of a conditional is frugal. -/
theorem Lowers.isFrugal {supply after : Supply} {shape : Shape} {nodes : List Node}
    (h : Lowers supply shape nodes code after) (husers : ∀ name ∈ users, name ∈ supply.table)
    (hsound : ∀ node ∈ nodes, node.IsSound users) :
    IsFrugal users supply.table after.table code [] := by
  have hlabel (table : Table) (name : String) : IsFrugal users table table [.label name] [] :=
    .of_plain rfl rfl
  induction h with
  | nil | noElse => exact .nil nofun
  | assignment hvalue hnodes ih =>
    obtain ⟨hassignment, hothers⟩ := List.forall_mem_cons.1 hsound
    obtain ⟨⟨⟨-, -, entry, hfind, -⟩, -⟩, hchildren⟩ := isSound_iff.1 hassignment
    have hcode := hvalue.isFrugal husers (hchildren _ (.head _))
    have htarget := Table.mem_iff_find?.2 ⟨entry, hfind⟩
    have hstored : IsFrugal users _ _ (_ ++ [.assign _ (some _) none none]) [] :=
      hcode.consume (List.forall_mem_singleton.2 htarget)
    have hrest := ih (fun name hname => hvalue.grows.mem (husers name hname)) hothers
    simpa using hstored.append hrest
  | @output _ _ _ format _ _ _ _ _ _ operands harguments _ ih =>
    obtain ⟨houtput, hothers⟩ := List.forall_mem_cons.1 hsound
    obtain ⟨hformat, harguments'⟩ := List.forall_mem_cons.1 (isSound_iff.1 houtput).2
    have hcode := harguments.isFrugal husers harguments'
    have htext : users.isTemporary format = false := by
      rw [Table.isTemporary, Instruction.isVariable, (isSound_iff.1 hformat).1.2]
      rfl
    have hprinted := hcode.printed htext (operands.length + 1)
    have hrest := ih (fun name hname => harguments.grows.mem (husers name hname)) hothers
    simpa using hprinted.append hrest
  | conditional hparts _ ihParts ihNodes =>
    obtain ⟨hconditional, hothers⟩ := List.forall_mem_cons.1 hsound
    have hcode := ihParts husers (isSound_iff.1 hconditional).2
    have hrest := ihNodes (fun name hname => hparts.grows.mem (husers name hname)) hothers
    simpa using hcode.append ((hlabel _ _).append hrest)
  | loop hcondition hbody _ ihBody ihNodes =>
    obtain ⟨hloop, hothers⟩ := List.forall_mem_cons.1 hsound
    obtain ⟨hsoundCondition, hblock⟩ := List.forall_mem_cons.1 (isSound_iff.1 hloop).2
    have husersBody := fun name hname => hcondition.grows.mem (husers name hname)
    have hitems := ihBody husersBody (isSound_iff.1 (List.forall_mem_singleton.1 hblock)).2
    have hrest := ihNodes (fun name hname => hbody.grows.mem (husersBody name hname)) hothers
    have hguarded := (hcondition.isFrugal husers hsoundCondition).guarded hitems
    simpa using (hlabel _ _).append ((hguarded _ _ _).append hrest)
  | otherwise _ ih =>
    exact ih husers (isSound_iff.1 (List.forall_mem_singleton.1 hsound)).2
  | branch hcondition hbody _ ihBody ihParts =>
    obtain ⟨hsoundCondition, hothers⟩ := List.forall_mem_cons.1 hsound
    obtain ⟨hblock, hsoundParts⟩ := List.forall_mem_cons.1 hothers
    have husersBody := fun name hname => hcondition.grows.mem (husers name hname)
    have hitems := ihBody husersBody (isSound_iff.1 hblock).2
    have hrest := ihParts (fun name hname => hbody.grows.mem (husersBody name hname)) hsoundParts
    have hguarded := (hcondition.isFrugal husers hsoundCondition).guarded hitems
    simpa using (hguarded _ _ _).append hrest

end Node

end ThreeAddress
