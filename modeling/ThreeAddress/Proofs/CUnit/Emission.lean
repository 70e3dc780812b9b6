import ThreeAddress.Proofs.Code.Judgement
import ThreeAddress.Proofs.Code.Lines
import ThreeAddress.Proofs.Code.Texts

/-!
# Lowered code is emitted

Code becomes statements if every target has storage, what is read into holds integers, and every
print stands right behind the parameters that it counts. The code of typed nodes is of this form
over every table that holds its temporaries, and so are its lines, as long as a count in them is not
too long to be read.
-/

namespace ThreeAddress

open Sequence Text

/-! ## Units -/

section
variable {table : Table} {code : List Instruction} {emitter : Emitter} {lines : List String}
  {unit : CUnit} {counts : EmitCounts} {error : EmitError}

/-- The unit of code has the statements that the code becomes, and declares the names with
storage. -/
theorem CUnit.ofInstructions_ok_iff : ofInstructions table code = .ok unit ↔
    statementsOf table [] code = .ok unit.statements ∧
      unit.declared = table.entries.filterMap variableOf? := by
  rw [ofInstructions, except_bind_ok]
  constructor
  · rintro ⟨statements, hstatements, ⟨⟩⟩
    exact ⟨hstatements, rfl⟩
  · rintro ⟨hstatements, hdeclared⟩
    exact ⟨unit.statements, hstatements, by rw [← hdeclared]⟩

/-- Code without a unit is code that becomes no statements. -/
theorem CUnit.ofInstructions_error_iff : ofInstructions table code = .error error ↔
    statementsOf table [] code = .error error := by
  rw [ofInstructions, except_bind_error]
  exact or_iff_left (by rintro ⟨_, -, ⟨⟩⟩)

/-- How lines become a unit: they are read as code, whose unit it is. -/
theorem Emitter.unit_ok_iff : emitter.unit lines = .ok (unit, counts) ↔
    ∃ code, CUnit.readLines lines = .ok code ∧
      CUnit.ofInstructions emitter.table code = .ok unit ∧
      counts = ⟨code.length, unit.declared.length, unit.statements.length⟩ := by
  rw [Emitter.unit, except_bind_ok]
  refine exists_congr fun code => and_congr_right fun _ => ?_
  rw [except_bind_ok]
  constructor
  · rintro ⟨_, hunit, ⟨⟩⟩
    exact ⟨hunit, rfl⟩
  · rintro ⟨hunit, rfl⟩
    exact ⟨unit, hunit, rfl⟩

/-- Why lines become no unit: they cannot be read, or their code has none. -/
theorem Emitter.unit_error_iff : emitter.unit lines = .error error ↔
    CUnit.readLines lines = .error error ∨ ∃ code, CUnit.readLines lines = .ok code ∧
      CUnit.ofInstructions emitter.table code = .error error := by
  rw [Emitter.unit, except_bind_error]
  refine or_congr_right (exists_congr fun code => and_congr_right fun _ => ?_)
  rw [except_bind_error]
  exact or_iff_left (by rintro ⟨_, -, ⟨⟩⟩)

end

/-! ## Code that can be emitted -/

namespace CUnit

/-- An instruction that becomes a statement whatever stands around it: its target has storage, and
only an integer is read. -/
def StandsAlone (table : Table) : Instruction → Prop
  | .assign target _ _ _ => ∃ type, storage table target = .ok type
  | .jump _ | .branch _ _ | .label _ => True
  | .call function count target => function = "input" ∧ count = 0 ∧
    ∃ name, target = some name ∧ storage table name = .ok .int
  | .param _ => False

/-- Code that can be written and becomes statements: instructions that stand alone, and prints
behind their parameters. -/
inductive IsEmitted (table : Table) (bound : Nat) : List Instruction → Prop where
  | nil : IsEmitted table bound []
  | cons {instruction : Instruction} {code : List Instruction} : instruction.IsWritten bound →
      StandsAlone table instruction → IsEmitted table bound code →
      IsEmitted table bound (instruction :: code)
  | print {operands : List String} {code : List Instruction} : operands ≠ [] →
      (∀ operand ∈ operands, (Instruction.param operand).IsWritten bound) →
      operands.length ≤ bound → IsEmitted table bound code →
      IsEmitted table bound
        (operands.map .param ++ .call "printf" operands.length none :: code)

variable {table : Table} {bound : Nat} {code others : List Instruction}

/-- Code and more code. -/
theorem IsEmitted.append (h : IsEmitted table bound code) (h' : IsEmitted table bound others) :
    IsEmitted table bound (code ++ others) := by
  induction h with
  | nil => exact h'
  | cons hwritten halone _ ih => exact .cons hwritten halone ih
  | print hne hoperands hbound _ ih =>
    rw [List.append_assoc, List.cons_append]
    exact .print hne hoperands hbound ih

/-- All instructions can be written. -/
theorem IsEmitted.isWritten (h : IsEmitted table bound code) :
    ∀ instruction ∈ code, instruction.IsWritten bound := by
  induction h with
  | nil => nofun
  | cons hwritten _ _ ih => exact List.forall_mem_cons.2 ⟨hwritten, ih⟩
  | print _ hoperands hbound _ ih =>
    refine List.forall_mem_append.2 ⟨?_, List.forall_mem_cons.2 ⟨.print hbound, ih⟩⟩
    exact List.forall_mem_map.2 hoperands

/-- Parameters are held back. -/
theorem statementsOf_params (params operands : List String) (code : List Instruction) :
    statementsOf table params (operands.map .param ++ code) =
      statementsOf table (params ++ operands) code := by
  induction operands generalizing params with
  | nil => rw [List.append_nil, List.map_nil, List.nil_append]
  | cons operand operands ih =>
    rw [List.map_cons, List.cons_append, statementsOf, ih, List.append_assoc, List.singleton_append]

/-- An assignment to a target with storage becomes a statement. -/
theorem assign_ok {type : DataType} {target : String} (h : storage table target = .ok type)
    (first operator second : Option String) :
    ∃ statement, assign table target first operator second = .ok statement := by
  rw [assign, h]
  cases operator with
  | none => exact ⟨_, rfl⟩
  | some operator =>
    cases second with
    | none => exact ⟨_, rfl⟩
    | some second =>
      by_cases hremainder : operator = "%" ∧ type = .float
      · exact ⟨_, if_pos hremainder⟩
      · exact ⟨_, if_neg hremainder⟩

/-- Code becomes statements. -/
theorem IsEmitted.statementsOf_ok (h : IsEmitted table bound code) :
    ∃ statements, statementsOf table [] code = .ok statements := by
  induction h with
  | nil => exact ⟨[], rfl⟩
  | @cons instruction code _ halone _ ih =>
    obtain ⟨statements, hstatements⟩ := ih
    cases instruction with
    | assign target first operator second =>
      obtain ⟨type, hstorage⟩ := halone
      obtain ⟨statement, hstatement⟩ := assign_ok hstorage first operator second
      exact ⟨statement :: statements, by rw [statementsOf, hstatement, hstatements]; rfl⟩
    | jump goal => exact ⟨.goto goal :: statements, by rw [statementsOf, hstatements]; rfl⟩
    | branch condition goal =>
      exact ⟨.branch condition goal :: statements, by rw [statementsOf, hstatements]; rfl⟩
    | label name => exact ⟨.label name :: statements, by rw [statementsOf, hstatements]; rfl⟩
    | param => exact halone.elim
    | call =>
      obtain ⟨rfl, rfl, name, rfl, hstorage⟩ := halone
      have hread : call table "input" 0 (some name) [] = .ok (.scan "\"%d\"" name) := by
        rw [call, if_neg (by simp), if_neg (by simp), if_pos rfl]
        simp only [List.isEmpty_nil, if_true]
        rw [read, hstorage]
        rfl
      exact ⟨_, by rw [statementsOf, hread, hstatements]; rfl⟩
  | @print operands code hne _ _ _ ih =>
    obtain ⟨statements, hstatements⟩ := ih
    have hprint : call table "printf" operands.length none operands = .ok (.print operands) := by
      rw [call, if_neg (by simp), if_pos rfl, if_neg (by simpa using hne)]
    refine ⟨.print operands :: statements, ?_⟩
    rw [statementsOf_params, List.nil_append, statementsOf, hprint, hstatements]
    rfl

/-- The unit of code that can be emitted. -/
theorem IsEmitted.ofInstructions_ok (h : IsEmitted table bound code) :
    ∃ unit, ofInstructions table code = .ok unit := by
  obtain ⟨statements, hstatements⟩ := h.statementsOf_ok
  exact ⟨⟨_, statements⟩, ofInstructions_ok_iff.2 ⟨hstatements, rfl⟩⟩

/-- Code that is read back from its lines becomes a unit. -/
theorem IsEmitted.unit_ok (emitter : Emitter) (h : IsEmitted emitter.table bound code)
    (hlines : readLines (code.map (·.text)) = .ok code) :
    ∃ result, emitter.unit (code.map (·.text)) = .ok result := by
  obtain ⟨unit, hunit⟩ := h.ofInstructions_ok
  exact ⟨(unit, _), Emitter.unit_ok_iff.2 ⟨code, hlines, hunit, rfl⟩⟩

/-- The lines of code become a unit, unless a count in them is too long. -/
theorem IsEmitted.unit_ends (emitter : Emitter) (h : IsEmitted emitter.table bound code) :
    (∃ result, emitter.unit (code.map (·.text)) = .ok result) ∨
      (emitter.unit (code.map (·.text)) = .error .longCount ∧
        Instruction.leastLonger Instruction.maxCountDigits ≤ bound) := by
  rcases readLines_text h.isWritten with hlines | ⟨hlines, hbound⟩
  · exact .inl (h.unit_ok emitter hlines)
  · exact .inr ⟨Emitter.unit_error_iff.2 (.inl hlines), hbound⟩

/-- The lines of code become a unit iff every line is read back. -/
theorem IsEmitted.unit_iff (emitter : Emitter) (h : IsEmitted emitter.table bound code) :
    (∃ result, emitter.unit (code.map (·.text)) = .ok result) ↔
      ∀ instruction ∈ code, Instruction.ofLine instruction.text = .ok instruction := by
  rw [← readLines_iff h.isWritten]
  refine ⟨fun ⟨result, hresult⟩ => ?_, h.unit_ok emitter⟩
  refine (readLines_text h.isWritten).resolve_right fun hlong => ?_
  rw [Emitter.unit, hlong.1] at hresult
  cases hresult

/-! ## Storage -/

variable {last : Table} {name : String}

/-- A name with a type that can be stored has storage. -/
theorem storage_of_find? {entry : Entry} (hfind : last.find? name = some entry)
    (htype : entry.type.isStorable = true) : storage last name = .ok entry.type := by
  rw [storage, hfind]
  exact if_pos htype

/-- A temporary has storage in every later table. -/
theorem storage_of_addTemporary {after : Table} {type : DataType}
    (h : table.addTemporary name type = .ok after) (hgrows : after.Grows last)
    (htype : type.isStorable = true) : storage last name = .ok type := by
  have hknown : type ≠ .unknown := by
    rintro rfl
    cases htype
  exact storage_of_find? (hgrows.known (Table.find?_of_addTemporary h) hknown) htype

end CUnit

/-! ## Lowered code -/

/-- A temporary is a word. -/
theorem Temporaries.isWord_nameOf (number : Nat) : IsWord (nameOf number).toList :=
  isWord_numbered rfl rfl number

/-- A label is a word. -/
theorem Labels.isWord_nameOf (number : Nat) : IsWord (nameOf number).toList :=
  isWord_numbered rfl rfl number

namespace Node

open CUnit

variable {table after last : Table} {bound : Nat} {node : Node} {code : List Instruction}

/-- The operators of typed nodes can be read in front of an operand. -/
theorem IsTyped.unaryOperator {operator : String} {mark : Mark}
    (h : (unary operator node mark).IsTyped table) :
    operator.toList ∈ Instruction.unaryOperators ∧ mark.type.isStorable = true := by
  rcases h with ⟨rfl, -, htype⟩ | ⟨rfl, -, htype⟩
  · exact ⟨by simp [Instruction.unaryOperators], by rw [htype]; rfl⟩
  · exact ⟨by simp [Instruction.unaryOperators], by rw [htype]; exact DataType.isStorable_join _ _⟩

/-- The operators of typed nodes can be read between operands. -/
theorem IsTyped.binaryOperator {operator : String} {left right : Node} {mark : Mark}
    (h : (binary operator left right mark).IsTyped table) :
    operator.toList ∈ Instruction.binaryOperators ∧ mark.type.isStorable = true := by
  rcases h with ⟨hmem, -, -, htype⟩ | ⟨hmem, -, -, htype⟩ | ⟨hmem, -, -, htype⟩
  · refine ⟨?_, by rw [htype]; rfl⟩
    simp only [List.mem_cons, List.not_mem_nil, or_false] at hmem
    rcases hmem with rfl | rfl <;> simp [Instruction.binaryOperators]
  · refine ⟨?_, by rw [htype]; rfl⟩
    simp only [List.mem_cons, List.not_mem_nil, or_false] at hmem
    rcases hmem with rfl | rfl | rfl | rfl | rfl | rfl <;> simp [Instruction.binaryOperators]
  · refine ⟨?_, by rw [htype]; exact DataType.isStorable_join _ _⟩
    simp only [List.mem_cons, List.not_mem_nil, or_false] at hmem
    rcases hmem with rfl | rfl | rfl | rfl | rfl <;> simp [Instruction.binaryOperators]

/-- The text of an operand that can also be a parameter. -/
def IsParameter (operand : String) : Prop :=
  IsOperandText operand.toList ∧ '\n' ∉ operand.toList

/-- A temporary can be a parameter. -/
theorem isParameter_nameOf (number : Nat) : IsParameter (Temporaries.nameOf number) := by
  have hword := Temporaries.isWord_nameOf number
  exact ⟨.word hword, hword.not_mem⟩

/-- The nodes of a tree are typed over a table, and their texts can be written. -/
def IsSettled (table : Table) (bound : Nat) (node : Node) : Prop :=
  ∀ part ∈ node.preorder, part.IsTyped table ∧ part.IsWritten bound

/-- What is settled is so at the root and below it. -/
theorem isSettled_iff : node.IsSettled table bound ↔
    (node.IsTyped table ∧ node.IsWritten bound) ∧
      ∀ child ∈ node.children, child.IsSettled table bound :=
  forall_mem_preorder

/-- The code of an expression is emitted over every later table, and its operand can be a
parameter. -/
theorem Computes.isEmitted {operand : String} (h : node.Computes table code operand after)
    (hgrows : after.Grows last) (hsettled : node.IsSettled last bound) :
    IsEmitted last bound code ∧ IsParameter operand := by
  induction h with
  | literal => exact ⟨.nil, (isSettled_iff.1 hsettled).1.2⟩
  | var =>
    have hword := (isSettled_iff.1 hsettled).1.2
    exact ⟨.nil, .word hword, hword.not_mem⟩
  | @input table after mark number htable =>
    have htype : mark.type = .int := (isSettled_iff.1 hsettled).1.1
    rw [htype] at htable
    have hstorage := storage_of_addTemporary htable hgrows rfl
    refine ⟨.cons (.read (Temporaries.isWord_nameOf number)) ?_ .nil, isParameter_nameOf number⟩
    exact ⟨rfl, rfl, _, rfl, hstorage⟩
  | @unary _ _ _ operator operand mark _ _ number _ htable ih =>
    obtain ⟨⟨htyped, -⟩, hchildren⟩ := isSettled_iff.1 hsettled
    obtain ⟨hoperator, htype⟩ := htyped.unaryOperator
    obtain ⟨hcode, hvalue⟩ := ih ((Table.grows_of_addTemporary htable).trans hgrows)
      (hchildren operand (by simp [children]))
    have hword := Temporaries.isWord_nameOf number
    have hstorage := storage_of_addTemporary htable hgrows htype
    refine ⟨hcode.append (.cons (.unary hword hoperator hvalue.1) ?_ .nil),
      isParameter_nameOf number⟩
    exact ⟨_, hstorage⟩
  | @binary _ _ _ _ operator left right mark _ _ _ _ number _ hright htable ihLeft ihRight =>
    obtain ⟨⟨htyped, -⟩, hchildren⟩ := isSettled_iff.1 hsettled
    obtain ⟨hoperator, htype⟩ := htyped.binaryOperator
    have hgrowsRight := (Table.grows_of_addTemporary htable).trans hgrows
    obtain ⟨hleftCode, hfirst⟩ := ihLeft (hright.grows.trans hgrowsRight)
      (hchildren left (by simp [children]))
    obtain ⟨hrightCode, hsecond⟩ := ihRight hgrowsRight (hchildren right (by simp [children]))
    have hword := Temporaries.isWord_nameOf number
    have hstorage := storage_of_addTemporary htable hgrows htype
    refine ⟨hleftCode.append (hrightCode.append
      (.cons (.binary hword hfirst.1 hoperator hsecond.1) ?_ .nil)), isParameter_nameOf number⟩
    exact ⟨_, hstorage⟩

/-- The code of arguments is emitted, and there is one parameter for each of them. -/
theorem ComputesAll.isEmitted {nodes : List Node} {operands : List String}
    (h : ComputesAll table nodes code operands after) (hgrows : after.Grows last)
    (hsettled : ∀ node ∈ nodes, node.IsSettled last bound) :
    IsEmitted last bound code ∧ (∀ operand ∈ operands, IsParameter operand) ∧
      operands.length = nodes.length := by
  induction h with
  | nil => exact ⟨.nil, nofun, rfl⟩
  | cons hnode hnodes ih =>
    obtain ⟨hsettledNode, hsettledNodes⟩ := List.forall_mem_cons.1 hsettled
    obtain ⟨hcode, hoperand⟩ := hnode.isEmitted (hnodes.grows.trans hgrows) hsettledNode
    obtain ⟨hothers, hoperands, hlength⟩ := ih hgrows hsettledNodes
    refine ⟨hcode.append hothers, List.forall_mem_cons.2 ⟨hoperand, hoperands⟩, ?_⟩
    rw [List.length_cons, hlength, List.length_cons]

/-- The code of statements and of the parts of a conditional is emitted. -/
theorem Lowers.isEmitted {supply after : Supply} {shape : Shape} {nodes : List Node}
    (h : Lowers supply shape nodes code after) (hgrows : after.table.Grows last)
    (hshape : ∀ final, shape = .parts final → IsWord final.toList)
    (hsettled : ∀ node ∈ nodes, node.IsSettled last bound) : IsEmitted last bound code := by
  induction h with
  | nil | noElse => exact .nil
  | @assignment _ _ _ target _ node _ _ _ _ _ hvalue hnodes ih =>
    obtain ⟨hassignment, hsettledNodes⟩ := List.forall_mem_cons.1 hsettled
    obtain ⟨⟨⟨-, hstorable, entry, hfind, htype⟩, hword⟩, hchildren⟩ := isSettled_iff.1 hassignment
    obtain ⟨hcode, hoperand⟩ := hvalue.isEmitted (hnodes.grows.trans hgrows)
      (hchildren node (by simp [children]))
    have hstorage := storage_of_find? hfind (htype ▸ hstorable)
    exact hcode.append (.cons (.copy hword hoperand.1) ⟨_, hstorage⟩
      (ih hgrows nofun hsettledNodes))
  | @output _ _ _ format formatMark mark arguments _ _ _ operands harguments hnodes ih =>
    obtain ⟨houtput, hsettledNodes⟩ := List.forall_mem_cons.1 hsettled
    obtain ⟨⟨-, hbound⟩, hchildren⟩ := isSettled_iff.1 houtput
    obtain ⟨hformat, hsettledArguments⟩ := List.forall_mem_cons.1 hchildren
    obtain ⟨-, ⟨body, hbody⟩, hbreak⟩ := (isSettled_iff.1 hformat).1
    obtain ⟨hcode, hoperands, hlength⟩ := harguments.isEmitted (hnodes.grows.trans hgrows)
      hsettledArguments
    refine hcode.append (.print (List.cons_ne_nil format operands) ?_ ?_
      (ih hgrows nofun hsettledNodes))
    · refine List.forall_mem_cons.2 ⟨.format hbody hbreak, fun operand hmem => ?_⟩
      exact .param (hoperands operand hmem).1 (hoperands operand hmem).2
    · rw [List.length_cons, hlength]
      exact hbound
  | @conditional _ _ _ parts nodes mark _ _ _ hnodes ihParts ihNodes =>
    obtain ⟨hconditional, hsettledNodes⟩ := List.forall_mem_cons.1 hsettled
    have hparts := ihParts (hnodes.grows.trans hgrows)
      (fun final hfinal => by cases hfinal; exact Labels.isWord_nameOf _)
      (isSettled_iff.1 hconditional).2
    exact hparts.append (.cons (.label (Labels.isWord_nameOf _)) trivial
      (ihNodes hgrows nofun hsettledNodes))
  | @loop _ _ _ _ condition _ items nodes _ _ _ _ _ hcondition hbody hnodes ihBody ihNodes =>
    obtain ⟨hloop, hsettledNodes⟩ := List.forall_mem_cons.1 hsettled
    obtain ⟨-, hchildren⟩ := isSettled_iff.1 hloop
    obtain ⟨hsettledCondition, hblock⟩ := List.forall_mem_cons.1 hchildren
    have hitems := (isSettled_iff.1 (List.forall_mem_singleton.1 hblock)).2
    have hgrowsBody := hnodes.grows.trans hgrows
    obtain ⟨hcode, hoperand⟩ := hcondition.isEmitted (hbody.grows.trans hgrowsBody)
      hsettledCondition
    have hlabel := Labels.isWord_nameOf
    refine .cons (.label (hlabel _)) trivial (hcode.append ?_)
    refine .cons (.branch hoperand.1 (hlabel _)) trivial (.cons (.jump (hlabel _)) trivial ?_)
    refine .cons (.label (hlabel _)) trivial ((ihBody hgrowsBody nofun hitems).append ?_)
    refine .cons (.jump (hlabel _)) trivial (.cons (.label (hlabel _)) trivial ?_)
    exact ihNodes hgrows nofun hsettledNodes
  | otherwise _ ih =>
    exact ih hgrows nofun (isSettled_iff.1 (List.forall_mem_singleton.1 hsettled)).2
  | @branch _ _ _ _ final condition _ items parts _ _ _ _ hcondition hbody hparts ihBody ihParts =>
    obtain ⟨hsettledCondition, hothers⟩ := List.forall_mem_cons.1 hsettled
    obtain ⟨hblock, hsettledParts⟩ := List.forall_mem_cons.1 hothers
    have hgrowsBody := hparts.grows.trans hgrows
    obtain ⟨hcode, hoperand⟩ := hcondition.isEmitted (hbody.grows.trans hgrowsBody)
      hsettledCondition
    have hlabel := Labels.isWord_nameOf
    have hitems := ihBody hgrowsBody nofun (isSettled_iff.1 hblock).2
    refine hcode.append (.cons (.branch hoperand.1 (hlabel _)) trivial ?_)
    refine .cons (.jump (hlabel _)) trivial (.cons (.label (hlabel _)) trivial ?_)
    refine hitems.append (.cons (.jump (hshape final rfl)) trivial ?_)
    exact .cons (.label (hlabel _)) trivial (ihParts hgrows hshape hsettledParts)

end Node

end ThreeAddress
