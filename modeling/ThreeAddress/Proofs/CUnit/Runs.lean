import Mathlib.Data.List.DropRight
import Mathlib.Data.List.Forall2
import ThreeAddress.Proofs.CUnit.Emission

/-!
# Runs of an emitter

What an emitter accepts, and that it loses no parameter. An instruction may become a statement
depending on the parameters held back in front of it (`Instruction.Fits`), and leaves others held
back behind it. A run starts with none, whatever the runs before it have left, so it ends like the
run of a new emitter.
-/

namespace ThreeAddress

open Sequence

/-! ## Parameters since the last call -/

namespace Instruction

/-- Whether an instruction is a call. -/
def isCall : Instruction → Bool
  | .call .. => true
  | _ => false

/-- The operand of a parameter. -/
def param? : Instruction → Option String
  | .param operand => some operand
  | _ => none

/-- The operands of the parameters in code. -/
def params (code : List Instruction) : List String := code.filterMap param?

/-- The operands of the parameters behind the last call in code. -/
def pending (code : List Instruction) : List String := params (code.rtakeWhile (!·.isCall))

/-- What is held back behind an instruction: a parameter is added, and a call takes all. -/
def heldBehind (held : List String) : Instruction → List String
  | .param operand => held ++ [operand]
  | .call .. => []
  | _ => held

/-- One more instruction. -/
theorem pending_concat (code : List Instruction) (instruction : Instruction) :
    pending (code ++ [instruction]) = heldBehind (pending code) instruction := by
  cases hcall : instruction.isCall with
  | true =>
    rw [pending, List.rtakeWhile_concat_neg _ _ _ (by simp [hcall])]
    cases instruction <;> first | rfl | cases hcall
  | false =>
    rw [pending, List.rtakeWhile_concat_pos _ _ _ (by simp [hcall]), params, List.filterMap_append]
    cases instruction with
    | call => cases hcall
    | param operand => rfl
    | _ => exact List.append_nil _

/-- A name has a type in a table. -/
def HasType (table : Table) (name : String) (type : DataType) : Prop :=
  ∃ entry, table.find? name = some entry ∧ entry.type = type

/-- An instruction becomes a statement, or is a parameter, where the given parameters are held back:
the target of an assignment can be stored, and a call counts the parameters and either prints at
least one of them or reads a value that can be read, and takes none. -/
def Fits (table : Table) (held : List String) : Instruction → Prop
  | .assign target .. => ∃ type ∈ [DataType.int, .bool, .char, .float], HasType table target type
  | .call function count target => count = held.length ∧
    (function = "printf" ∧ target = none ∧ held ≠ [] ∨
      function = "input" ∧ held = [] ∧
        ∃ name, target = some name ∧
          ∃ type ∈ [DataType.int, .char, .float], HasType table name type)
  | _ => True

/-- Code is accepted: every instruction fits the parameters since the last call in front of it, and
none is left at the end. -/
def Accepts (table : Table) (code : List Instruction) : Prop :=
  (∀ front instruction behind, code = front ++ instruction :: behind →
    Fits table (pending front) instruction) ∧ pending code = []

end Instruction

/-! ## One statement after the other -/

/-- The arguments of a print. -/
def CStatement.printed : CStatement → List String
  | .print arguments => arguments
  | _ => []

namespace CUnit

open Instruction

variable {table : Table} {held : List String} {instruction : Instruction} {code : List Instruction}

/-- The statement of an instruction, where the given parameters are held back. -/
def statementOf (table : Table) (held : List String) :
    Instruction → Except EmitError (Option CStatement)
  | .param _ => .ok none
  | .call function count target => some <$> call table function count target held
  | .assign target first operator second => some <$> assign table target first operator second
  | .label name => .ok (some (.label name))
  | .jump goal => .ok (some (.goto goal))
  | .branch condition goal => .ok (some (.branch condition goal))

/-- The statements of code, instruction by instruction. -/
theorem statementsOf_cons (table : Table) (held : List String) (instruction : Instruction)
    (code : List Instruction) : statementsOf table held (instruction :: code) = do
      let statement ← statementOf table held instruction
      let statements ← statementsOf table (heldBehind held instruction) code
      return statement.toList ++ statements := by
  cases instruction with
  | param operand =>
    rw [statementsOf]
    show _ = statementsOf table (held ++ [operand]) code >>= pure
    rw [bind_pure]
  | call function count target =>
    rw [statementsOf]
    cases hcall : call table function count target held <;>
      simp only [statementOf, hcall] <;> rfl
  | assign target first operator second =>
    rw [statementsOf]
    cases hassign : assign table target first operator second <;>
      simp only [statementOf, hassign] <;> rfl
  | label | jump | branch => rfl

/-- Where a value is stored. -/
theorem storage_ok_iff {name : String} {type : DataType} : storage table name = .ok type ↔
    type ∈ [DataType.int, .bool, .char, .float] ∧ HasType table name type := by
  have hstorable : type.isStorable = true ↔ type ∈ [DataType.int, .bool, .char, .float] := by
    cases type <;> decide
  rw [← hstorable, HasType, storage]
  cases table.find? name with
  | none => exact iff_of_false (by simp) (by rintro ⟨-, _, ⟨⟩, -⟩)
  | some entry =>
    dsimp only
    split
    · next h =>
      refine ⟨?_, ?_⟩
      · rintro ⟨⟩
        exact ⟨h, entry, rfl, rfl⟩
      · rintro ⟨-, _, ⟨⟩, rfl⟩
        rfl
    · next h =>
      refine iff_of_false (by simp) ?_
      rintro ⟨htype, _, ⟨⟩, rfl⟩
      exact absurd htype h

/-- An assignment becomes a statement iff its target can be stored. -/
theorem assign_ok_iff {target : String} {first operator second : Option String} :
    (∃ statement, assign table target first operator second = .ok statement) ↔
      ∃ type ∈ [DataType.int, .bool, .char, .float], HasType table target type := by
  constructor
  · rintro ⟨statement, h⟩
    obtain ⟨type, hstorage, -⟩ := except_bind_ok.1 h
    exact ⟨type, storage_ok_iff.1 hstorage⟩
  · rintro ⟨type, h⟩
    exact assign_ok (storage_ok_iff.2 h) first operator second

/-- The types that can be read can be stored. -/
theorem readFormat?_isSome_iff {type : DataType} :
    (readFormat? type).isSome = true ↔ type ∈ [DataType.int, .char, .float] := by
  cases type <;> decide

/-- A read becomes a statement iff its target holds values that can be read. -/
theorem read_ok_iff {target : String} : (∃ statement, read table target = .ok statement) ↔
    ∃ type ∈ [DataType.int, .char, .float], HasType table target type := by
  constructor
  · rintro ⟨statement, h⟩
    obtain ⟨type, hstorage, h⟩ := except_bind_ok.1 h
    refine ⟨type, readFormat?_isSome_iff.1 ?_, (storage_ok_iff.1 hstorage).2⟩
    cases hformat : readFormat? type with
    | none =>
      rw [hformat] at h
      cases h
    | some format => rfl
  · rintro ⟨type, htype, hhas⟩
    obtain ⟨format, hformat⟩ := Option.isSome_iff_exists.1 (readFormat?_isSome_iff.2 htype)
    have hstorage : storage table target = .ok type := by
      refine storage_ok_iff.2 ⟨?_, hhas⟩
      revert htype
      cases type <;> decide
    exact ⟨.scan format target, except_bind_ok.2 ⟨type, hstorage, by rw [hformat]⟩⟩

/-- A call becomes a statement iff it counts the parameters and either prints some or reads a value
and takes none. -/
theorem call_ok_iff {function : String} {count : Int} {target : Option String} :
    (∃ statement, CUnit.call table function count target held = .ok statement) ↔
      Fits table held (.call function count target) := by
  have herror {error : EmitError} : ¬∃ statement : CStatement, Except.error error = .ok statement :=
    nofun
  rw [Fits, CUnit.call.eq_def]
  by_cases hcount : (held.length : Int) ≠ count
  · rw [if_pos hcount]
    exact iff_of_false herror fun h => hcount h.1.symm
  rw [if_neg hcount]
  have hcount' : count = held.length := (not_not.1 hcount).symm
  by_cases hprint : function = "printf"
  · subst hprint
    rw [if_pos rfl]
    by_cases hempty : (target.isSome || held.isEmpty) = true
    · rw [if_pos hempty]
      refine iff_of_false herror ?_
      rintro ⟨-, ⟨-, rfl, hne⟩ | ⟨hname, -⟩⟩
      · exact hne (List.isEmpty_iff.1 hempty)
      · exact absurd hname (by decide)
    · rw [if_neg hempty]
      rw [Bool.or_eq_true, not_or, Option.not_isSome_iff_eq_none, List.isEmpty_iff] at hempty
      exact iff_of_true ⟨_, rfl⟩ ⟨hcount', .inl ⟨rfl, hempty⟩⟩
  rw [if_neg hprint]
  by_cases hread : function = "input"
  · subst hread
    rw [if_pos rfl]
    cases target with
    | none =>
      refine iff_of_false herror ?_
      rintro ⟨-, ⟨hname, -⟩ | ⟨-, -, _, ⟨⟩, -⟩⟩
      exact hprint hname
    | some target =>
      dsimp only
      by_cases hempty : held.isEmpty = true
      · rw [if_pos hempty, read_ok_iff]
        rw [List.isEmpty_iff] at hempty
        refine ⟨fun h => ⟨hcount', .inr ⟨rfl, hempty, target, rfl, h⟩⟩, ?_⟩
        rintro ⟨-, ⟨hname, -⟩ | ⟨-, -, _, ⟨⟩, h⟩⟩
        · exact absurd hname hprint
        · exact h
      · rw [if_neg hempty]
        refine iff_of_false herror ?_
        rintro ⟨-, ⟨hname, -⟩ | ⟨-, hnil, -⟩⟩
        · exact hprint hname
        · exact hempty (List.isEmpty_iff.2 hnil)
  · rw [if_neg hread]
    refine iff_of_false herror ?_
    rintro ⟨-, ⟨hname, -⟩ | ⟨hname, -⟩⟩
    · exact hprint hname
    · exact hread hname

/-- An instruction becomes a statement, or is a parameter, iff it fits what is held back. -/
theorem statementOf_ok_iff :
    (∃ statement, statementOf table held instruction = .ok statement) ↔
      Fits table held instruction := by
  have hmap {result : Except EmitError CStatement} :
      (∃ statement, some <$> result = .ok statement) ↔ ∃ statement, result = .ok statement := by
    simp only [except_map_ok, exists_comm, exists_and_left, exists_eq', and_true]
  cases instruction with
  | param | label | jump | branch => exact iff_of_true ⟨_, rfl⟩ trivial
  | assign target first operator second =>
    rw [statementOf, hmap, assign_ok_iff]
    rfl
  | call function count target =>
    rw [statementOf, hmap, call_ok_iff]

/-- The statement of an assignment prints nothing. -/
theorem printed_assign {target : String} {first operator second : Option String}
    {statement : CStatement} (h : assign table target first operator second = .ok statement) :
    statement.printed = [] := by
  rw [assign] at h
  obtain ⟨type, -, h⟩ := except_bind_ok.1 h
  dsimp only at h
  split at h
  · split at h
    · cases h
      rfl
    · cases h
      rfl
  · cases h
    rfl
  · cases h
    rfl

/-- The statement of a read prints nothing, and needs no mathematical functions. -/
theorem printed_read {target : String} {statement : CStatement}
    (h : read table target = .ok statement) :
    statement.printed = [] ∧ statement.needsMath = false := by
  rw [read] at h
  obtain ⟨type, -, h⟩ := except_bind_ok.1 h
  split at h
  · cases h
    exact ⟨rfl, rfl⟩
  · cases h

/-- The statement of a call prints the parameters held back, and needs no mathematical functions. -/
theorem printed_call {function : String} {count : Int} {target : Option String}
    {statement : CStatement} (h : CUnit.call table function count target held = .ok statement) :
    statement.printed = held ∧ statement.needsMath = false := by
  rw [CUnit.call.eq_def] at h
  split at h
  · cases h
  · split at h
    · split at h
      · cases h
      · cases h
        exact ⟨rfl, rfl⟩
    · split at h
      · split at h
        · split at h
          · next hempty => exact List.isEmpty_iff.1 hempty ▸ printed_read h
          · cases h
        · cases h
      · cases h

/-- What a statement prints and what is held back behind its instruction are what was held back in
front of it, and the operand of a parameter; only a parameter has no statement. -/
theorem printed_append_heldBehind {statement : Option CStatement}
    (h : statementOf table held instruction = .ok statement) :
    statement.toList.flatMap CStatement.printed ++ heldBehind held instruction =
        held ++ params [instruction] ∧
      statement.toList.length + (params [instruction]).length = 1 := by
  cases instruction with
  | param operand =>
    cases h
    exact ⟨rfl, rfl⟩
  | label | jump | branch =>
    cases h
    exact ⟨(List.append_nil _).symm, rfl⟩
  | assign target first operator second =>
    obtain ⟨found, hfound, rfl⟩ := except_map_ok.1 h
    refine ⟨?_, rfl⟩
    rw [Option.toList_some, List.flatMap_singleton, printed_assign hfound]
    exact (List.append_nil _).symm
  | call function count target =>
    obtain ⟨found, hfound, rfl⟩ := except_map_ok.1 h
    refine ⟨?_, rfl⟩
    rw [Option.toList_some, List.flatMap_singleton, (printed_call hfound).1]
    rfl

/-- The first statement and those behind it. -/
theorem statementsOf_cons_ok {statements : List CStatement}
    (h : statementsOf table held (instruction :: code) = .ok statements) :
    ∃ statement behind, statementOf table held instruction = .ok statement ∧
      statementsOf table (heldBehind held instruction) code = .ok behind ∧
        statements = statement.toList ++ behind := by
  rw [statementsOf_cons] at h
  obtain ⟨statement, hfirst, h⟩ := except_bind_ok.1 h
  obtain ⟨behind, hothers, heq⟩ := except_bind_ok.1 h
  cases heq
  exact ⟨statement, behind, hfirst, hothers, rfl⟩

/-- Code becomes statements iff each of its instructions fits what is held back in front of it, and
nothing is left at the end. -/
theorem statementsOf_ok_iff (front code : List Instruction) :
    (∃ statements, statementsOf table (pending front) code = .ok statements) ↔
      (∀ middle instruction behind, code = middle ++ instruction :: behind →
        Fits table (pending (front ++ middle)) instruction) ∧ pending (front ++ code) = [] := by
  induction code generalizing front with
  | nil =>
    have hno : ∀ middle instruction behind,
        ([] : List Instruction) = middle ++ instruction :: behind →
        Fits table (pending (front ++ middle)) instruction := by
      intro middle instruction behind heq
      cases middle <;> cases heq
    rw [List.append_nil, statementsOf]
    cases hpending : pending front with
    | nil => exact iff_of_true ⟨[], rfl⟩ ⟨hno, rfl⟩
    | cons => exact iff_of_false (by rintro ⟨_, ⟨⟩⟩) (by rintro ⟨-, ⟨⟩⟩)
  | cons instruction code ih =>
    have hpending : heldBehind (pending front) instruction = pending (front ++ [instruction]) :=
      (pending_concat front instruction).symm
    have ih := ih (front ++ [instruction])
    constructor
    · rintro ⟨statements, h⟩
      obtain ⟨statement, behind, hfirst, hothers, -⟩ := statementsOf_cons_ok h
      rw [hpending] at hothers
      obtain ⟨hfits, hend⟩ := ih.1 ⟨behind, hothers⟩
      rw [List.append_assoc, List.singleton_append] at hend
      refine ⟨fun middle other rest heq => ?_, hend⟩
      cases middle with
      | nil =>
        cases heq
        rw [List.append_nil]
        exact statementOf_ok_iff.1 ⟨statement, hfirst⟩
      | cons first middle =>
        cases heq
        have hother := hfits middle other rest rfl
        rwa [List.append_assoc, List.singleton_append] at hother
    · rintro ⟨hfits, hend⟩
      have hhead := hfits [] instruction code rfl
      rw [List.append_nil] at hhead
      obtain ⟨statement, hfirst⟩ := statementOf_ok_iff.2 hhead
      have hrest : ∀ middle other behind, code = middle ++ other :: behind →
          Fits table (pending (front ++ [instruction] ++ middle)) other := by
        rintro middle other behind rfl
        rw [List.append_assoc, List.singleton_append]
        exact hfits (instruction :: middle) other behind rfl
      obtain ⟨statements, hothers⟩ := ih.2 ⟨hrest, by
        rwa [List.append_assoc, List.singleton_append]⟩
      refine ⟨statement.toList ++ statements, ?_⟩
      rw [statementsOf_cons, hpending]
      exact except_bind_ok.2 ⟨statement, hfirst, except_bind_ok.2 ⟨statements, hothers, rfl⟩⟩

/-- Statements print all parameters of their code in order, behind those held back, and there are as
many of them as instructions that are no parameters. -/
theorem printed_statementsOf {statements : List CStatement}
    (h : statementsOf table held code = .ok statements) :
    statements.flatMap CStatement.printed = held ++ params code ∧
      statements.length + (params code).length = code.length := by
  induction code generalizing held statements with
  | nil =>
    rw [statementsOf] at h
    split at h
    · next hempty =>
      cases h
      rw [List.isEmpty_iff.1 hempty]
      exact ⟨rfl, rfl⟩
    · cases h
  | cons instruction code ih =>
    obtain ⟨statement, behind, hfirst, hothers, rfl⟩ := statementsOf_cons_ok h
    obtain ⟨hprinted, hlength⟩ := printed_append_heldBehind hfirst
    obtain ⟨hprinted', hlength'⟩ := ih hothers
    have hparams : params (instruction :: code) = params [instruction] ++ params code :=
      List.filterMap_append (l := [instruction])
    rw [hparams, List.flatMap_append, hprinted', ← List.append_assoc, hprinted, List.append_assoc]
    refine ⟨rfl, ?_⟩
    simp only [List.length_append, List.length_cons]
    omega

end CUnit

/-! ## Single runs -/

namespace Emit

open Instruction CUnit

variable {emitter : Emitter} {instruction : Instruction} {code : List Instruction}
  {lines : List String} {error : EmitError}

/-- What an emitter does with an instruction that becomes a statement or is a parameter. -/
theorem translate_ok {statement : Option CStatement}
    (h : statementOf emitter.table emitter.held instruction = .ok statement) :
    translate instruction emitter = .ok statement { emitter with
      held := heldBehind emitter.held instruction
      needsMath := emitter.needsMath || statement.toList.any (·.needsMath) } := by
  cases instruction with
  | param | label | jump | branch =>
    cases h
    simp only [Option.toList_some, Option.toList_none, List.any_cons, List.any_nil, Bool.or_false,
      CStatement.needsMath]
    rfl
  | assign target first operator second =>
    obtain ⟨found, hfound, rfl⟩ := except_map_ok.1 h
    have hrun : translate (.assign target first operator second) emitter =
        (do
          if found.needsMath then modify fun emitter => { emitter with needsMath := true }
          return some found : Emit (Option CStatement)) emitter := by
      show (ofExcept (CUnit.assign emitter.table target first operator second) >>= _) emitter = _
      rw [hfound]
      rfl
    rw [hrun, Option.toList_some, List.any_cons, List.any_nil, Bool.or_false]
    cases hmath : found.needsMath with
    | true =>
      rw [Bool.or_true]
      rfl
    | false =>
      rw [Bool.or_false]
      rfl
  | call function count target =>
    obtain ⟨found, hfound, rfl⟩ := except_map_ok.1 h
    rw [Option.toList_some, List.any_cons, List.any_nil, Bool.or_false, (printed_call hfound).2,
      Bool.or_false]
    show (ofExcept (CUnit.call emitter.table function count target emitter.held) >>= _) _ = _
    rw [hfound]
    rfl

/-- What an emitter does with another instruction. -/
theorem translate_error (h : statementOf emitter.table emitter.held instruction = .error error) :
    translate instruction emitter = .error error { emitter with
      held := heldBehind emitter.held instruction } := by
  cases instruction with
  | param | label | jump | branch => cases h
  | assign target first operator second =>
    show (ofExcept (CUnit.assign emitter.table target first operator second) >>= _) emitter = _
    rw [except_map_error.1 h]
    rfl
  | call function count target =>
    show (ofExcept (CUnit.call emitter.table function count target emitter.held) >>= _) _ = _
    rw [except_map_error.1 h]
    rfl

/-- An emitter that is left with no parameters. -/
theorem translateAll_ok {statements : List CStatement}
    (h : statementsOf emitter.table emitter.held code = .ok statements) :
    translateAll code emitter = .ok statements { emitter with
      held := []
      needsMath := emitter.needsMath || statements.any (·.needsMath) } := by
  induction code generalizing emitter statements with
  | nil =>
    rw [statementsOf] at h
    split at h
    · next hempty =>
      cases h
      rw [List.any_nil, Bool.or_false, ← List.isEmpty_iff.1 hempty]
      rfl
    · cases h
  | cons instruction code ih =>
    obtain ⟨statement, behind, hfirst, hothers, rfl⟩ := statementsOf_cons_ok h
    rw [translateAll, bind_of_ok (translate_ok hfirst), bind_of_ok (ih hothers), List.any_append,
      ← Bool.or_assoc]
    rfl

/-- An emitter that fails, or is left with parameters. -/
theorem translateAll_error (h : statementsOf emitter.table emitter.held code = .error error) :
    ∃ held needsMath, translateAll code emitter = .error error { emitter with held, needsMath } ∨
      held ≠ [] ∧ error = .unusedParams held ∧
        ∃ statements, translateAll code emitter =
          .ok statements { emitter with held, needsMath } := by
  induction code generalizing emitter with
  | nil =>
    rw [statementsOf] at h
    split at h
    · cases h
    · next hne =>
      cases h
      exact ⟨_, _, .inr ⟨fun hnil => hne (List.isEmpty_iff.2 hnil), rfl, [], rfl⟩⟩
  | cons instruction code ih =>
    rw [statementsOf_cons] at h
    rcases except_bind_error.1 h with hfirst | ⟨statement, hfirst, h⟩
    · exact ⟨_, _, .inl (bind_error.2 (.inl (translate_error hfirst)))⟩
    rcases except_bind_error.1 h with hothers | ⟨_, -, ⟨⟩⟩
    obtain ⟨held, needsMath, hend⟩ := @ih { emitter with
      held := heldBehind emitter.held instruction
      needsMath := emitter.needsMath || statement.toList.any (·.needsMath) } hothers
    refine ⟨held, needsMath, ?_⟩
    rw [translateAll, bind_of_ok (translate_ok hfirst)]
    rcases hend with hfails | ⟨hne, rfl, statements, hleaves⟩
    · exact .inl (bind_error.2 (.inl hfails))
    · exact .inr ⟨hne, rfl, _, bind_ok.2 ⟨statements, _, hleaves, rfl⟩⟩

/-- The emitter at the start of a run. -/
theorem generate_eq (lines : List String) (emitter : Emitter) : generate lines emitter =
    (do
      let instructions ← ofExcept (readLines lines)
      let statements ← translateAll instructions
      let emitter ← get
      if !emitter.held.isEmpty then throw (.unusedParams emitter.held)
      let unit : CUnit := ⟨emitter.table.entries.filterMap CUnit.variableOf?, statements⟩
      let counts : EmitCounts := ⟨instructions.length, unit.declared.length, unit.statements.length⟩
      modify fun emitter => { emitter with counts := some counts }
      return unit.textUnder (CUnit.headersWith emitter.needsMath) emitter.indent : Emit String)
        { emitter with held := [], needsMath := false } := rfl

/-- A run over lines that become a unit. -/
theorem generate_ok {unit : CUnit} {counts : EmitCounts}
    (h : emitter.unit lines = .ok (unit, counts)) :
    generate lines emitter = .ok (unit.text emitter.indent) { emitter with
      held := [], needsMath := unit.needsMath, counts := some counts } := by
  obtain ⟨code, hread, hunit, rfl⟩ := Emitter.unit_ok_iff.1 h
  obtain ⟨declared, statements⟩ := unit
  obtain ⟨hstatements, hdeclared⟩ := ofInstructions_ok_iff.1 hunit
  cases hdeclared
  have hrun := @translateAll_ok { emitter with held := [], needsMath := false } _ _ hstatements
  rw [generate_eq, hread]
  refine bind_ok.2 ⟨code, _, rfl, ?_⟩
  rw [bind_of_ok hrun]
  rfl

/-- A run over other lines. -/
theorem generate_error (h : emitter.unit lines = .error error) : ∃ held needsMath,
    generate lines emitter = .error error { emitter with held, needsMath } := by
  rcases Emitter.unit_error_iff.1 h with hread | ⟨code, hread, hunit⟩
  · rw [generate_eq, hread]
    exact ⟨[], false, rfl⟩
  obtain ⟨held, needsMath, hend⟩ := @translateAll_error
    { emitter with held := [], needsMath := false } _ _ (ofInstructions_error_iff.1 hunit)
  rw [generate_eq, hread]
  refine ⟨held, needsMath, bind_error.2 (.inr ⟨code, _, rfl, ?_⟩)⟩
  rcases hend with hfails | ⟨hne, rfl, statements, hleaves⟩
  · exact bind_error.2 (.inl hfails)
  · rw [bind_of_ok hleaves]
    cases held with
    | nil => exact absurd rfl hne
    | cons => rfl

end Emit

/-! ## Lines -/

namespace CUnit

/-- Lines of text are read as instructions, one for each line that is not blank. -/
def AreRead (lines : List String) (code : List Instruction) : Prop :=
  List.Forall₂ (fun line instruction => Instruction.ofLine line = .ok instruction)
    (lines.filter fun line => !Text.isBlankText line.toList) code

/-- Lines that can be read. -/
theorem areRead_iff {lines : List String} {code : List Instruction} :
    AreRead lines code ↔ readLines lines = .ok code := by
  rw [AreRead, readLines]
  generalize lines.filter (fun line => !Text.isBlankText line.toList) = written
  induction written generalizing code with
  | nil =>
    rw [List.forall₂_nil_left_iff, List.mapM_nil]
    exact ⟨fun h => h ▸ rfl, fun h => by cases h; rfl⟩
  | cons line written ih =>
    rw [List.mapM_cons]
    constructor
    · rintro ⟨⟩
      next hline hothers =>
        rw [hline, ih.1 hothers]
        rfl
    · intro h
      obtain ⟨instruction, hline, h⟩ := except_bind_ok.1 h
      obtain ⟨others, hothers, heq⟩ := except_bind_ok.1 h
      cases heq
      exact .cons hline (ih.2 hothers)

end CUnit

namespace Emitter

open Instruction CUnit

variable {emitter : Emitter} {lines : List String} {unit : CUnit} {counts : EmitCounts}

/-- Lines become a unit iff they are read as code that is accepted. -/
theorem exists_unit_iff : (∃ result, emitter.unit lines = .ok result) ↔
    ∃ code, AreRead lines code ∧ Accepts emitter.table code := by
  have haccepts (code : List Instruction) :
      (∃ statements, statementsOf emitter.table [] code = .ok statements) ↔
        Accepts emitter.table code := statementsOf_ok_iff [] code
  constructor
  · rintro ⟨⟨unit, counts⟩, h⟩
    obtain ⟨code, hread, hunit, -⟩ := unit_ok_iff.1 h
    exact ⟨code, areRead_iff.2 hread, (haccepts code).1 ⟨_, (ofInstructions_ok_iff.1 hunit).1⟩⟩
  · rintro ⟨code, hread, hcode⟩
    obtain ⟨statements, hstatements⟩ := (haccepts code).2 hcode
    exact ⟨(⟨_, statements⟩, _), unit_ok_iff.2
      ⟨code, areRead_iff.1 hread, ofInstructions_ok_iff.2 ⟨hstatements, rfl⟩, rfl⟩⟩

/-- A run over lines that become a unit. -/
theorem run_ok (h : emitter.unit lines = .ok (unit, counts)) : emitter.run lines =
    (.ok (unit.text emitter.indent), { emitter with
      held := [], needsMath := unit.needsMath, counts := some counts }) := by
  rw [run, Emit.generate_ok h]

/-- A run over other lines. -/
theorem run_error {error : EmitError} (h : emitter.unit lines = .error error) :
    ∃ held needsMath, emitter.run lines = (.error error, { emitter with held, needsMath }) := by
  obtain ⟨held, needsMath, hrun⟩ := Emit.generate_error h
  exact ⟨held, needsMath, by rw [run, hrun]⟩

/-- A run leaves the table and the indentation alone. -/
theorem run_keeps (emitter : Emitter) (lines : List String) :
    (emitter.run lines).2.table = emitter.table ∧
      (emitter.run lines).2.indent = emitter.indent := by
  cases hunit : emitter.unit lines with
  | ok result => exact run_ok hunit ▸ ⟨rfl, rfl⟩
  | error error =>
    obtain ⟨held, needsMath, hrun⟩ := run_error hunit
    exact hrun ▸ ⟨rfl, rfl⟩

/-- So do several runs, one after the other. -/
theorem runs_keep (history : List (List String)) (emitter : Emitter) :
    (history.foldl (fun emitter lines => (emitter.run lines).2) emitter).table = emitter.table ∧
      (history.foldl (fun emitter lines => (emitter.run lines).2) emitter).indent =
        emitter.indent := by
  induction history generalizing emitter with
  | nil => exact ⟨rfl, rfl⟩
  | cons lines history ih =>
    obtain ⟨htable, hindent⟩ := ih (emitter.run lines).2
    rw [List.foldl_cons, htable, hindent]
    exact run_keeps emitter lines

/-- What an emitter accepts, whatever runs there have been before, and that it loses no parameter.
A run succeeds iff every line that is not blank is read as an instruction and each of them fits the
parameters since the last call. Then it has the text and the numbers of the first run of a new
emitter; the prints take all parameters in order, and every other instruction has become a
statement. A run that fails leaves the numbers as they were. -/
theorem run_history (table : Table) (indent : String) (history : List (List String))
    (lines : List String) :
    let fresh : Emitter := { table, indent }
    let emitter := history.foldl (fun emitter lines => (emitter.run lines).2) fresh
    (emitter.run lines).1 = (fresh.run lines).1 ∧ (emitter.run lines).2.table = table ∧
      ((∃ text, (emitter.run lines).1 = .ok text) ↔
        ∃ code, AreRead lines code ∧ Accepts table code) ∧
      (∀ text, (emitter.run lines).1 = .ok text → ∃ (code : List Instruction) (unit : CUnit)
          (counts : EmitCounts), AreRead lines code ∧ fresh.unit lines = .ok (unit, counts) ∧
          text = unit.text indent ∧
          unit.statements.flatMap CStatement.printed = params code ∧
          unit.statements.length + (params code).length = code.length ∧
          counts = ⟨code.length, unit.declared.length, unit.statements.length⟩ ∧
          (emitter.run lines).2.counts = some counts ∧ (fresh.run lines).2.counts = some counts) ∧
      ∀ error, (emitter.run lines).1 = .error error →
        (emitter.run lines).2.counts = emitter.counts := by
  intro fresh emitter
  obtain ⟨htable, hindent⟩ : emitter.table = table ∧ emitter.indent = indent :=
    runs_keep history fresh
  have hunit : emitter.unit lines = fresh.unit lines := by
    rw [Emitter.unit, Emitter.unit, htable]
  have haccepts : (∃ result, fresh.unit lines = .ok result) ↔
      ∃ code, AreRead lines code ∧ Accepts table code := exists_unit_iff
  cases hfresh : fresh.unit lines with
  | ok result =>
    obtain ⟨unit, counts⟩ := result
    obtain ⟨code, hread, hcode, hcounts⟩ := unit_ok_iff.1 hfresh
    obtain ⟨hprinted, hlength⟩ := printed_statementsOf (ofInstructions_ok_iff.1 hcode).1
    rw [run_ok (hunit.trans hfresh), run_ok hfresh, hindent]
    refine ⟨rfl, htable, iff_of_true ⟨_, rfl⟩ (haccepts.1 ⟨_, hfresh⟩), ?_, by rintro _ ⟨⟩⟩
    rintro _ ⟨⟩
    exact ⟨code, unit, counts, areRead_iff.2 hread, rfl, rfl, hprinted, hlength, hcounts, rfl, rfl⟩
  | error error =>
    obtain ⟨held, needsMath, hrun⟩ := run_error (hunit.trans hfresh)
    obtain ⟨held', needsMath', hfirst⟩ := run_error hfresh
    rw [hrun, hfirst]
    refine ⟨rfl, htable, iff_of_false (by rintro ⟨_, ⟨⟩⟩) fun h => ?_, by rintro _ ⟨⟩,
      fun _ _ => rfl⟩
    obtain ⟨result, hresult⟩ := haccepts.2 h
    cases hfresh.symm.trans hresult

/-- A run that is left with a parameter does not disturb the next one, whose parameters stand on
both sides of a label. -/
theorem run_history_leftover : ∃ emitter : Emitter,
    emitter = [["param left"]].foldl (fun emitter lines => (run emitter lines).2)
      { table := ⟨[⟨"x", .int, true, false⟩], by decide⟩, indent := "  " } ∧
    emitter.held = ["left"] ∧
    (emitter.run ["param \"%d\"", "L1:", " ", "param x", "call printf, 2"]).1 =
      .ok ("#include <stdio.h>\n#include <stdbool.h>\nint main()\x7b\n" ++
        "  int x;\n  L1: ;\n  printf(\"%d\", x);\n  return 0;\n\x7d\n") ∧
    ∃ (code : List Instruction) (unit : CUnit),
      AreRead ["param \"%d\"", "L1:", " ", "param x", "call printf, 2"] code ∧
        unit.statements.flatMap CStatement.printed = params code ∧
        (emitter.run ["param \"%d\"", "L1:", " ", "param x", "call printf, 2"]).2.counts =
          some ⟨code.length, unit.declared.length, unit.statements.length⟩ := by
  obtain ⟨-, -, -, hok, -⟩ := run_history ⟨[⟨"x", .int, true, false⟩], by decide⟩ "  "
    [["param left"]] ["param \"%d\"", "L1:", " ", "param x", "call printf, 2"]
  refine ⟨_, rfl, by decide +kernel, (and_iff_left_of_imp fun htext => ?_).2 (by decide +kernel)⟩
  obtain ⟨code, unit, counts, hread, -, -, hprinted, -, rfl, hcounts, -⟩ := hok _ htext
  exact ⟨code, unit, hread, hprinted, hcounts⟩

end Emitter

end ThreeAddress
