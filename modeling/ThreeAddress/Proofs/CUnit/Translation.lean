import ThreeAddress.Proofs.CUnit.Emission

/-!
# What statements code becomes

Code that can be emitted becomes its statements by a few rules (`CUnit.Becomes`). They carry the
parameters that are held back, and show where they are: only parameters and the print that takes
them stand where some are held back, and everything else becomes a statement of its own.
-/

namespace ThreeAddress.CUnit

open Sequence

/-- The statement that an instruction becomes by itself. -/
inductive Translates (table : Table) : Instruction → CStatement → Prop where
  | copy {target first : String} {type : DataType} : storage table target = .ok type →
      Translates table (.assign target (some first) none none) (.copy target first)
  | unary {target first operator : String} {type : DataType} : storage table target = .ok type →
      Translates table (.assign target (some first) (some operator) none)
        (.unary target operator first)
  | binary {target first operator second : String} {type : DataType} :
      storage table target = .ok type → ¬(operator = "%" ∧ type = .float) →
      Translates table (.assign target (some first) (some operator) (some second))
        (.binary target first operator second)
  | remainder {target first second : String} : storage table target = .ok .float →
      Translates table (.assign target (some first) (some "%") (some second))
        (.remainder target first second)
  | jump (goal : String) : Translates table (.jump goal) (.goto goal)
  | branch (condition goal : String) :
      Translates table (.branch condition goal) (.branch condition goal)
  | label (name : String) : Translates table (.label name) (.label name)
  | read {target : String} : storage table target = .ok .int →
      Translates table (.call "input" 0 (some target)) (.scan "\"%d\"" target)

/-- The statements that code becomes, where the given parameters are held back. -/
inductive Becomes (table : Table) : List String → List Instruction → List CStatement → Prop where
  | nil : Becomes table [] [] []
  | cons {instruction : Instruction} {statement : CStatement} {code : List Instruction}
      {statements : List CStatement} : Translates table instruction statement →
      Becomes table [] code statements →
      Becomes table [] (instruction :: code) (statement :: statements)
  | param {held : List String} {operand : String} {code : List Instruction}
      {statements : List CStatement} : Becomes table (held ++ [operand]) code statements →
      Becomes table held (.param operand :: code) statements
  | print {held : List String} {code : List Instruction} {statements : List CStatement} :
      held ≠ [] → Becomes table [] code statements →
      Becomes table held (.call "printf" held.length none :: code) (.print held :: statements)

variable {table : Table} {bound : Nat} {held operands : List String} {code : List Instruction}
  {statements : List CStatement}

/-- Parameters and the print that takes them. -/
theorem Becomes.params (h : Becomes table (held ++ operands) code statements) :
    Becomes table held (operands.map .param ++ code) statements := by
  induction operands generalizing held with
  | nil => rwa [List.append_nil] at h
  | cons operand operands ih =>
    rw [List.append_cons] at h
    exact .param (ih h)

/-- A statement and those behind it. -/
theorem cons_ok {first : Except EmitError CStatement} {others : Except EmitError (List CStatement)}
    (h : (do
      let statement ← first
      let statements ← others
      .ok (statement :: statements)) = Except.ok statements) :
    ∃ statement behind, first = .ok statement ∧ others = .ok behind ∧
      statements = statement :: behind := by
  obtain ⟨statement, hfirst, h⟩ := except_bind_ok.1 h
  obtain ⟨behind, hothers, heq⟩ := except_bind_ok.1 h
  cases heq
  exact ⟨statement, behind, hfirst, hothers, rfl⟩

/-- An assignment becomes a statement by itself. -/
theorem translates_assign {target first : String} {operator second : Option String}
    {statement : CStatement} (hsecond : operator = none → second = none)
    (h : assign table target (some first) operator second = .ok statement) :
    Translates table (.assign target (some first) operator second) statement := by
  rw [assign] at h
  obtain ⟨type, hstorage, hstatement⟩ := except_bind_ok.1 h
  cases operator with
  | none =>
    cases hsecond rfl
    cases hstatement
    exact .copy hstorage
  | some operator =>
    cases second with
    | none =>
      cases hstatement
      exact .unary hstorage
    | some second =>
      dsimp only at hstatement
      split at hstatement
      · next hremainder =>
        obtain ⟨rfl, rfl⟩ := hremainder
        cases hstatement
        exact .remainder hstorage
      · next hremainder =>
        cases hstatement
        exact .binary hstorage hremainder

/-- What a call reads into an integer. -/
theorem translates_read {target : String} {statement : CStatement}
    (hstorage : storage table target = .ok .int)
    (h : call table "input" 0 (some target) [] = .ok statement) :
    Translates table (.call "input" 0 (some target)) statement := by
  rw [call, if_neg (by simp), if_neg (by simp), if_pos rfl] at h
  simp only [List.isEmpty_nil, if_true] at h
  rw [CUnit.read, hstorage] at h
  cases h
  exact .read hstorage

/-- Code that can be emitted becomes its statements. -/
theorem IsEmitted.becomes (h : IsEmitted table bound code)
    (hstatements : statementsOf table [] code = .ok statements) :
    Becomes table [] code statements := by
  induction h generalizing statements with
  | nil =>
    cases hstatements
    exact .nil
  | cons hwritten halone _ ih =>
    cases hwritten with
    | copy | unary | binary =>
      rw [statementsOf] at hstatements
      obtain ⟨statement, behind, hassign, hbehind, rfl⟩ := cons_ok hstatements
      exact .cons (translates_assign (by simp) hassign) (ih hbehind)
    | @jump goal =>
      rw [statementsOf] at hstatements
      obtain ⟨_, behind, hgoto, hbehind, rfl⟩ := @cons_ok _ (.ok (.goto goal)) _ hstatements
      cases hgoto
      exact .cons (.jump goal) (ih hbehind)
    | @branch condition goal =>
      rw [statementsOf] at hstatements
      obtain ⟨_, behind, hbranch, hbehind, rfl⟩ :=
        @cons_ok _ (.ok (.branch condition goal)) _ hstatements
      cases hbranch
      exact .cons (.branch condition goal) (ih hbehind)
    | @label name =>
      rw [statementsOf] at hstatements
      obtain ⟨_, behind, hlabel, hbehind, rfl⟩ := @cons_ok _ (.ok (.label name)) _ hstatements
      cases hlabel
      exact .cons (.label name) (ih hbehind)
    | param | format => exact halone.elim
    | read =>
      obtain ⟨-, -, target, htarget, hstorage⟩ := halone
      cases htarget
      rw [statementsOf] at hstatements
      obtain ⟨statement, behind, hread, hbehind, rfl⟩ := cons_ok hstatements
      exact .cons (translates_read hstorage hread) (ih hbehind)
    | print =>
      exact absurd halone.1 (by decide)
  | @print operands code hne _ _ _ ih =>
    rw [statementsOf_params, List.nil_append, statementsOf] at hstatements
    obtain ⟨statement, behind, hprint, hbehind, rfl⟩ := cons_ok hstatements
    rw [call, if_neg (by simp), if_pos rfl, if_neg (by simpa using hne)] at hprint
    cases hprint
    exact .params (.print hne (ih hbehind))

end ThreeAddress.CUnit
