import ThreeAddress.Proofs.Check.Soundness
import ThreeAddress.Proofs.Check.Typing

/-!
# Checked programs are well-typed

What the checker accepts is well-typed. The table after a part of the program tells which mentions
of names there were (`Table.Records`), so each further mention that the checker lets through is in
order. And a type that the table knows never changes, so the types of the last table are types for
all names under which everything in the program agrees (`Tree.Checks.agrees`). They are the only
ones: a name that has a value gets the type of its first value (`Tree.Checks.holds`).
-/

namespace ThreeAddress

/-! ## Types in the table -/

namespace Table

/-- The types that a table knows are those of the names. -/
def Holds (types : String → DataType) (table : Table) : Prop :=
  ∀ name entry, table.find? name = some entry → entry.type ≠ .unknown → entry.type = types name

variable {types : String → DataType} {table after : Table} {name : String} {type : DataType}

/-- Nothing is known. -/
theorem holds_empty : Holds types empty := nofun

/-- What a table knows is known later. -/
theorem Holds.of_grows (h : after.Holds types) (hgrows : table.Grows after) :
    table.Holds types :=
  fun name entry hfind hknown => h name entry (hgrows.known hfind hknown) hknown

/-- A name is declared with its type, or with none. -/
theorem Holds.declare {assignable : Bool} (h : table.Holds types)
    (htype : type ≠ .unknown → type = types name)
    (hdeclare : table.declare name type assignable = .ok after) : after.Holds types := by
  obtain ⟨isNew, rfl⟩ := declare_ok hdeclare
  intro other entry hfind hknown
  by_cases hname : other = name
  · subst hname
    rw [find?_push_self ⟨other, type, assignable, false⟩ isNew] at hfind
    cases hfind
    exact htype hknown
  · rw [find?_push_of_ne isNew hname] at hfind
    exact h other entry hfind hknown

/-- A name gets a value of its type. -/
theorem Holds.resolve (h : table.Holds types)
    (hresolve : table.resolve name (types name) = .ok after) : after.Holds types := by
  obtain ⟨_, -, ⟨-, rfl⟩ | ⟨-, -, rfl⟩⟩ := resolve_ok hresolve
  · intro other entry hfind hknown
    rw [find?_setType] at hfind
    obtain ⟨old, hold, rfl⟩ := Option.map_eq_some_iff.1 hfind
    obtain ⟨-, rfl⟩ := mem_of_find? hold
    rw [retype] at hknown ⊢
    split at hknown
    · next hname =>
      rw [if_pos hname, hname]
    · next hname =>
      rw [if_neg hname]
      exact h old.name old hold hknown
  · exact h

end Table

namespace Tree

variable {types : String → DataType} {table after : Table} {tree first right : Tree}
  {node : Node} {level : Level} {operations : List Tree} {line operatorLine : Line}
  {operator : String} {type left second : DataType}

/-- The operands of a longer chain. -/
theorem operands_concat : operands first (operations ++ [.operation operator right operatorLine]) =
    operands first operations ++ [right] := by
  rw [operands, operands, List.map_append, List.cons_append]
  rfl

/-! ## Rows of operations -/

/-- The type of arithmetic is that of a floating-point number iff the condition holds. -/
theorem ite_float_iff {holds : Prop} [Decidable holds] :
    (if holds then DataType.float else DataType.int) = .float ↔ holds := by
  split
  · next h => exact ⟨fun _ => h, fun _ => rfl⟩
  · next h => exact ⟨nofun, fun h' => absurd h' h⟩

/-- A row of at least one arithmetic operation. -/
theorem HasType.of_numbers (hlevel : level = .sum ∨ level = .product) (hne : operations ≠ [])
    (h : ∀ operand ∈ operands first operations,
      ∃ type, operand.HasType types type ∧ type.isArithmetic = true)
    (htype : type = .float ∨ type = .int)
    (hfloat : type = .float ↔ ∃ operand ∈ operands first operations, operand.HasType types .float) :
    (chain level first operations line).HasType types type := by
  have hall (operand : Tree) : ∃ type, operand ∈ operands first operations →
      operand.HasType types type ∧ type.isArithmetic = true := by
    by_cases hmem : operand ∈ operands first operations
    · obtain ⟨type, h⟩ := h operand hmem
      exact ⟨type, fun _ => h⟩
    · exact ⟨.int, fun h => absurd h hmem⟩
  choose typeOf htypeOf using hall
  have hresult : type = if ∃ operand ∈ operands first operations, typeOf operand = .float
      then .float else .int := by
    split
    · next hsome =>
      obtain ⟨operand, hmem, hoperand⟩ := hsome
      exact hfloat.2 ⟨operand, hmem, hoperand ▸ (htypeOf operand hmem).1⟩
    · next hnone =>
      refine htype.resolve_left fun hsome => hnone ?_
      obtain ⟨operand, hmem, hoperand⟩ := hfloat.1 hsome
      exact ⟨operand, hmem, ((htypeOf operand hmem).1).unique hoperand⟩
  rw [hresult]
  exact .arithmetic hlevel hne (fun operand hmem => (htypeOf operand hmem).1)
    fun operand hmem => (htypeOf operand hmem).2

/-- The operands of a row of arithmetic operations are numbers, and the row is a floating-point
number iff one of them is. -/
theorem HasType.numbers (h : (chain level first operations line).HasType types type)
    (hlevel : level = .sum ∨ level = .product) (htype : type.isArithmetic = true) :
    (∀ operand ∈ operands first operations,
      ∃ type, operand.HasType types type ∧ type.isArithmetic = true) ∧
    (type = .float ↔ ∃ operand ∈ operands first operations, operand.HasType types .float) := by
  cases h with
  | single hfirst =>
    refine ⟨List.forall_mem_singleton.2 ⟨type, hfirst, htype⟩, ?_⟩
    constructor
    · rintro rfl
      exact ⟨first, .head _, hfirst⟩
    · rintro ⟨operand, hmem, hoperand⟩
      rw [operands, List.map_nil, List.mem_singleton] at hmem
      exact hfirst.unique (hmem ▸ hoperand)
  | logical hlogical => rcases hlevel with rfl | rfl <;> simp at hlogical
  | @arithmetic _ _ _ _ typeOf _ _ hoperands hnumbers =>
    refine ⟨fun operand hmem => ⟨_, hoperands operand hmem, hnumbers operand hmem⟩, ?_⟩
    have hsame : (∃ operand ∈ operands first operations, operand.HasType types .float) ↔
        ∃ operand ∈ operands first operations, typeOf operand = .float :=
      exists_congr fun operand => and_congr_right fun hmem =>
        ⟨fun h => (hoperands operand hmem).unique h, fun h => h ▸ hoperands operand hmem⟩
    rw [hsame]
    exact ite_float_iff

/-- The operands of a row of logical operations are truth values. -/
theorem HasType.truths (h : (chain level first operations line).HasType types .bool)
    (hlevel : level = .or ∨ level = .and) :
    ∀ operand ∈ operands first operations, operand.HasType types .bool := by
  generalize htype : DataType.bool = type at h
  cases h with
  | single hfirst =>
    subst htype
    exact List.forall_mem_singleton.2 hfirst
  | logical _ _ hoperands => exact hoperands
  | arithmetic harithmetic => rcases hlevel with rfl | rfl <;> simp at harithmetic

/-- A row, and one more operation. -/
theorem HasType.joined (h : (chain level first operations line).HasType types left)
    (h' : right.HasType types second) (hleft : level.accepts left = true)
    (hsecond : level.accepts second = true) :
    (chain level first (operations ++ [.operation operator right operatorLine]) line).HasType types
      (level.result left second) := by
  have hne : operations ++ [operation operator right operatorLine] ≠ [] := by simp
  have htruths (hlevel : level = .or ∨ level = .and) (hleft : left = .bool)
      (hsecond : second = .bool) :
      (chain level first (operations ++ [.operation operator right operatorLine]) line).HasType
        types .bool := by
    subst hleft hsecond
    refine .logical hlevel hne ?_
    rw [operands_concat]
    exact List.forall_mem_append.2 ⟨h.truths hlevel, List.forall_mem_singleton.2 h'⟩
  have hnumbers (hlevel : level = .sum ∨ level = .product) (hleft : left.isArithmetic = true)
      (hsecond : second.isArithmetic = true) :
      (chain level first (operations ++ [.operation operator right operatorLine]) line).HasType
        types (DataType.arithmeticResult [left, second]) := by
    obtain ⟨hoperands, hfloat⟩ := h.numbers hlevel hleft
    rw [DataType.arithmeticResult_pair]
    refine .of_numbers hlevel hne ?_ ?_ ?_
    · rw [operands_concat]
      exact List.forall_mem_append.2 ⟨hoperands, List.forall_mem_singleton.2 ⟨_, h', hsecond⟩⟩
    · rw [DataType.join]
      split <;> simp
    · have hright : right.HasType types .float ↔ second = .float :=
        ⟨fun h => h'.unique h, fun h => h ▸ h'⟩
      rw [operands_concat, DataType.join, ite_float_iff, hfloat, ← hright]
      simp only [List.mem_append, List.mem_singleton, or_and_right, exists_or, exists_eq_left]
  cases level with
  | or => exact htruths (.inl rfl) (of_decide_eq_true hleft) (of_decide_eq_true hsecond)
  | and => exact htruths (.inr rfl) (of_decide_eq_true hleft) (of_decide_eq_true hsecond)
  | sum => exact hnumbers (.inl rfl) hleft hsecond
  | product => exact hnumbers (.inr rfl) hleft hsecond

/-! ## Expressions -/

/-- A literal has the type of its kind. -/
theorem hasType_literal {kind : TokenKind} {lexeme : String}
    (h : Check.literalType? kind = some type) (hstring : type ≠ .string) :
    (literal kind lexeme line).HasType types type := by
  cases kind with
  | intLit => cases h; exact .int
  | floatLit => cases h; exact .float
  | charLit => cases h; exact .char
  | boolLit => cases h; exact .bool
  | stringLit => cases h; exact absurd rfl hstring
  | _ => cases h

/-- The node of an expression has a type that is known. -/
theorem Infers.type_ne_unknown (h : tree.Infers table node) : node.type ≠ .unknown := by
  have harithmetic (operands : List DataType) : DataType.arithmeticResult operands ≠ .unknown := by
    rw [DataType.arithmeticResult]
    split <;> simp
  induction h with
  | var _ hknown => exact hknown
  | literal hkind hstring =>
    rintro rfl
    exact nomatch isStorable_of_literalType? hkind hstring
  | input | negation | comparison => exact nofun
  | group _ ih | single _ ih => exact ih
  | minus => exact harithmetic _
  | @joined level =>
    cases level with
    | or | and => exact nofun
    | sum | product => exact harithmetic _

/-- The node of an expression has the type of the expression, as far as the table knows the types
of the names. -/
theorem Infers.hasType (h : tree.Infers table node) (hholds : table.Holds types) :
    tree.HasType types node.type := by
  induction h with
  | @var name line entry hfind hknown =>
    show HasType types _ entry.type
    rw [hholds name entry hfind hknown]
    exact .var
  | literal hkind hstring => exact hasType_literal hkind hstring
  | input => exact .input
  | group _ ih => exact .group ih
  | @minus operand node line _ harithmetic ih =>
    have hresult : DataType.arithmeticResult [node.type] =
        if node.type = .float then .float else .int := by
      cases node.type <;> rfl
    show HasType types _ (DataType.arithmeticResult [node.type])
    rw [hresult]
    exact .minus ih harithmetic
  | negation _ hbool ih => exact .negation (hbool ▸ ih)
  | comparison _ _ _ hleft hright ihLeft ihRight => exact .comparison ihLeft ihRight hleft hright
  | single _ ih => exact .single ih
  | joined _ _ _ hleft hsecond ihLeft ihRight => exact ihLeft.joined ihRight hleft hsecond

/-- Every argument has a node. -/
theorem Infers.exists_node {trees : List Tree} {nodes : List Node}
    (h : List.Forall₂ (Infers table) trees nodes) :
    ∀ tree ∈ trees, ∃ node, tree.Infers table node := by
  induction h with
  | nil => nofun
  | cons hfirst _ ih => exact List.forall_mem_cons.2 ⟨⟨_, hfirst⟩, ih⟩

/-! ## Statements -/

/-- What the checker accepts agrees with the types of the last table. -/
theorem Checks.agrees {nodes : List Node} (h : tree.Checks table nodes after)
    (hholds : after.Holds types) : tree.Agrees types := by
  induction h with
  | @assignment table after name entry value node line _ _ hvalue hresolve =>
    obtain ⟨entry, hfind, htype⟩ := Table.find?_of_resolve hresolve
    have hname : node.type = types name :=
      htype ▸ hholds name entry hfind (htype ▸ hvalue.type_ne_unknown)
    have hbefore := hholds.of_grows (Table.grows_of_resolve hresolve)
    exact .assignment (hname ▸ hvalue.hasType hbefore)
  | @letFixed table after name value node line hvalue hdeclare =>
    have hname := hholds name _ (Table.find?_of_declare hdeclare) hvalue.type_ne_unknown
    have hbefore := hholds.of_grows (Table.grows_of_declare hdeclare)
    exact .letFixed (hname ▸ hvalue.hasType hbefore)
  | letUnset => exact .letUnset
  | @letMutable table after name value node line hvalue hdeclare =>
    have hname := hholds name _ (Table.find?_of_declare hdeclare) hvalue.type_ne_unknown
    have hbefore := hholds.of_grows (Table.grows_of_declare hdeclare)
    exact .letMutable (hname ▸ hvalue.hasType hbefore)
  | ifElse htest hbool hbody _ htail ihBody ihTail =>
    have hbetween := hholds.of_grows htail.grows
    have hcondition := htest.hasType (hbetween.of_grows hbody.grows)
    exact .ifElse (hbool ▸ hcondition) (ihBody hbetween) (ihTail hholds)
  | elseIf htest hbool hbody _ htail ihBody ihTail =>
    have hbetween := hholds.of_grows htail.grows
    have hcondition := htest.hasType (hbetween.of_grows hbody.grows)
    exact .elseIf (hbool ▸ hcondition) (ihBody hbetween) (ihTail hholds)
  | otherwise _ ih => exact .otherwise (ih hholds)
  | noElse => exact .noElse
  | loop htest hbool hbody ih =>
    have hcondition := htest.hasType (hholds.of_grows hbody.grows)
    exact .loop (hbool ▸ hcondition) (ih hholds)
  | output harguments =>
    refine .output fun argument hmem => ?_
    obtain ⟨node, hnode⟩ := Infers.exists_node harguments argument hmem
    exact ⟨node.type, hnode.hasType hholds⟩
  | nil => exact .block nofun
  | cons _ _ hstatements ihStatement ihStatements =>
    have hstatement := ihStatement (hholds.of_grows hstatements.grows)
    cases ihStatements hholds with
    | block hothers => exact .block (List.forall_mem_cons.2 ⟨hstatement, hothers⟩)

/-- The types that the checker finds are those of the names, whatever types the names have under
which the tree agrees. -/
theorem Checks.holds {nodes : List Node} (h : tree.Checks table nodes after)
    (hholds : table.Holds types) (hagrees : tree.Agrees types) : after.Holds types := by
  induction h with
  | assignment _ _ hvalue hresolve =>
    cases hagrees with
    | assignment htype =>
      rw [(hvalue.hasType hholds).unique htype] at hresolve
      exact hholds.resolve hresolve
  | letFixed hvalue hdeclare =>
    cases hagrees with
    | letFixed htype =>
      exact hholds.declare (fun _ => (hvalue.hasType hholds).unique htype) hdeclare
  | letUnset hdeclare => exact hholds.declare (fun h => absurd rfl h) hdeclare
  | letMutable hvalue hdeclare =>
    cases hagrees with
    | letUnset => cases hvalue
    | letMutable htype =>
      exact hholds.declare (fun _ => (hvalue.hasType hholds).unique htype) hdeclare
  | ifElse _ _ _ _ _ ihBody ihTail =>
    cases hagrees with
    | ifElse _ hbody htail => exact ihTail (ihBody hholds hbody) htail
  | elseIf _ _ _ _ _ ihBody ihTail =>
    cases hagrees with
    | elseIf _ hbody htail => exact ihTail (ihBody hholds hbody) htail
  | otherwise _ ih =>
    cases hagrees with
    | otherwise hbody => exact ih hholds hbody
  | loop _ _ _ ih =>
    cases hagrees with
    | loop _ hbody => exact ih hholds hbody
  | output | noElse | nil => exact hholds
  | cons _ _ _ ihStatement ihStatements =>
    cases hagrees with
    | block hall =>
      obtain ⟨hstatement, hothers⟩ := List.forall_mem_cons.1 hall
      exact ihStatements (ihStatement hholds hstatement) (.block hothers)

end Tree

end ThreeAddress
