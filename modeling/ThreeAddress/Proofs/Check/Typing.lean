import Mathlib.Data.List.Nodup
import ThreeAddress.Proofs.Grammar.Derivation
import ThreeAddress.Typed.Check

/-!
# Well-typed programs

What makes a program well-typed, said without a table. What it does with names has to be in order
(`IsOrdered`): the text is read once, and every mention of a name is allowed by the mentions in
front of it. And there have to be types for the names, the same everywhere in the program, under
which every expression has a type (`Tree.HasType`) and every value and condition the right one
(`Tree.Agrees`).
-/

namespace ThreeAddress

/-! ## The order of names -/

/-- What a program does with a name. A declaration tells whether the name may be assigned to later
and whether it has a first value. -/
inductive Mention where
  | use (name : String)
  | declare (name : String) (assignable hasValue : Bool)
  | reassign (name : String)
  deriving DecidableEq

namespace Mention

/-- The name that is declared. -/
def declared? : Mention → Option String
  | declare name _ _ => some name
  | use _ | reassign _ => none

/-- The name that has a value from then on. -/
def assigned? : Mention → Option String
  | declare name _ hasValue => if hasValue then some name else none
  | reassign name => some name
  | use _ => none

end Mention

/-- The mentions of names are in order: no name is declared twice, what is reassigned has been
declared as assignable before, and what is used has got a value before. -/
structure IsOrdered (mentions : List Mention) : Prop where
  nodup : (mentions.filterMap Mention.declared?).Nodup
  reassign {before after : List Mention} {name : String} :
    mentions = before ++ .reassign name :: after → ∃ hasValue, .declare name true hasValue ∈ before
  use {before after : List Mention} {name : String} :
    mentions = before ++ .use name :: after → name ∈ before.filterMap Mention.assigned?

namespace Tree

/-- Whether a tree is missing. -/
def isAbsent : Tree → Bool
  | absent => true
  | _ => false

mutual
/-- The mentions of names in a tree, in the order of the text. A name that gets a value has it
after everything that is mentioned in the value. -/
def mentions : Tree → List Mention
  | absent | bare _ | literal .. | input _ => []
  | var name _ => [.use name]
  | assignment name value _ => mentions value ++ [.reassign name]
  | letFixed name value _ => mentions value ++ [.declare name false true]
  | letMutable name value _ => mentions value ++ [.declare name true !value.isAbsent]
  | block trees _ | output _ trees _ => mentionsAll trees
  | ifElse condition body tail _ | elseIf condition body tail _ =>
    mentions condition ++ mentions body ++ mentions tail
  | otherwise inner _ | operation _ inner _ | negation inner _ | group inner _ | minus inner _ =>
    mentions inner
  | loop first second _ | comparison first second _ => mentions first ++ mentions second
  | chain _ first operations _ => mentions first ++ mentionsAll operations

/-- The mentions of names in trees. -/
def mentionsAll : List Tree → List Mention
  | [] => []
  | tree :: trees => mentions tree ++ mentionsAll trees
end

/-! ## Types -/

/-- The operands of a chain. -/
def operands (first : Tree) (operations : List Tree) : List Tree :=
  first :: operations.map operand

/-- The types of expressions, given those of the names. Logical operators take truth values and
have one. Arithmetic ones take numbers; they have a floating-point number as soon as one of the
operands is one, else an integer. A text is no value. -/
inductive HasType (types : String → DataType) : Tree → DataType → Prop where
  | var {name : String} {line : Line} : HasType types (.var name line) (types name)
  | int {lexeme : String} {line : Line} : HasType types (.literal .intLit lexeme line) .int
  | float {lexeme : String} {line : Line} : HasType types (.literal .floatLit lexeme line) .float
  | char {lexeme : String} {line : Line} : HasType types (.literal .charLit lexeme line) .char
  | bool {lexeme : String} {line : Line} : HasType types (.literal .boolLit lexeme line) .bool
  | input {line : Line} : HasType types (.input line) .int
  | group {inner : Tree} {type : DataType} {line : Line} : HasType types inner type →
      HasType types (.group inner line) type
  | minus {operand : Tree} {type : DataType} {line : Line} : HasType types operand type →
      type.isArithmetic = true →
      HasType types (.minus operand line) (if type = .float then .float else .int)
  | negation {operand : Tree} {line : Line} : HasType types operand .bool →
      HasType types (.negation operand line) .bool
  | comparison {left right : Tree} {first second : DataType} {operator : String}
      {operatorLine line : Line} : HasType types left first → HasType types right second →
      first.isArithmetic = true → second.isArithmetic = true →
      HasType types (.comparison left (.operation operator right operatorLine) line) .bool
  | single {level : Level} {first : Tree} {type : DataType} {line : Line} :
      HasType types first type → HasType types (.chain level first [] line) type
  | logical {level : Level} {first : Tree} {operations : List Tree} {line : Line} :
      level = .or ∨ level = .and → operations ≠ [] →
      (∀ operand ∈ operands first operations, HasType types operand .bool) →
      HasType types (.chain level first operations line) .bool
  | arithmetic {level : Level} {first : Tree} {operations : List Tree} {line : Line}
      {typeOf : Tree → DataType} : level = .sum ∨ level = .product → operations ≠ [] →
      (∀ operand ∈ operands first operations, HasType types operand (typeOf operand)) →
      (∀ operand ∈ operands first operations, (typeOf operand).isArithmetic = true) →
      HasType types (.chain level first operations line)
        (if ∃ operand ∈ operands first operations, typeOf operand = .float then .float else .int)

/-- Statements that agree with the types of the names: every value has exactly the type of the
name that it is given to, every condition is a truth value, and every argument of a print has a
type. -/
inductive Agrees (types : String → DataType) : Tree → Prop where
  | assignment {name : String} {value : Tree} {line : Line} : value.HasType types (types name) →
      Agrees types (.assignment name value line)
  | letFixed {name : String} {value : Tree} {line : Line} : value.HasType types (types name) →
      Agrees types (.letFixed name value line)
  | letUnset {name : String} {line : Line} : Agrees types (.letMutable name .absent line)
  | letMutable {name : String} {value : Tree} {line : Line} : value.HasType types (types name) →
      Agrees types (.letMutable name value line)
  | ifElse {condition body tail : Tree} {line : Line} : condition.HasType types .bool →
      Agrees types body → Agrees types tail → Agrees types (.ifElse condition body tail line)
  | elseIf {condition body tail : Tree} {line : Line} : condition.HasType types .bool →
      Agrees types body → Agrees types tail → Agrees types (.elseIf condition body tail line)
  | otherwise {body : Tree} {line : Line} : Agrees types body →
      Agrees types (.otherwise body line)
  | noElse : Agrees types .absent
  | loop {condition body : Tree} {line : Line} : condition.HasType types .bool →
      Agrees types body → Agrees types (.loop condition body line)
  | output {format : String} {arguments : List Tree} {line : Line} :
      (∀ argument ∈ arguments, ∃ type, argument.HasType types type) →
      Agrees types (.output format arguments line)
  | block {statements : List Tree} {line : Line} :
      (∀ statement ∈ statements, Agrees types statement) →
      Agrees types (.block statements line)

/-- A well-typed program, given the types of the names: its mentions of names are in order, values
of the types can be stored, and everything agrees with them. -/
structure IsWellTyped (types : String → DataType) (tree : Tree) : Prop where
  ordered : IsOrdered tree.mentions
  storable : ∀ name, (types name).isStorable = true
  agrees : tree.Agrees types

end Tree

/-! ## Facts about the order -/

namespace IsOrdered

variable {mentions before : List Mention} {name : String}

/-- Nothing is mentioned. -/
theorem nil : IsOrdered [] where
  nodup := .nil
  reassign h := by simp at h
  use h := by simp at h

/-- The mentions in front of others are in order. -/
theorem of_append {after : List Mention} (h : IsOrdered (before ++ after)) :
    IsOrdered before where
  nodup := by
    have hnodup := h.nodup
    rw [List.filterMap_append] at hnodup
    exact (List.nodup_append.1 hnodup).1
  reassign heq := h.reassign (by rw [heq, List.append_assoc, List.cons_append])
  use heq := h.use (by rw [heq, List.append_assoc, List.cons_append])

/-- Whether a mention is allowed behind others. -/
def Allows (before : List Mention) : Mention → Prop
  | .use name => name ∈ before.filterMap Mention.assigned?
  | .declare name _ _ => name ∉ before.filterMap Mention.declared?
  | .reassign name => ∃ hasValue, .declare name true hasValue ∈ before

/-- A list with a last item, cut in front of an item. -/
theorem concat_eq_append {Item : Type} {items front behind : List Item} {last item : Item}
    (h : items ++ [last] = front ++ item :: behind) :
    (front = items ∧ item = last) ∨
      ∃ rest, behind = rest ++ [last] ∧ items = front ++ item :: rest := by
  rcases List.eq_nil_or_concat behind with rfl | ⟨rest, other, rfl⟩
  · obtain ⟨rfl, hlast⟩ := List.append_inj' h rfl
    cases hlast
    exact .inl ⟨rfl, rfl⟩
  · rw [List.concat_eq_append, ← List.cons_append, ← List.append_assoc] at h
    obtain ⟨rfl, hlast⟩ := List.append_inj' h rfl
    cases hlast
    exact .inr ⟨rest, List.concat_eq_append, rfl⟩

/-- A mention behind others is in order iff they allow it. -/
theorem concat_iff {mention : Mention} :
    IsOrdered (before ++ [mention]) ↔ IsOrdered before ∧ Allows before mention := by
  constructor
  · refine fun h => ⟨h.of_append, ?_⟩
    cases mention with
    | use name => exact h.use rfl
    | reassign name => exact h.reassign rfl
    | declare name assignable hasValue =>
      have hnodup := h.nodup
      rw [List.filterMap_append] at hnodup
      exact fun hmem => (List.nodup_append.1 hnodup).2.2 _ hmem _ (.head _) rfl
  · rintro ⟨h, hallows⟩
    refine ⟨?_, fun heq => ?_, fun heq => ?_⟩
    · rw [List.filterMap_append, List.nodup_append]
      refine ⟨h.nodup, ?_, ?_⟩
      · cases mention with
        | use | reassign => exact .nil
        | declare name assignable hasValue => exact List.nodup_singleton name
      · intro declared hdeclared other hother
        cases mention with
        | use | reassign => cases hother
        | declare name assignable hasValue =>
          rintro rfl
          rw [List.mem_singleton.1 hother] at hdeclared
          exact hallows hdeclared
    · rcases concat_eq_append heq with ⟨rfl, rfl⟩ | ⟨rest, -, hbefore⟩
      · exact hallows
      · exact h.reassign hbefore
    · rcases concat_eq_append heq with ⟨rfl, rfl⟩ | ⟨rest, -, hbefore⟩
      · exact hallows
      · exact h.use hbefore

end IsOrdered

/-! ## Facts about types -/

namespace Tree

variable {types : String → DataType} {tree : Tree} {type other : DataType}

/-- An expression has one type only. -/
theorem HasType.unique (h : tree.HasType types type) (h' : tree.HasType types other) :
    type = other := by
  induction h generalizing other with
  | var | int | float | char | bool | input => cases h'; rfl
  | group _ ih =>
    cases h' with
    | group h' => exact ih h'
  | minus _ _ ih =>
    cases h' with
    | minus h' => rw [ih h']
  | negation | comparison => cases h'; rfl
  | single _ ih =>
    cases h' with
    | single h' => exact ih h'
    | logical _ hne | arithmetic _ hne => exact absurd rfl hne
  | logical hlevel hne =>
    cases h' with
    | single => exact absurd rfl hne
    | logical => rfl
    | arithmetic hlevel' => rcases hlevel with rfl | rfl <;> simp at hlevel'
  | arithmetic hlevel hne _ _ ih =>
    cases h' with
    | single => exact absurd rfl hne
    | logical hlevel' => rcases hlevel with rfl | rfl <;> simp at hlevel'
    | arithmetic _ _ hoperands =>
      have hsame := fun operand hmem => ih operand hmem (hoperands operand hmem)
      have hiff := exists_congr fun operand => and_congr_right fun hmem =>
        iff_of_eq (congrArg (· = DataType.float) (hsame operand hmem))
      exact if_congr hiff rfl rfl

/-- The mentions of trees, one tree after the other. -/
theorem mentionsAll_append (trees others : List Tree) :
    mentionsAll (trees ++ others) = mentionsAll trees ++ mentionsAll others := by
  induction trees with
  | nil => rfl
  | cons tree trees ih => rw [List.cons_append, mentionsAll, mentionsAll, ih, List.append_assoc]

end Tree

end ThreeAddress
