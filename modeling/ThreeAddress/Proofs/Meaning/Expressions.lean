import ThreeAddress.Proofs.Meaning.Machine

/-!
# The code of an expression computes its value

A world of the machine agrees with one of the program on the variables of the program; the machine
has temporaries besides. The code of an expression takes agreeing worlds to agreeing worlds, and
its operand then stands for the value of the expression. An expression without a value blocks the
machine.

An operand may be a variable that is read long after the code of its expression: what stays is the
memory of all names that were taken before, since every result goes into a new temporary.
-/

namespace ThreeAddress

variable {Value : Type}

namespace World

/-- The worlds of a program and of a machine agree: they have the same inputs and prints behind
them, and the same values of variables. -/
structure Agrees (users : Table) (source machine : World Value) : Prop where
  memory : ∀ name ∈ users, machine.memory name = source.memory name
  reads : machine.reads = source.reads
  events : machine.events = source.events

namespace Agrees

variable {users : Table} {source machine : World Value}

/-- A variable gets a value in both. -/
theorem store (h : source.Agrees users machine) (name : String) (value : Value) :
    (source.store name value).Agrees users (machine.store name value) := by
  refine ⟨fun other hother => ?_, h.reads, h.events⟩
  simp only [World.store, h.memory other hother]

/-- A temporary gets a value. -/
theorem store_of_not_mem (h : source.Agrees users machine) {name : String} (hname : name ∉ users)
    (value : Value) : source.Agrees users (machine.store name value) := by
  refine ⟨fun other hother => ?_, h.reads, h.events⟩
  have hne : other ≠ name := fun heq => hname (heq ▸ hother)
  show (if other = name then value else machine.memory other) = _
  rw [if_neg hne, h.memory other hother]

/-- Both print the same. -/
theorem print (h : source.Agrees users machine) (event : Event Value) :
    (source.print event).Agrees users (machine.print event) :=
  ⟨h.memory, h.reads, by rw [World.print, World.print, h.events]⟩

/-- Both take the same input. -/
theorem read {inputs : Nat → Option Value} (h : source.Agrees users machine) {value : Value}
    {after : World Value} (hread : source.read inputs = some (value, after)) :
    ∃ other, machine.read inputs = some (value, other) ∧ after.Agrees users other ∧
      other.memory = machine.memory := by
  obtain ⟨taken, htaken, heq⟩ := Option.map_eq_some_iff.1 hread
  cases heq
  refine ⟨{ machine with reads := machine.reads + 1 }, ?_, ⟨h.memory, ?_, h.events⟩, rfl⟩
  · rw [World.read, h.reads, htaken]
    rfl
  · rw [h.reads]

/-- Neither has a further input. -/
theorem read_none {inputs : Nat → Option Value} (h : source.Agrees users machine)
    (hread : source.read inputs = none) : machine.read inputs = none := by
  rw [World.read, Option.map_eq_none_iff] at hread ⊢
  rw [h.reads, hread]

end Agrees

end World

/-! ## Operands -/

/-- A name is a variable as an operand, and a literal is none. -/
def Piece.IsOperand (piece : Piece) : Prop :=
  (piece.1 = .ident → Instruction.isVariable piece.2 = true) ∧
    (piece.1.isLiteral = true → Instruction.isVariable piece.2 = false)

/-- The names and the literals of a tree can be told apart. -/
def Tree.IsReadable (tree : Tree) : Prop := ∀ piece ∈ tree.spelling, piece.IsOperand

/-- Temporaries are variables. -/
theorem Temporaries.isVariable_nameOf (number : Nat) :
    Instruction.isVariable (nameOf number) = true := by
  have hdigits : ∀ digits : String, digits.toList.head?.all Char.isDigit = true →
      Instruction.isVariable ("t" ++ digits) = true := by
    intro digits hdigits
    have hne : ∀ word : String, word.toList.tail.head?.all Char.isDigit = false →
        "t" ++ digits ≠ word := by
      rintro _ hword rfl
      rw [String.toList_append] at hword
      exact absurd hdigits (by simpa using hword)
    rw [Instruction.isVariable, String.toList_append]
    simp only [Bool.and_eq_true, bne_iff_ne]
    exact ⟨⟨rfl, hne "true" rfl⟩, hne "false" rfl⟩
  refine hdigits _ ?_
  show (Nat.repr number).toList.head?.all Char.isDigit = true
  rw [Nat.toList_repr]
  cases hhead : (Nat.toDigits 10 number).head? with
  | none => rfl
  | some digit => exact Nat.isDigit_of_mem_toDigits (by omega) (by omega) (List.mem_of_head? hhead)

namespace Machine

variable {meaning : Interpretation Value} {inputs : Nat → Option Value}
  {program : List Instruction} {users table between after : Table}
  {machine other last : Machine Value} {world : World Value}

/-- An operand stands for the same value after its variable has not changed. -/
theorem value_eq {operand : String} (h : Instruction.isVariable operand = true →
    other.world.memory operand = machine.world.memory operand) :
    other.value meaning operand = machine.value meaning operand := by
  unfold value
  split
  · next hvariable => exact h hvariable
  · rfl

variable (meaning inputs program) in
/-- The machine has come so many instructions further, to a world that agrees with that of the
program. -/
structure Arrives (users : Table) (machine : Machine Value) (count : Nat) (world : World Value)
    (other : Machine Value) : Prop where
  leads : Leads meaning inputs program machine other
  position : other.position = machine.position + count
  pending : other.pending = machine.pending
  agrees : world.Agrees users other.world

variable (meaning inputs program) in
/-- The machine has come further, and the names in the table have their old values. -/
structure Advances (users table : Table) (machine : Machine Value) (count : Nat)
    (world : World Value) (other : Machine Value) : Prop
    extends Arrives meaning inputs program users machine count world other where
  memory : ∀ name ∈ table, other.world.memory name = machine.world.memory name

/-- No instructions. -/
theorem Arrives.refl (h : world.Agrees users machine.world) :
    Arrives meaning inputs program users machine 0 world machine :=
  ⟨.refl machine, rfl, rfl, h⟩

/-- Some instructions, and then some more. -/
theorem Arrives.trans {count count' : Nat} {world' : World Value}
    (h : Arrives meaning inputs program users machine count world other)
    (h' : Arrives meaning inputs program users other count' world' last) :
    Arrives meaning inputs program users machine (count + count') world' last := by
  refine ⟨h.leads.trans h'.leads, ?_, h'.pending.trans h.pending, h'.agrees⟩
  rw [h'.position, h.position, Nat.add_assoc]

namespace Advances

/-- No instructions. -/
theorem refl (table : Table) (h : world.Agrees users machine.world) :
    Advances meaning inputs program users table machine 0 world machine :=
  ⟨.refl h, fun _ _ => rfl⟩

/-- Some instructions, and then some more. -/
theorem trans {count count' : Nat} {world' : World Value}
    (h : Advances meaning inputs program users table machine count world other)
    (h' : Advances meaning inputs program users between other count' world' last)
    (htable : ∀ name ∈ table, name ∈ between) :
    Advances meaning inputs program users table machine (count + count') world' last := by
  refine ⟨h.toArrives.trans h'.toArrives, fun name hname => ?_⟩
  rw [h'.memory name (htable name hname), h.memory name hname]

/-- A value is stored in a new temporary, in a world with the old memory. -/
theorem of_store {instruction : Instruction} {number : Nat} {type : DataType} {value : Value}
    {next : World Value} (hcode : program[machine.position]? = some instruction)
    (hperform : machine.perform meaning inputs program instruction =
      some (machine.next (next.store (Temporaries.nameOf number) value)))
    (hagrees : world.Agrees users next) (hmemory : next.memory = machine.world.memory)
    (husers : ∀ name ∈ users, name ∈ table)
    (htable : table.addTemporary (Temporaries.nameOf number) type = .ok after) :
    Advances meaning inputs program users table machine 1 world
      (machine.next (next.store (Temporaries.nameOf number) value)) := by
  obtain ⟨isNew, -⟩ := Table.addTemporary_ok htable
  refine ⟨⟨.of_perform hcode hperform, rfl, rfl,
    hagrees.store_of_not_mem (fun hmem => isNew (husers _ hmem)) value⟩, fun name hname => ?_⟩
  have hne : name ≠ Temporaries.nameOf number := fun heq => isNew (heq ▸ hname)
  show (if name = Temporaries.nameOf number then value else next.memory name) = _
  rw [if_neg hne, hmemory]

end Advances

variable (meaning inputs program) in
/-- The machine has come so many instructions further, to where an operand stands for a value. -/
structure Computes (users table after : Table) (machine : Machine Value) (count : Nat)
    (operand : String) (value : Value) (world : World Value) (other : Machine Value) : Prop
    extends Advances meaning inputs program users table machine count world other where
  value : other.value meaning operand = value
  known : Instruction.isVariable operand = true → operand ∈ after

/-- A value that is stored in a new temporary is that of the temporary. -/
theorem Computes.of_store {count number : Nat} {type : DataType} {value : Value}
    {next : World Value}
    (h : Advances meaning inputs program users table machine count world
      (other.next (next.store (Temporaries.nameOf number) value)))
    (htable : between.addTemporary (Temporaries.nameOf number) type = .ok after) :
    Computes meaning inputs program users table after machine count (Temporaries.nameOf number)
      value world (other.next (next.store (Temporaries.nameOf number) value)) := by
  refine ⟨h, ?_, fun _ => ?_⟩
  · rw [Machine.value, if_pos (Temporaries.isVariable_nameOf number)]
    exact if_pos rfl
  · exact Table.mem_iff_find?.2 ⟨_, Table.find?_of_addTemporary htable⟩

end Machine

/-! ## Expressions -/

namespace Tree

variable {meaning : Interpretation Value} {inputs : Nat → Option Value}
  {program : List Instruction} {users : Table} {tree left right : Tree} {node first second : Node}

variable (meaning inputs program users) in
/-- The code of the node has the value of the expression: the machine computes it, or it has none
and the machine is blocked. -/
def IsComputed (tree : Tree) (node : Node) : Prop :=
  ∀ ⦃table after : Table⦄ ⦃code : List Instruction⦄ ⦃operand : String⦄ ⦃machine : Machine Value⦄
    ⦃world : World Value⦄, node.Computes table code operand after →
    Instruction.StandsAt program machine.position code → machine.pending = [] →
    world.Agrees users machine.world → (∀ name ∈ users, name ∈ table) →
    (∃ value between last, tree.evaluate meaning inputs world = some (value, between) ∧
      Machine.Computes meaning inputs program users table after machine code.length operand value
        between last) ∨
    (tree.evaluate meaning inputs world = none ∧ machine.IsBlocked meaning inputs program)

namespace IsComputed

/-- An expression that has always the value of another one. -/
theorem of_eq {other : Tree}
    (heq : ∀ world, tree.evaluate meaning inputs world = other.evaluate meaning inputs world)
    (h : other.IsComputed meaning inputs program users node) :
    tree.IsComputed meaning inputs program users node := by
  intro table after code operand machine world hcomputes
  rw [heq]
  exact h hcomputes

/-- A variable is its own operand. -/
theorem var {name : String} {line : Line} {mark : Mark}
    (hvariable : Instruction.isVariable name = true) (hknown : name ∈ users) :
    IsComputed meaning inputs program users (.var name line) (.var name mark) := by
  intro table after code operand machine world hcomputes _ _ hagrees husers
  cases hcomputes
  refine .inl ⟨_, _, machine, by rw [evaluate], .refl table hagrees, ?_, fun _ => husers _ hknown⟩
  rw [Machine.value, if_pos hvariable, hagrees.memory name hknown]

/-- A literal is its own operand. -/
theorem literal {kind : TokenKind} {lexeme : String} {line : Line} {mark : Mark}
    (hvariable : Instruction.isVariable lexeme = false) :
    IsComputed meaning inputs program users (.literal kind lexeme line) (.literal lexeme mark) := by
  intro table after code operand machine world hcomputes _ _ hagrees _
  cases hcomputes
  refine .inl ⟨_, _, machine, by rw [evaluate], .refl table hagrees, ?_, fun h => ?_⟩
  · rw [Machine.value, hvariable]
    rfl
  · rw [hvariable] at h
    cases h

/-- An input goes into a temporary. -/
theorem input {line : Line} {mark : Mark} :
    IsComputed meaning inputs program users (.input line) (.input mark) := by
  intro table after code operand machine world hcomputes hcode hpending hagrees husers
  cases hcomputes with
  | @input _ _ _ number htable =>
    have hperform : machine.perform meaning inputs program
        (.call "input" 0 (some (Temporaries.nameOf number))) =
        (machine.world.read inputs).map fun result =>
          machine.next (result.2.store (Temporaries.nameOf number) result.1) := by
      simp [Machine.perform, Machine.call, hpending]
    cases hread : world.read inputs with
    | none =>
      refine .inr ⟨by rw [evaluate, hread], .of_step hcode.1 ?_⟩
      rw [hperform, hagrees.read_none hread, Option.map_none]
    | some result =>
      obtain ⟨value, between⟩ := result
      obtain ⟨next, hnext, hagrees', hmemory⟩ := hagrees.read hread
      rw [hnext, Option.map_some] at hperform
      exact .inl ⟨value, between, _, by rw [evaluate, hread],
        .of_store (.of_store hcode.1 hperform hagrees' hmemory husers htable) htable⟩

/-- An operator in front of an operand. -/
theorem unary {operator : String} {operandTree : Tree} {operandNode : Node} {mark : Mark}
    (heq : ∀ world, tree.evaluate meaning inputs world =
      (operandTree.evaluate meaning inputs world).bind fun result =>
        (meaning.unary operator result.1).map fun value => (value, result.2))
    (h : operandTree.IsComputed meaning inputs program users operandNode) :
    tree.IsComputed meaning inputs program users (.unary operator operandNode mark) := by
  intro table after code operand machine world hcomputes hcode hpending hagrees husers
  cases hcomputes with
  | @unary _ between' _ _ _ _ code value number hoperand htable =>
  rw [Instruction.standsAt_append] at hcode
  rw [heq]
  rcases h hoperand hcode.1 hpending hagrees husers with
    ⟨held, between, next, heval, hnext⟩ | ⟨heval, hblocked⟩
  · have hinstruction := hcode.2.1
    rw [← hnext.position] at hinstruction
    have hperform : next.perform meaning inputs program
        (.assign (Temporaries.nameOf number) (some value) (some operator) none) =
        (meaning.unary operator held).map (next.store (Temporaries.nameOf number)) := by
      rw [Machine.perform, hnext.value]
    rw [heval, Option.bind_some]
    cases hresult : meaning.unary operator held with
    | none =>
      rw [hresult, Option.map_none] at hperform
      exact .inr ⟨rfl, hnext.leads.isBlocked (.of_step hinstruction hperform)⟩
    | some result =>
      rw [hresult, Option.map_some] at hperform
      have hkept : ∀ name ∈ table, name ∈ between' := fun _ => hoperand.grows.mem
      have hstored := Machine.Advances.of_store hinstruction hperform hnext.agrees rfl
        (fun name hname => hkept name (husers name hname)) htable
      rw [List.length_append]
      exact .inl ⟨result, between, _, rfl,
        .of_store (hnext.toAdvances.trans hstored hkept) htable⟩
  · exact .inr ⟨by rw [heval, Option.bind_none], hblocked⟩

/-- An operator between two operands. The first operand still stands for its value when the code
of the second has been run. -/
theorem binary {operator : String} {mark : Mark}
    (heq : ∀ world, tree.evaluate meaning inputs world =
      (left.evaluate meaning inputs world).bind fun leftResult =>
        (right.evaluate meaning inputs leftResult.2).bind fun rightResult =>
          (meaning.binary operator leftResult.1 rightResult.1).map fun value =>
            (value, rightResult.2))
    (hleft : left.IsComputed meaning inputs program users first)
    (hright : right.IsComputed meaning inputs program users second) :
    tree.IsComputed meaning inputs program users (.binary operator first second mark) := by
  intro table after code operand machine world hcomputes hcode hpending hagrees husers
  cases hcomputes with
  | @binary _ between₁ between₂ _ _ _ _ _ leftCode rightCode leftOperand rightOperand number
      hfirst hsecond htable =>
  have hkept₁ : ∀ name ∈ table, name ∈ between₁ := fun _ => hfirst.grows.mem
  have hkept₂ : ∀ name ∈ between₁, name ∈ between₂ := fun _ => hsecond.grows.mem
  rw [Instruction.standsAt_append, Instruction.standsAt_append] at hcode
  obtain ⟨hcodeLeft, hcodeRight, hinstruction, -⟩ := hcode
  rw [heq]
  rcases hleft hfirst hcodeLeft hpending hagrees husers with
    ⟨held₁, world₁, next₁, heval₁, hnext₁⟩ | ⟨heval₁, hblocked⟩
  swap
  · exact .inr ⟨by rw [heval₁, Option.bind_none], hblocked⟩
  rw [← hnext₁.position] at hcodeRight hinstruction
  rcases hright hsecond hcodeRight (hnext₁.pending.trans hpending) hnext₁.agrees
    (fun name hname => hkept₁ name (husers name hname)) with
    ⟨held₂, world₂, next₂, heval₂, hnext₂⟩ | ⟨heval₂, hblocked⟩
  swap
  · exact .inr ⟨by rw [heval₁, Option.bind_some, heval₂, Option.bind_none],
      hnext₁.leads.isBlocked hblocked⟩
  rw [← hnext₂.position] at hinstruction
  have hadvances := hnext₁.toAdvances.trans hnext₂.toAdvances hkept₁
  have hvalue₁ : next₂.value meaning leftOperand = held₁ := by
    rw [← hnext₁.value]
    exact Machine.value_eq fun hvariable => hnext₂.memory _ (hnext₁.known hvariable)
  have hperform : next₂.perform meaning inputs program
      (.assign (Temporaries.nameOf number) (some leftOperand) (some operator) (some rightOperand)) =
      (meaning.binary operator held₁ held₂).map (next₂.store (Temporaries.nameOf number)) := by
    rw [Machine.perform, hvalue₁, hnext₂.value]
  rw [heval₁, Option.bind_some, heval₂, Option.bind_some]
  cases hresult : meaning.binary operator held₁ held₂ with
  | none =>
    rw [hresult, Option.map_none] at hperform
    exact .inr ⟨rfl, hadvances.leads.isBlocked (.of_step hinstruction hperform)⟩
  | some result =>
    rw [hresult, Option.map_some] at hperform
    have hkept : ∀ name ∈ table, name ∈ between₂ := fun name hname =>
      hkept₂ name (hkept₁ name hname)
    have hstored := Machine.Advances.of_store hinstruction hperform hnext₂.agrees rfl
      (fun name hname => hkept name (husers name hname)) htable
    rw [List.length_append, List.length_append, ← Nat.add_assoc]
    exact .inl ⟨result, world₂, _, rfl, .of_store (hadvances.trans hstored hkept) htable⟩

end IsComputed

/-- A tree whose tokens are among those of a readable one is readable. -/
theorem IsReadable.mono {part : Tree} (h : tree.IsReadable)
    (hpart : part.spelling.Sublist tree.spelling) : part.IsReadable :=
  fun piece hpiece => h piece (hpart.subset hpiece)

/-- A part of a readable tree is readable. -/
theorem IsReadable.part {part : Tree} (h : tree.IsReadable) (hpart : part ∈ tree.parts) :
    part.IsReadable :=
  h.mono (spelling_sublist part hpart)

/-- An operator is applied to a value, if there is one. -/
theorem unary_eq (operator : String) (result : Option (Value × World Value)) :
    (do
      let (value, world) ← result
      let value ← meaning.unary operator value
      some (value, world)) =
      result.bind fun result =>
        (meaning.unary operator result.1).map fun value => (value, result.2) := by
  cases result with
  | none => rfl
  | some result =>
    show (meaning.unary operator result.1).bind _ = (meaning.unary operator result.1).map _
    cases meaning.unary operator result.1 <;> rfl

/-- An operator is applied to two values, if there are two. -/
theorem binary_eq (operator : String) (result : Option (Value × World Value))
    (next : World Value → Option (Value × World Value)) :
    (do
      let (first, world) ← result
      let (second, world) ← next world
      let value ← meaning.binary operator first second
      some (value, world)) =
      result.bind fun leftResult => (next leftResult.2).bind fun rightResult =>
        (meaning.binary operator leftResult.1 rightResult.1).map fun value =>
          (value, rightResult.2) := by
  cases result with
  | none => rfl
  | some result =>
    show (next result.2).bind _ = (next result.2).bind _
    cases next result.2 with
    | none => rfl
    | some result' =>
      show (meaning.binary operator result.1 result'.1).bind _ = (meaning.binary _ _ _).map _
      cases meaning.binary operator result.1 result'.1 <;> rfl

/-- A chain of one operand has the value of this operand. -/
theorem evaluate_single (level : Level) (line : Line) (world : World Value) :
    (chain level tree [] line).evaluate meaning inputs world =
      tree.evaluate meaning inputs world := by
  rw [evaluate]
  cases tree.evaluate meaning inputs world <;> rfl

/-- The last operator of a chain is carried out last. -/
theorem evaluate_joined {operations : List Tree} {operator : String} (level : Level)
    (operatorLine line : Line) (world : World Value) :
    (chain level left (operations ++ [operation operator right operatorLine]) line).evaluate
        meaning inputs world =
      ((chain level left operations line).evaluate meaning inputs world).bind fun leftResult =>
        (right.evaluate meaning inputs leftResult.2).bind fun rightResult =>
          (meaning.binary operator leftResult.1 rightResult.1).map fun value =>
            (value, rightResult.2) := by
  rw [evaluate, evaluate]
  cases left.evaluate meaning inputs world with
  | none => rfl
  | some result =>
    show evaluateOperations meaning inputs result.1 (operations ++ _) result.2 =
      (evaluateOperations meaning inputs result.1 operations result.2).bind _
    rw [evaluateOperations_append]
    congr 1
    funext between
    rw [evaluateOperations]
    cases right.evaluate meaning inputs between.2 with
    | none => rfl
    | some value =>
      show (meaning.binary operator between.1 value.1).bind _ = (meaning.binary _ _ _).map _
      cases meaning.binary operator between.1 value.1 <;> rfl

/-- The code of a checked expression has its value. -/
theorem Infers.isComputed {table : Table} (h : Infers table tree node)
    (hreadable : tree.IsReadable) (hknown : ∀ name ∈ table, name ∈ users) :
    tree.IsComputed meaning inputs program users node := by
  induction h with
  | var hfind =>
    have hmem := Table.mem_iff_find?.2 ⟨_, hfind⟩
    exact IsComputed.var ((hreadable _ (.head _)).1 rfl) (hknown _ hmem)
  | @literal kind lexeme line type htype =>
    refine IsComputed.literal ((hreadable _ (.head _)).2 ?_)
    cases kind <;> first | rfl | cases htype
  | input => exact IsComputed.input
  | group _ ih =>
    exact IsComputed.of_eq (fun world => by rw [evaluate]) (ih (hreadable.part (.head _)))
  | minus _ _ ih =>
    refine IsComputed.unary (fun world => ?_) (ih (hreadable.part (.head _)))
    rw [evaluate]
    exact unary_eq "-" _
  | negation _ _ ih =>
    refine IsComputed.unary (fun world => ?_) (ih (hreadable.part (.head _)))
    rw [evaluate]
    exact unary_eq "!" _
  | @comparison _ _ _ _ operator _ _ _ _ _ _ _ ihLeft ihRight =>
    have hleft := ihLeft (hreadable.part (.head _))
    have hright := ihRight ((hreadable.part (.tail _ (.head _))).part (.head _))
    refine IsComputed.binary (fun world => ?_) hleft hright
    rw [evaluate]
    exact binary_eq operator _ _
  | single _ ih =>
    exact IsComputed.of_eq (evaluate_single _ _) (ih (hreadable.part (.head _)))
  | @joined level _ _ _ _ _ _ operatorLine line _ _ _ _ _ ihLeft ihRight =>
    have hoperation := hreadable.part (.tail _ (List.mem_append_right _ (.head _)))
    have hleft := ihLeft (hreadable.mono (chain_sublist ..))
    have hright := ihRight (hoperation.part (.head _))
    exact IsComputed.binary (evaluate_joined level operatorLine line) hleft hright

end Tree

end ThreeAddress
