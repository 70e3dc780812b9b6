import ThreeAddress.CUnit.Emission
import ThreeAddress.Proofs.Meaning.Machine
import ThreeAddress.Proofs.Meaning.Process

/-!
# What a C unit means

The statements of a unit are run one after the other, over the same interpretations and inputs as
three-address code. An assignment needs a declared variable, and the type of that variable decides
on the rest: C has no remainder of floating-point numbers but by a function, and a format reads
values of one type only. A print evaluates all its arguments when it is reached.
-/

namespace ThreeAddress

/-- The type that a variable is declared with. -/
def CUnit.typeOf? (unit : CUnit) (name : String) : Option DataType :=
  (unit.declared.find? fun found => found.name == name).map (·.type)

/-- A unit in the course of a run. -/
structure CMachine (Value : Type) where
  /-- The place of the next statement. -/
  position : Nat
  world : World Value

namespace CMachine

variable {Value : Type} (meaning : Interpretation Value) (inputs : Nat → Option Value)
  (unit : CUnit)

/-- A unit before its first statement. -/
def start (memory : String → Value) : CMachine Value := ⟨0, ⟨memory, 0, []⟩⟩

/-- What an operand stands for. -/
def value (machine : CMachine Value) (operand : String) : Value :=
  if Instruction.isVariable operand then machine.world.memory operand else meaning.literal operand

/-- Goes on with the next statement in another world. -/
def next (machine : CMachine Value) (world : World Value) : CMachine Value :=
  ⟨machine.position + 1, world⟩

/-- Stores a value in a variable, which must be declared, and goes on with the next statement. -/
def store (machine : CMachine Value) (target : String) (value : Value) :
    Option (CMachine Value) :=
  (unit.typeOf? target).map fun _ => machine.next (machine.world.store target value)

/-- Goes on at a label, if there is one. -/
def goTo (machine : CMachine Value) (name : String) : Option (CMachine Value) :=
  (unit.statements.findIdx? fun statement => statement == .label name).map fun position =>
    { machine with position }

/-- Carries a statement of the unit out. -/
def perform (machine : CMachine Value) : CStatement → Option (CMachine Value)
  | .label _ => some (machine.next machine.world)
  | .goto name => machine.goTo unit name
  | .branch condition name =>
    (meaning.truth (machine.value meaning condition)).bind fun holds =>
      if holds then machine.goTo unit name else some (machine.next machine.world)
  | .print [] => none
  | .print (format :: arguments) =>
    some (machine.next (machine.world.print ⟨format, arguments.map (machine.value meaning)⟩))
  | .scan format target =>
    if (unit.typeOf? target).bind CUnit.readFormat? = some format then
      (machine.world.read inputs).map fun (value, world) =>
        machine.next (world.store target value)
    else none
  | .copy target operand => machine.store unit target (machine.value meaning operand)
  | .unary target operator operand =>
    (meaning.unary operator (machine.value meaning operand)).bind (machine.store unit target)
  | .binary target left operator right =>
    if operator = "%" ∧ unit.typeOf? target = some .float then none
    else (meaning.binary operator (machine.value meaning left) (machine.value meaning right)).bind
      (machine.store unit target)
  | .remainder target left right =>
    if unit.typeOf? target = some .float then
      (meaning.binary "%" (machine.value meaning left) (machine.value meaning right)).bind
        (machine.store unit target)
    else none

/-- One step: the statement at the place of the machine is carried out. -/
def step (machine : CMachine Value) : Option (CMachine Value) :=
  unit.statements[machine.position]?.bind (machine.perform meaning inputs unit)

end CMachine

section

variable {Value : Type} (meaning : Interpretation Value) (inputs : Nat → Option Value)

/-- The runs of a unit. -/
def CUnit.process (unit : CUnit) : Process (CMachine Value) Value where
  step machine := machine.step meaning inputs unit
  world := CMachine.world
  isOver machine := machine.position == unit.statements.length

/-- The runs of three-address code. -/
def Instruction.process (code : List Instruction) : Process (Machine Value) Value where
  step machine := machine.step meaning inputs code
  world := Machine.world
  isOver machine := machine.position == code.length

end

namespace CMachine

variable {Value : Type}

/-- The two kinds of machines have the same values in the same world. -/
theorem value_eq (meaning : Interpretation Value) {machine : CMachine Value}
    {other : Machine Value} (h : other.world = machine.world) (operand : String) :
    machine.value meaning operand = other.value meaning operand := by
  rw [value, Machine.value, h]

/-- A name with storage is declared with its type. -/
theorem typeOf?_of_storage {table : Table} {unit : CUnit} {name : String} {type : DataType}
    (hdeclared : unit.declared = table.entries.filterMap CUnit.variableOf?)
    (h : CUnit.storage table name = .ok type) : unit.typeOf? name = some type := by
  rw [CUnit.storage] at h
  split at h
  · next entry hfind =>
    split at h
    · next hstorable =>
      cases h
      obtain ⟨hname, before, after, hentries, hbefore⟩ := List.find?_eq_some_iff_append.1 hfind
      have hfound : table.entries.find? (fun entry =>
          (CUnit.variableOf? entry).any fun found => found.name == name) = some entry := by
        refine List.find?_eq_some_iff_append.2 ⟨?_, before, after, hentries, fun other hother => ?_⟩
        · rw [CUnit.variableOf?, if_pos hstorable]
          exact hname
        · rw [CUnit.variableOf?]
          split
          · exact hbefore other hother
          · rfl
      rw [CUnit.typeOf?, hdeclared, List.find?_filterMap, hfound, Option.bind_some,
        CUnit.variableOf?, if_pos hstorable]
      rfl
    · cases h
  · cases h

end CMachine

end ThreeAddress
