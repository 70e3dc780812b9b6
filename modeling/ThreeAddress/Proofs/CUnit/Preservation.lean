import ThreeAddress.Proofs.CUnit.Machine
import ThreeAddress.Proofs.CUnit.Translation
import ThreeAddress.Proofs.Compilation.Stages

/-!
# Emitting C preserves meaning

A run of the code and one of the unit that it becomes go side by side (`CUnit.Matches`): the worlds
are the same, and what is left of the code becomes what is left of the statements. Parameters make
the code go on alone for a while. They are in the machine with the values they had when they were
set, and in the unit as they are written; both are the same as long as nothing is stored before the
print, and nothing is, since only parameters stand in front of it.
-/

namespace ThreeAddress

namespace CUnit

/-! ## Places that belong together -/

/-- What is left of the code at one place becomes what is left of the statements at the other,
where the given parameters are held back. -/
structure Aligned (table : Table) (code : List Instruction) (statements : List CStatement)
    (held : List String) (position place : Nat) : Prop where
  position_le : position ≤ code.length
  place_le : place ≤ statements.length
  becomes : Becomes table held (code.drop position) (statements.drop place)

variable {table : Table} {held : List String} {code : List Instruction}
  {statements : List CStatement} {position place : Nat}

/-- Behind the first of what is left. -/
theorem drop_succ {Item : Type} {items behind : List Item} {item : Item} {position : Nat}
    (h : items.drop position = item :: behind) :
    position < items.length ∧ items.drop (position + 1) = behind := by
  refine ⟨Nat.lt_of_not_le fun hle => ?_, ?_⟩
  · rw [List.drop_eq_nil_iff.2 hle] at h
    cases h
  · rw [List.drop_add_one_eq_tail_drop, h, List.tail_cons]

/-- With another instruction in front. -/
theorem Aligned.instruction (h : Aligned table code statements held position place)
    (instruction : Instruction) :
    Aligned table (instruction :: code) statements held (position + 1) place :=
  ⟨Nat.succ_le_succ h.position_le, h.place_le, h.becomes⟩

/-- With another statement in front. -/
theorem Aligned.statement (h : Aligned table code statements held position place)
    (statement : CStatement) :
    Aligned table code (statement :: statements) held position (place + 1) :=
  ⟨h.position_le, Nat.succ_le_succ h.place_le, h.becomes⟩

/-- A label becomes a label, and nothing else does. -/
theorem Translates.label_iff {instruction : Instruction} {statement : CStatement}
    (h : Translates table instruction statement) (goal : String) :
    (instruction == .label goal) = (statement == .label goal) := by
  cases h with
  | label name => by_cases hname : name = goal <;> simp [hname]
  | _ => rfl

/-- A label is found at places that belong together, or in neither. -/
theorem Becomes.findIdx? (h : Becomes table held code statements) (goal : String) :
    Option.Rel (Aligned table code statements [])
      (code.findIdx? fun instruction => instruction == .label goal)
      (statements.findIdx? fun statement => statement == .label goal) := by
  induction h with
  | nil => exact .none
  | @cons instruction statement code statements htranslates hbecomes ih =>
    rw [List.findIdx?_cons, List.findIdx?_cons, htranslates.label_iff goal]
    split
    · exact .some ⟨Nat.zero_le _, Nat.zero_le _, .cons htranslates hbecomes⟩
    · exact rel_map ih fun h => (h.instruction instruction).statement statement
  | @param held operand code statements _ ih =>
    rw [List.findIdx?_cons, if_neg (by simp)]
    have hsame : ∀ found : Option Nat, found = found.map id := fun found => by simp
    rw [hsame (statements.findIdx? _)]
    exact rel_map ih fun h => h.instruction (.param operand)
  | @print held code statements _ _ ih =>
    rw [List.findIdx?_cons, List.findIdx?_cons, if_neg (by simp), if_neg (by simp)]
    exact rel_map ih fun h => (h.instruction _).statement _

end CUnit

/-! ## Runs side by side -/

namespace CUnit

variable {Value : Type} (meaning : Interpretation Value) (inputs : Nat → Option Value)
  (table : Table) (code : List Instruction) (unit : CUnit)

/-- A machine with code and a unit in the course of their runs are in the same world, at places
that belong together, and the parameters of the machine have their present values. -/
structure Matches (machine : Machine Value) (image : CMachine Value) : Prop where
  world : machine.world = image.world
  aligned : ∃ held, machine.pending =
      held.map (fun operand => (operand, machine.value meaning operand)) ∧
    Aligned table code unit.statements held machine.position image.position

/-- Both stand in front of an instruction and the statement that it becomes by itself. -/
structure Faces (machine : Machine Value) (image : CMachine Value) : Prop where
  world : machine.world = image.world
  pending : machine.pending = []
  behind : Aligned table code unit.statements [] (machine.position + 1) (image.position + 1)

variable {meaning inputs table code unit} {machine : Machine Value} {image : CMachine Value}

namespace Faces

variable (h : Faces table code unit machine image)
include h

/-- Both go on with what is next. -/
theorem next (world : World Value) :
    Matches meaning table code unit (machine.next world) (image.next world) :=
  ⟨rfl, [], h.pending, h.behind⟩

/-- Both go on at a label. -/
theorem goTo (hbecomes : Becomes table [] code unit.statements) (goal : String) :
    Option.Rel (Matches meaning table code unit) (machine.goTo code goal) (image.goTo unit goal) :=
  rel_map (hbecomes.findIdx? goal) fun haligned => ⟨h.world, [], h.pending, haligned⟩

variable (hdeclared : unit.declared = table.entries.filterMap variableOf?)
include hdeclared

/-- Both store a value. -/
theorem store {target : String} {type : DataType} (hstorage : storage table target = .ok type)
    (value : Value) :
    Option.Rel (Matches meaning table code unit) (some (machine.store target value))
      (image.store unit target value) := by
  rw [CMachine.store, CMachine.typeOf?_of_storage hdeclared hstorage, Machine.store, h.world]
  exact .some (h.next _)

/-- Both store the value of an operation, if it has one. -/
theorem store_result {target : String} {type : DataType}
    (hstorage : storage table target = .ok type) (result : Option Value) :
    Option.Rel (Matches meaning table code unit) (result.map (machine.store target))
      (result.bind (image.store unit target)) := by
  rw [Option.map_eq_bind]
  exact rel_bind fun value => h.store hdeclared hstorage value

/-- Both read into an integer. -/
theorem read {target : String} (hstorage : storage table target = .ok .int) :
    Option.Rel (Matches meaning table code unit)
      (machine.perform meaning inputs code (.call "input" 0 (some target)))
      (image.perform meaning inputs unit (.scan "\"%d\"" target)) := by
  have hformat : (unit.typeOf? target).bind readFormat? = some "\"%d\"" := by
    rw [CMachine.typeOf?_of_storage hdeclared hstorage]
    rfl
  have hcall : machine.perform meaning inputs code (.call "input" 0 (some target)) =
      (machine.world.read inputs).map fun found =>
        machine.next (found.2.store target found.1) := by
    simp [Machine.perform, Machine.call, h.pending]
  rw [hcall, CMachine.perform, if_pos hformat, h.world]
  cases image.world.read inputs with
  | none => exact .none
  | some found => exact .some (h.next _)

/-- An instruction and the statement that it becomes by itself do the same. -/
theorem perform (hbecomes : Becomes table [] code unit.statements) {instruction : Instruction}
    {statement : CStatement} (htranslates : Translates table instruction statement) :
    Option.Rel (Matches meaning table code unit)
      (machine.perform meaning inputs code instruction)
      (image.perform meaning inputs unit statement) := by
  have hvalue := CMachine.value_eq meaning h.world
  cases htranslates with
  | copy hstorage =>
    rw [CMachine.perform, hvalue]
    exact h.store hdeclared hstorage _
  | unary hstorage =>
    rw [CMachine.perform, hvalue]
    exact h.store_result hdeclared hstorage _
  | @binary target first operator second type hstorage hremainder =>
    have htype := CMachine.typeOf?_of_storage hdeclared hstorage
    have hoperator : ¬(operator = "%" ∧ unit.typeOf? target = some .float) := by
      rwa [htype, Option.some_inj]
    rw [CMachine.perform, if_neg hoperator, hvalue, hvalue]
    exact h.store_result hdeclared hstorage _
  | remainder hstorage =>
    rw [CMachine.perform, if_pos (CMachine.typeOf?_of_storage hdeclared hstorage), hvalue, hvalue]
    exact h.store_result hdeclared hstorage _
  | jump goal => exact h.goTo hbecomes goal
  | branch condition goal =>
    rw [CMachine.perform, hvalue]
    refine rel_bind fun holds => ?_
    split
    · exact h.goTo hbecomes goal
    · rw [h.world]
      exact .some (h.next _)
  | label name =>
    rw [CMachine.perform, ← h.world]
    exact .some (h.next _)
  | read hstorage => exact h.read hdeclared hstorage

end Faces

/-- A print takes the parameters that are held back, with their present values. -/
theorem Matches.print {held : List String} (hworld : machine.world = image.world)
    (hpending : machine.pending =
      held.map fun operand => (operand, machine.value meaning operand)) (hne : held ≠ [])
    (hbehind : Aligned table code unit.statements [] (machine.position + 1)
      (image.position + 1)) :
    Option.Rel (Matches meaning table code unit)
      (machine.perform meaning inputs code (.call "printf" held.length none))
      (image.perform meaning inputs unit (.print held)) := by
  obtain ⟨format, arguments, rfl⟩ := List.exists_cons_of_ne_nil hne
  have hvalues : arguments.map (machine.value meaning) = arguments.map (image.value meaning) :=
    List.map_congr_left fun operand _ => (CMachine.value_eq meaning hworld operand).symm
  have hperform : machine.perform meaning inputs code
      (.call "printf" (format :: arguments).length none) =
      some { machine.next (machine.world.print ⟨format, arguments.map (machine.value meaning)⟩) with
        pending := [] } := by
    simp [Machine.perform, Machine.call, hpending, Function.comp_def]
  rw [hperform, hvalues, hworld]
  exact .some ⟨rfl, [], rfl, hbehind⟩

/-- Where parameters are held back, the machine takes another one silently, or both go on. -/
theorem Matches.step (hdeclared : unit.declared = table.entries.filterMap variableOf?)
    (hbecomes : Becomes table [] code unit.statements)
    (h : Matches meaning table code unit machine image) :
    (∃ next, machine.step meaning inputs code = some next ∧ next.world = machine.world ∧
      code.length - next.position < code.length - machine.position ∧
      Matches meaning table code unit next image) ∨
    (Option.Rel (Matches meaning table code unit) (machine.step meaning inputs code)
        (image.step meaning inputs unit) ∧
      (machine.position == code.length) = (image.position == unit.statements.length)) := by
  obtain ⟨hworld, held, hpending, hposition, hplace, hleft⟩ := h
  rw [Machine.step, CMachine.step, ← List.head?_drop, ← List.head?_drop]
  generalize hcode : code.drop machine.position = left at hleft ⊢
  generalize hstatements : unit.statements.drop image.position = others at hleft ⊢
  cases hleft with
  | nil =>
    have hend := Nat.le_antisymm hposition (List.drop_eq_nil_iff.1 hcode)
    have hendImage := Nat.le_antisymm hplace (List.drop_eq_nil_iff.1 hstatements)
    rw [hend, hendImage, beq_self_eq_true, beq_self_eq_true]
    exact .inr ⟨.none, rfl⟩
  | cons htranslates hbehind =>
    obtain ⟨hlt, rfl⟩ := drop_succ hcode
    obtain ⟨hltImage, rfl⟩ := drop_succ hstatements
    rw [beq_false_of_ne (Nat.ne_of_lt hlt), beq_false_of_ne (Nat.ne_of_lt hltImage)]
    have hfaces : Faces table code unit machine image :=
      ⟨hworld, hpending, hlt, hltImage, hbehind⟩
    exact .inr ⟨hfaces.perform hdeclared hbecomes htranslates, rfl⟩
  | @param held operand left statements hbehind =>
    obtain ⟨hlt, rfl⟩ := drop_succ hcode
    refine .inl ⟨_, rfl, rfl, Nat.sub_succ_lt_self _ _ hlt, hworld, held ++ [operand], ?_, hlt,
      hplace, ?_⟩
    · show machine.pending ++ _ = _
      rw [hpending, List.map_append]
      rfl
    · rw [hstatements]
      exact hbehind
  | print hne hbehind =>
    obtain ⟨hlt, rfl⟩ := drop_succ hcode
    obtain ⟨hltImage, rfl⟩ := drop_succ hstatements
    rw [beq_false_of_ne (Nat.ne_of_lt hlt), beq_false_of_ne (Nat.ne_of_lt hltImage)]
    exact .inr ⟨Matches.print hworld hpending hne ⟨hlt, hltImage, hbehind⟩, rfl⟩

/-- The unit that code becomes does what the code does. -/
theorem Becomes.mirrors (h : Becomes table [] code unit.statements)
    (hdeclared : unit.declared = table.entries.filterMap variableOf?)
    (meaning : Interpretation Value) (inputs : Nat → Option Value) :
    (Instruction.process meaning inputs code).Mirrors (unit.process meaning inputs)
      (Matches meaning table code unit) fun machine => code.length - machine.position where
  world hmatches := hmatches.world
  step hmatches := hmatches.step hdeclared h

end CUnit

/-- The C text of a compilation does what its code does. The text is that of a unit, made from the
code that has been read back from the lines. Whatever literals and operators mean and whatever the
inputs are, both runs print and read the same values in the same order, as far as they go; and if
one of them ends, at the end of the program or at an operation without a value, so does the other,
with the same values in all variables. -/
theorem compile_c_preserves {budgets : Budgets} {request : Request} {source : String}
    {compilation : Compilation} (h : (compile budgets request source).1 = .ok compilation)
    (hemit : request.emitC = true) :
    ∃ tree state builder unit,
      compilation.Follows budgets request source tree state builder ∧
      CUnit.readLines compilation.lines = .ok builder.instructions.toList ∧
      CUnit.ofInstructions builder.table builder.instructions.toList = .ok unit ∧
      compilation.c = some (unit.text "    ") ∧
      ∀ {Value : Type} (meaning : Interpretation Value) (inputs : Nat → Option Value)
        (memory : String → Value) (effects : List (Effect Value)),
        ((∃ last, (Instruction.process meaning inputs builder.instructions.toList).Performs inputs
            (.start memory) effects last) ↔
          ∃ last, (unit.process meaning inputs).Performs inputs (.start memory) effects last) ∧
        ∀ (world : World Value) (isOver : Bool),
          (Instruction.process meaning inputs builder.instructions.toList).Ends inputs
              (.start memory) effects world isOver ↔
            (unit.process meaning inputs).Ends inputs (.start memory) effects world isOver := by
  obtain ⟨tree, state, builder, hfollows⟩ := compile_follows h
  obtain ⟨hread, unit, hunit, hc⟩ := hfollows.unit hemit
  have hparts := hunit
  rw [CUnit.ofInstructions] at hparts
  cases hstatements : CUnit.statementsOf builder.table [] builder.instructions.toList with
  | error error =>
    rw [hstatements] at hparts
    cases hparts
  | ok statements =>
    rw [hstatements] at hparts
    cases hparts
    refine ⟨tree, state, builder, _, hfollows, hread, hunit, hc, ?_⟩
    intro Value meaning inputs memory effects
    let unit : CUnit := ⟨builder.table.entries.filterMap CUnit.variableOf?, statements⟩
    have hbecomes : CUnit.Becomes builder.table [] builder.instructions.toList unit.statements :=
      hfollows.isEmitted.becomes hstatements
    have hmirrors := hbecomes.mirrors rfl meaning inputs
    have hstart : CUnit.Matches meaning builder.table builder.instructions.toList unit
        (.start memory) (.start memory) :=
      ⟨rfl, [], rfl, Nat.zero_le _, Nat.zero_le _, hbecomes⟩
    exact ⟨hmirrors.performs_iff hstart, fun world isOver => hmirrors.ends_iff hstart⟩

/-- A program that prints its first input: the unit reads seven and prints it. -/
theorem compile_c_preserves_echo :
    ∃ (compilation : Compilation) (unit : CUnit) (world : World Int),
      (compile {} {} "let x = input; output \"%d\", x;").1 = .ok compilation ∧
      compilation.c = some (unit.text "    ") ∧
      (unit.process (⟨fun _ => 0, fun _ value => some value,
        fun _ left right => some (left + right), fun value => some (value != 0)⟩ :
          Interpretation Int) fun number => if number = 0 then some 7 else none).Ends
        (fun number => if number = 0 then some 7 else none) (.start fun _ => 0)
        [.read 7, .print ⟨"\"%d\"", [7]⟩] world true ∧
      world.memory "x" = 7 := by
  let meaning : Interpretation Int := ⟨fun _ => 0, fun _ value => some value,
    fun _ left right => some (left + right), fun value => some (value != 0)⟩
  let inputs : Nat → Option Int := fun number => if number = 0 then some 7 else none
  let code : List Instruction := [.call "input" 0 (some "t1"), .assign "x" (some "t1") none none,
    .param "\"%d\"", .param "x", .call "printf" 2 none]
  have hlines : (match (compile {} {} "let x = input; output \"%d\", x;").1 with
      | .ok compilation => CUnit.readLines compilation.lines
      | .error _ => .error .longCount) = .ok code := by decide +kernel
  cases hcompile : (compile {} {} "let x = input; output \"%d\", x;").1 with
  | error error =>
    rw [hcompile] at hlines
    cases hlines
  | ok compilation =>
    rw [hcompile] at hlines
    obtain ⟨tree, state, builder, unit, -, hread, -, hc, hpreserves⟩ :=
      compile_c_preserves hcompile rfl
    have hcode : builder.instructions.toList = code := Except.ok.inj (hread.symm.trans hlines)
    rw [hcode] at hpreserves
    let read : World Int := ⟨fun name => if name = "t1" then 7 else 0, 1, []⟩
    let printed : World Int := (read.store "x" 7).print ⟨"\"%d\"", [7]⟩
    have hends : (Instruction.process meaning inputs code).Ends inputs (.start fun _ => 0)
        [.read 7, .print ⟨"\"%d\"", [7]⟩] printed true := by
      let process := Instruction.process meaning inputs code
      have hread : process.step (.start fun _ => 0) = some ⟨1, read, []⟩ := rfl
      have hcopy : process.step ⟨1, read, []⟩ = some ⟨2, read.store "x" 7, []⟩ := rfl
      have hformat : process.step ⟨2, read.store "x" 7, []⟩ =
          some ⟨3, read.store "x" 7, [("\"%d\"", 0)]⟩ := rfl
      have hparam : process.step ⟨3, read.store "x" 7, [("\"%d\"", 0)]⟩ =
          some ⟨4, read.store "x" 7, [("\"%d\"", 0), ("x", 7)]⟩ := rfl
      have hprint : process.step ⟨4, read.store "x" 7, [("\"%d\"", 0), ("x", 7)]⟩ =
          some ⟨5, printed, []⟩ := rfl
      have hlast : process.Performs inputs ⟨5, printed, []⟩ [] ⟨5, printed, []⟩ := .refl _
      exact ⟨⟨5, printed, []⟩,
        .step hread (.step hcopy (.step hformat (.step hparam (.step hprint hlast)))),
        rfl, rfl, rfl⟩
    exact ⟨compilation, unit, printed, rfl, hc,
      ((hpreserves meaning inputs (fun _ => 0) _).2 printed true).1 hends, rfl⟩

end ThreeAddress
