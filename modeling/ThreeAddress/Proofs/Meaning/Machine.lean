import Mathlib.Logic.Relation
import ThreeAddress.Proofs.Code.Judgement
import ThreeAddress.Proofs.Meaning.Source
import ThreeAddress.Text.Word

/-!
# What code means

A machine that runs three-address code, one instruction at a time, over the same interpretations
and inputs as programs. An operand is a variable or a literal by its form. Parameters are kept with
their values until a call takes all of them. A run is over when it has reached the end of the code;
it may also stop before, at an instruction that cannot be carried out, or go on for ever.

Runs are compared by how many steps they take to the end (`Machine.finish`): a machine that leads
to another (`Machine.Leads`) finishes as it does, so many steps later.
-/

namespace ThreeAddress

/-- Whether an operand is a variable: it starts like a name and is no truth value. -/
def Instruction.isVariable (operand : String) : Bool :=
  operand.toList.head?.any Text.isNameStart && operand != "true" && operand != "false"

/-- A machine in the course of a run. -/
structure Machine (Value : Type) where
  /-- The place of the next instruction. -/
  position : Nat
  world : World Value
  /-- The parameters that no call has taken yet, as they are written, and their values. -/
  pending : List (String × Value)

namespace Machine

/-! ## Steps and runs -/

section

variable {Value : Type} (meaning : Interpretation Value) (inputs : Nat → Option Value)

/-- A machine before the first instruction. -/
def start (memory : String → Value) : Machine Value := ⟨0, ⟨memory, 0, []⟩, []⟩

/-- What an operand stands for. -/
def value (machine : Machine Value) (operand : String) : Value :=
  if Instruction.isVariable operand then machine.world.memory operand else meaning.literal operand

/-- Goes on with the next instruction in another world. -/
def next (machine : Machine Value) (world : World Value) : Machine Value :=
  { machine with position := machine.position + 1, world }

/-- Stores a value and goes on with the next instruction. -/
def store (machine : Machine Value) (target : String) (value : Value) : Machine Value :=
  machine.next (machine.world.store target value)

/-- Goes on at a label, if there is one. -/
def goTo (machine : Machine Value) (code : List Instruction) (goal : String) :
    Option (Machine Value) :=
  (code.findIdx? fun instruction => instruction == .label goal).map fun position =>
    { machine with position }

/-- A call takes all parameters, which must be as many as it counts. -/
def call (machine : Machine Value) (function : String) (count : Int) (target : Option String) :
    Option (Machine Value) :=
  if (machine.pending.length : Int) ≠ count then none
  else if function = "printf" then
    match target, machine.pending with
    | none, (format, _) :: arguments =>
      some { machine.next (machine.world.print ⟨format, arguments.map (·.2)⟩) with pending := [] }
    | _, _ => none
  else if function = "input" then
    match target, machine.pending with
    | some target, [] => (machine.world.read inputs).map fun (value, world) =>
      machine.next (world.store target value)
    | _, _ => none
  else none

/-- Carries an instruction of the code out. -/
def perform (code : List Instruction) (machine : Machine Value) :
    Instruction → Option (Machine Value)
  | .assign _ none _ _ => none
  | .assign target (some first) none _ => some (machine.store target (machine.value meaning first))
  | .assign target (some first) (some operator) none =>
    (meaning.unary operator (machine.value meaning first)).map (machine.store target)
  | .assign target (some first) (some operator) (some second) =>
    (meaning.binary operator (machine.value meaning first) (machine.value meaning second)).map
      (machine.store target)
  | .jump goal => machine.goTo code goal
  | .branch condition goal =>
    (meaning.truth (machine.value meaning condition)).bind fun holds =>
      if holds then machine.goTo code goal else some (machine.next machine.world)
  | .label _ => some (machine.next machine.world)
  | .param operand =>
    some { machine.next machine.world with
      pending := machine.pending ++ [(operand, machine.value meaning operand)] }
  | .call function count target => machine.call inputs function count target

/-- One step: the instruction at the place of the machine is carried out. -/
def step (code : List Instruction) (machine : Machine Value) : Option (Machine Value) :=
  code[machine.position]?.bind (machine.perform meaning inputs code)

/-- A run to the end of the code. -/
def Completes (code : List Instruction) (machine last : Machine Value) : Prop :=
  Relation.ReflTransGen (fun before after => before.step meaning inputs code = some after)
    machine last ∧ last.position = code.length

/-- A run to the end of the code in less than so many steps. -/
def finish (code : List Instruction) : Nat → Machine Value → Option (Machine Value)
  | 0, _ => none
  | bound + 1, machine =>
    if machine.position = code.length then some machine
    else (machine.step meaning inputs code).bind (finish code bound)

/-- The machine comes to another one, and has not reached the end before. -/
def Leads (code : List Instruction) (machine other : Machine Value) : Prop :=
  ∃ steps, ∀ bound, machine.finish meaning inputs code (bound + steps) =
    other.finish meaning inputs code bound

/-- The machine does not reach the end. -/
def IsBlocked (code : List Instruction) (machine : Machine Value) : Prop :=
  ∀ bound, machine.finish meaning inputs code bound = none

end

variable {Value : Type} {meaning : Interpretation Value} {inputs : Nat → Option Value}
  {code : List Instruction} {machine other last : Machine Value}

/-- A machine that makes a step is not at the end. -/
theorem position_ne_of_step (h : machine.step meaning inputs code = some other) :
    machine.position ≠ code.length := by
  intro hposition
  rw [step, hposition, List.getElem?_eq_none (Nat.le_refl _)] at h
  cases h

/-- The end is reached one step later. -/
theorem finish_succ (h : machine.step meaning inputs code = some other) (bound : Nat) :
    machine.finish meaning inputs code (bound + 1) = other.finish meaning inputs code bound := by
  rw [finish, if_neg (position_ne_of_step h), h]
  rfl

/-- More steps do not change where a run ends. -/
theorem finish_add {bound : Nat} (h : machine.finish meaning inputs code bound = some last)
    (more : Nat) : machine.finish meaning inputs code (bound + more) = some last := by
  induction bound generalizing machine with
  | zero => cases h
  | succ bound ih =>
    rw [Nat.add_right_comm, finish]
    rw [finish] at h
    split at h
    · next hend => rw [if_pos hend, h]
    · next hend =>
      rw [if_neg hend]
      obtain ⟨between, hstep, hbetween⟩ := Option.bind_eq_some_iff.1 h
      rw [hstep]
      exact ih hbetween

/-- A run to the end has a number of steps. -/
theorem completes_iff : Completes meaning inputs code machine last ↔
    ∃ bound, machine.finish meaning inputs code bound = some last := by
  constructor
  · intro ⟨hrun, hend⟩
    induction hrun using Relation.ReflTransGen.head_induction_on with
    | refl => exact ⟨1, if_pos hend⟩
    | head hstep _ ih =>
      obtain ⟨bound, hbound⟩ := ih
      exact ⟨bound + 1, (finish_succ hstep bound).trans hbound⟩
  · intro ⟨bound, h⟩
    induction bound generalizing machine with
    | zero => cases h
    | succ bound ih =>
      rw [finish] at h
      split at h
      · next hend =>
        cases h
        exact ⟨.refl, hend⟩
      · obtain ⟨between, hstep, hbetween⟩ := Option.bind_eq_some_iff.1 h
        obtain ⟨hrun, hend⟩ := ih hbetween
        exact ⟨.head hstep hrun, hend⟩

/-- A run ends in one way. -/
theorem Completes.unique {last' : Machine Value} (h : Completes meaning inputs code machine last)
    (h' : Completes meaning inputs code machine last') : last = last' := by
  obtain ⟨bound, hbound⟩ := completes_iff.1 h
  obtain ⟨bound', hbound'⟩ := completes_iff.1 h'
  have hlast := finish_add hbound bound'
  rw [Nat.add_comm, finish_add hbound' bound] at hlast
  exact (Option.some.inj hlast).symm

/-! ## Machines that lead to others -/

namespace Leads

/-- No steps. -/
theorem refl (machine : Machine Value) : Leads meaning inputs code machine machine :=
  ⟨0, fun _ => rfl⟩

/-- Steps, and more steps. -/
theorem trans (h : Leads meaning inputs code machine other)
    (h' : Leads meaning inputs code other last) : Leads meaning inputs code machine last := by
  obtain ⟨steps, hsteps⟩ := h
  obtain ⟨steps', hsteps'⟩ := h'
  refine ⟨steps' + steps, fun bound => ?_⟩
  rw [← Nat.add_assoc, hsteps, hsteps']

/-- One step. -/
theorem of_step (h : machine.step meaning inputs code = some other) :
    Leads meaning inputs code machine other :=
  ⟨1, finish_succ h⟩

/-- A machine at the end is where the run ends. -/
theorem completes (h : Leads meaning inputs code machine last)
    (hend : last.position = code.length) : Completes meaning inputs code machine last := by
  obtain ⟨steps, hsteps⟩ := h
  exact completes_iff.2 ⟨1 + steps, (hsteps 1).trans (if_pos hend)⟩

/-- A machine that leads to a blocked one is blocked. -/
theorem isBlocked (h : Leads meaning inputs code machine other)
    (hblocked : IsBlocked meaning inputs code other) : IsBlocked meaning inputs code machine := by
  obtain ⟨steps, hsteps⟩ := h
  intro bound
  cases hfinish : machine.finish meaning inputs code bound with
  | none => rfl
  | some last =>
    have hmore := finish_add hfinish steps
    rw [hsteps, hblocked] at hmore
    cases hmore

/-- A run to the end goes on from where it leads. -/
theorem finish {bound : Nat} (h : Leads meaning inputs code machine other)
    (hfinish : machine.finish meaning inputs code bound = some last) :
    ∃ rest ≤ bound, other.finish meaning inputs code rest = some last := by
  obtain ⟨steps, hsteps⟩ := h
  rcases Nat.le_total steps bound with hle | hle
  · refine ⟨bound - steps, Nat.sub_le _ _, ?_⟩
    rw [← hsteps, Nat.sub_add_cancel hle, hfinish]
  · -- The end would be reached before the other machine is.
    have hmore := finish_add hfinish (steps - bound)
    rw [Nat.add_sub_cancel' hle, ← Nat.zero_add steps, hsteps] at hmore
    cases hmore

end Leads

/-- An instruction that cannot be carried out. -/
theorem IsBlocked.of_step {instruction : Instruction}
    (hcode : code[machine.position]? = some instruction)
    (h : machine.perform meaning inputs code instruction = none) :
    IsBlocked meaning inputs code machine := by
  intro bound
  cases bound with
  | zero => rfl
  | succ bound =>
    have hposition : machine.position ≠ code.length := by
      have := (List.getElem?_eq_some_iff.1 hcode).1
      omega
    rw [finish, if_neg hposition, step, hcode, Option.bind_some, h]
    rfl

/-- An instruction that is carried out. -/
theorem Leads.of_perform {instruction : Instruction}
    (hcode : code[machine.position]? = some instruction)
    (h : machine.perform meaning inputs code instruction = some other) :
    Leads meaning inputs code machine other :=
  .of_step (by rw [step, hcode, Option.bind_some, h])

end Machine

/-! ## Code that stands in a program -/

namespace Instruction

/-- Code stands in a program at a position. -/
def StandsAt (program : List Instruction) : Nat → List Instruction → Prop
  | _, [] => True
  | position, instruction :: code =>
    program[position]? = some instruction ∧ StandsAt program (position + 1) code

variable {program : List Instruction}

@[simp] theorem standsAt_nil (position : Nat) : StandsAt program position [] := trivial

@[simp] theorem standsAt_cons {position : Nat} {instruction : Instruction}
    {code : List Instruction} : StandsAt program position (instruction :: code) ↔
      program[position]? = some instruction ∧ StandsAt program (position + 1) code := .rfl

/-- Two pieces of code stand one behind the other. -/
@[simp] theorem standsAt_append {position : Nat} {code others : List Instruction} :
    StandsAt program position (code ++ others) ↔
      StandsAt program position code ∧ StandsAt program (position + code.length) others := by
  induction code generalizing position with
  | nil => simp
  | cons instruction code ih =>
    rw [List.cons_append, standsAt_cons, standsAt_cons, ih, List.length_cons, and_assoc,
      Nat.add_right_comm, Nat.add_assoc position]

/-- A program stands at its own beginning. -/
theorem standsAt_self (program : List Instruction) : StandsAt program 0 program := by
  suffices h : ∀ before code, StandsAt (before ++ code) before.length code from h [] program
  intro before code
  induction code generalizing before with
  | nil => trivial
  | cons instruction code ih =>
    have htail := ih (before ++ [instruction])
    rw [List.append_assoc, List.singleton_append, List.length_append] at htail
    exact ⟨by simp, htail⟩

/-- A label that stands at one place only is found there. -/
theorem findIdx?_label (h : (labels program).Nodup) {position : Nat} {name : String}
    (hposition : program[position]? = some (.label name)) :
    program.findIdx? (fun instruction => instruction == .label name) = some position := by
  obtain ⟨hlt, hlabel⟩ := List.getElem?_eq_some_iff.1 hposition
  refine List.findIdx?_eq_some_iff_getElem.2 ⟨hlt, by rw [hlabel]; exact beq_self_eq_true _, ?_⟩
  intro earlier hearlier hsame
  rw [labels, List.nodup_iff_pairwise_ne, List.pairwise_filterMap] at h
  have hdistinct := List.pairwise_iff_getElem.1 h earlier position (by omega) hlt hearlier
  rw [eq_of_beq hsame, hlabel] at hdistinct
  exact hdistinct name rfl name rfl rfl

end Instruction

end ThreeAddress
