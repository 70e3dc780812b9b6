import Mathlib.Data.List.Induction
import ThreeAddress.Proofs.Meaning.Machine

/-!
# Where runs go

The code alone tells which instruction may be carried out after which (`Instruction.Flows`): the
values of conditions only choose among these. A run, of which the positions of the instructions are
kept that have been carried out (`Machine.Reaches`), is a walk through the code
(`Instruction.Walk`). So what holds of all walks holds of all runs, whatever the values are.
-/

namespace ThreeAddress

/-! ## Walks -/

namespace Instruction

/-- After the instruction at a position the one at another may be carried out: the one behind it,
unless it is a jump, or the label that it jumps to. -/
inductive Flows (code : List Instruction) : Nat → Nat → Prop where
  | next {position : Nat} {instruction : Instruction} : code[position]? = some instruction →
      (∀ goal, instruction ≠ .jump goal) → Flows code position (position + 1)
  | goal {position target : Nat} {instruction : Instruction} {goal : String} :
      code[position]? = some instruction → instruction.goal? = some goal →
      code[target]? = some (.label goal) → Flows code position target

/-- A walk through code from its beginning: the positions that it has passed, the latest first, and
the one that it has come to. -/
inductive Walk (code : List Instruction) : List Nat → Nat → Prop where
  | start : Walk code [] 0
  | step {trace : List Nat} {position next : Nat} : Walk code trace position →
      Flows code position next → Walk code (position :: trace) next

variable {code : List Instruction} {trace : List Nat} {position next : Nat}

/-- An instruction flows to a position in the code or to its end. -/
theorem Flows.le_length (h : Flows code position next) : next ≤ code.length := by
  cases h with
  | next hposition => exact (List.getElem?_eq_some_iff.1 hposition).1
  | goal _ _ htarget => exact Nat.le_of_lt (List.getElem?_eq_some_iff.1 htarget).1

/-- A walk that only goes forward passes no more instructions than there are. -/
theorem Walk.length_le (h : Walk code trace position)
    (hforward : ∀ position next, Flows code position next → position < next) :
    trace.length ≤ code.length := by
  have hposition : trace.length ≤ position ∧ position ≤ code.length := by
    induction h with
    | start => exact ⟨Nat.le_refl _, Nat.zero_le _⟩
    | step _ hflows ih =>
      exact ⟨Nat.lt_of_le_of_lt ih.1 (hforward _ _ hflows), hflows.le_length⟩
  exact Nat.le_trans hposition.1 hposition.2

/-- An instruction is at a position if so many others stand in front of it. -/
theorem getElem?_iff_split {instruction : Instruction} : code[position]? = some instruction ↔
    ∃ before behind, code = before ++ instruction :: behind ∧ before.length = position := by
  constructor
  · intro h
    obtain ⟨hlt, rfl⟩ := List.getElem?_eq_some_iff.1 h
    refine ⟨code.take position, code.drop (position + 1), ?_, List.length_take_of_le hlt.le⟩
    rw [List.getElem_cons_drop, List.take_append_drop]
  · rintro ⟨before, behind, rfl, rfl⟩
    simp

/-- There is no label where another instruction is. -/
theorem ne_label {front rest : List Instruction} {instruction : Instruction}
    (hcode : code = front ++ instruction :: rest) (hplain : instruction.label? = none)
    (label : String) : code[front.length]? ≠ some (.label label) := by
  intro hlabel
  cases hlabel.symm.trans (getElem?_iff_split.2 ⟨front, rest, hcode, rfl⟩)
  cases hplain

/-- Where there is no label, a walk comes from the instruction in front. -/
theorem Walk.exists_earlier (h : Walk code trace (position + 1))
    (hplain : ∀ label, code[position + 1]? ≠ some (.label label)) :
    ∃ earlier, trace = position :: earlier ∧ Walk code earlier position := by
  cases h with
  | step hwalk hflows =>
    cases hflows with
    | next => exact ⟨_, rfl, hwalk⟩
    | goal _ _ htarget => exact absurd htarget (hplain _)

/-- A walk to an instruction has passed the one in front of it from which there is a way without
labels. -/
theorem Walk.mem_trace {front between rest : List Instruction} {first last : Instruction}
    (hwalk : Walk code trace (front ++ first :: between).length)
    (hcode : code = (front ++ first :: between) ++ last :: rest) (hlabels : labels between = [])
    (hlast : last.label? = none) : front.length ∈ trace := by
  induction between using List.reverseRecOn generalizing last rest trace with
  | nil =>
    have hplain := ne_label hcode hlast
    rw [List.length_append, List.length_singleton] at hwalk hplain
    obtain ⟨earlier, rfl, -⟩ := hwalk.exists_earlier hplain
    exact .head _
  | append_singleton between middle ih =>
    have hplain := ne_label hcode hlast
    rw [← List.cons_append, ← List.append_assoc] at hcode hwalk hplain
    rw [List.length_append, List.length_singleton] at hwalk hplain
    obtain ⟨earlier, rfl, hearlier⟩ := hwalk.exists_earlier hplain
    rw [labels_append, List.append_eq_nil_iff] at hlabels
    have hmiddle : middle.label? = none := by simpa using hlabels.2
    exact .tail _ (ih hearlier (by simpa using hcode) hlabels.1 hmiddle)

/-- A walk passes over a position if it goes at one step from in front of it to behind it. -/
def PassesOver (path : List Nat) (position : Nat) : Prop :=
  ∃ start next, [next, start] <:+: path ∧ start < position ∧ position < next

/-- What stands in front of where a walk has come to has been passed or passed over. -/
theorem Walk.passes (h : Walk code trace position) {earlier : Nat} (hlt : earlier < position) :
    earlier ∈ trace ∨ PassesOver (position :: trace) earlier := by
  induction h with
  | start => cases hlt
  | @step trace position next _ _ ih =>
    rcases Nat.lt_trichotomy earlier position with hearlier | rfl | hearlier
    · rcases ih hearlier with hmem | ⟨start, target, hpath, hover⟩
      · exact .inl (.tail _ hmem)
      · exact .inr ⟨start, target, hpath.trans (List.infix_cons (List.infix_refl _)), hover⟩
    · exact .inl (.head _)
    · exact .inr ⟨position, next, ⟨[], trace, rfl⟩, hearlier, hlt⟩

end Instruction

/-! ## Runs -/

namespace Machine

open Instruction

variable {Value : Type} {meaning : Interpretation Value} {inputs : Nat → Option Value}
  {code : List Instruction} {machine other : Machine Value} {trace : List Nat}

/-- A run, with the positions of the instructions that have been carried out, the latest first. -/
inductive Reaches (meaning : Interpretation Value) (inputs : Nat → Option Value)
    (code : List Instruction) (machine : Machine Value) : List Nat → Machine Value → Prop where
  | start : Reaches meaning inputs code machine [] machine
  | step {trace : List Nat} {between last : Machine Value} :
      Reaches meaning inputs code machine trace between →
      between.step meaning inputs code = some last →
      Reaches meaning inputs code machine (between.position :: trace) last

/-- Going on at a label. -/
theorem flows_of_goTo {goal : String} {instruction : Instruction}
    (hcode : code[machine.position]? = some instruction) (hgoal : instruction.goal? = some goal)
    (h : machine.goTo code goal = some other) : Flows code machine.position other.position := by
  obtain ⟨target, htarget, rfl⟩ := Option.map_eq_some_iff.1 h
  obtain ⟨hlt, hlabel, -⟩ := List.findIdx?_eq_some_iff_getElem.1 htarget
  exact .goal hcode hgoal (List.getElem?_eq_some_iff.2 ⟨hlt, eq_of_beq hlabel⟩)

/-- An assignment goes on with the next instruction. -/
theorem position_of_assign {target : String} {first operator second : Option String}
    (h : machine.perform meaning inputs code (.assign target first operator second) = some other) :
    other.position = machine.position + 1 := by
  have hstored {values : Option Value} (hstore : values.map (machine.store target) = some other) :
      other.position = machine.position + 1 := by
    obtain ⟨_, -, rfl⟩ := Option.map_eq_some_iff.1 hstore
    rfl
  cases first with
  | none => cases h
  | some first =>
    cases operator with
    | none =>
      cases h
      rfl
    | some operator => cases second <;> exact hstored h

/-- A call goes on with the next instruction. -/
theorem position_of_call {function : String} {count : Int} {target : Option String}
    (h : machine.call inputs function count target = some other) :
    other.position = machine.position + 1 := by
  unfold call at h
  split at h
  · cases h
  split at h
  · split at h
    · cases h
      rfl
    · cases h
  split at h
  · split at h
    · obtain ⟨_, -, rfl⟩ := Option.map_eq_some_iff.1 h
      rfl
    · cases h
  · cases h

/-- A step goes where the code flows. -/
theorem step_flows (h : machine.step meaning inputs code = some other) :
    Flows code machine.position other.position := by
  obtain ⟨instruction, hcode, hperform⟩ := Option.bind_eq_some_iff.1 h
  have hnext (hposition : other.position = machine.position + 1)
      (hjump : ∀ goal, instruction ≠ .jump goal) :
      Flows code machine.position other.position := hposition ▸ .next hcode hjump
  cases instruction with
  | assign target first operator second =>
    exact hnext (position_of_assign hperform) nofun
  | jump goal => exact flows_of_goTo hcode rfl hperform
  | branch condition goal =>
    obtain ⟨holds, -, hperform⟩ := Option.bind_eq_some_iff.1 hperform
    cases holds with
    | true => exact flows_of_goTo hcode rfl hperform
    | false =>
      cases hperform
      exact hnext rfl nofun
  | label | param =>
    cases hperform
    exact hnext rfl nofun
  | call function count target => exact hnext (position_of_call hperform) nofun

/-- A run from the beginning of the code is a walk. -/
theorem walk_of_reaches {memory : String → Value}
    (h : (start memory).Reaches meaning inputs code trace machine) :
    Walk code trace machine.position := by
  induction h with
  | start => exact .start
  | step _ hstep ih => exact ih.step (step_flows hstep)

end Machine

end ThreeAddress
