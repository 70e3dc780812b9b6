import ThreeAddress.Proofs.Code.Assignment
import ThreeAddress.Proofs.Meaning.Flow

/-!
# What runs have stored

A walk through code has stored a name if it has passed an instruction that does so
(`Instruction.HasStored`). Two arguments show that the names that are read have been stored. Where
code agrees with marks of its labels, a walk has stored the name wherever the marks tell that it has
been assigned to (`Instruction.Walk.hasStored`), for each step keeps this. And a temporary is stored
in front of where it is read, with no label between the two, so there is no way past the store
(`Instruction.Walk.hasStored_of_carries`).
-/

namespace ThreeAddress

namespace Instruction

/-- The instruction at a position stores a value in a name. -/
def Stores (code : List Instruction) (position : Nat) (name : String) : Prop :=
  code[position]?.bind defines? = some name

/-- One of the instructions that have been passed has stored a value in a name. -/
def HasStored (code : List Instruction) (trace : List Nat) (name : String) : Prop :=
  ∃ position ∈ trace, Stores code position name

instance {code : List Instruction} {position : Nat} {name : String} :
    Decidable (Stores code position name) :=
  inferInstanceAs (Decidable (_ = _))

instance {code : List Instruction} {trace : List Nat} {name : String} :
    Decidable (HasStored code trace name) :=
  inferInstanceAs (Decidable (∃ position ∈ trace, Stores code position name))

/-- Whether a name has been assigned to where an instruction is reached, if the marks tell so for
the labels. -/
def isReady (marks : String → Bool) (given : Bool) : Instruction → Bool
  | .label place => marks place
  | .assign .. | .jump _ | .branch .. | .param _ | .call .. => given

variable {code : List Instruction} {trace : List Nat} {position : Nat} {name : String}
  {marks : String → Bool} {given : Bool} {instruction : Instruction}

/-- An instruction that goes to a label is none. -/
theorem label?_of_goal {place : String} (h : instruction.goal? = some place) :
    instruction.label? = none := by
  cases instruction with
  | label => cases h
  | _ => rfl

/-- An instruction that has a target stores a value in it. -/
theorem stores_of_defines (hcode : code[position]? = some instruction)
    (h : instruction.defines? = some name) : Stores code position name := by
  rw [Stores, hcode, Option.bind_some, h]

/-- What has been stored stays so. -/
theorem HasStored.step (h : HasStored code trace name) (position : Nat) :
    HasStored code (position :: trace) name := by
  obtain ⟨earlier, hmem, hstores⟩ := h
  exact ⟨earlier, .tail _ hmem, hstores⟩

/-- A name that is stored in front is stored at a position. -/
theorem exists_stores {before behind : List Instruction} (h : name ∈ targets before)
    (hcode : code = before ++ behind) : ∃ position < before.length, Stores code position name := by
  obtain ⟨instruction, hmem, hdefines⟩ := List.mem_filterMap.1 h
  obtain ⟨position, hlt, rfl⟩ := List.getElem_of_mem hmem
  refine ⟨position, hlt, stores_of_defines ?_ hdefines⟩
  rw [hcode, List.getElem?_append_left hlt, List.getElem?_eq_getElem hlt]

/-- Behind an instruction that is no jump a name has been assigned to if it had been where the
instruction was reached, or if the instruction has stored it. -/
theorem isReady_of_isAssigned (h : isAssigned name marks given instruction = true)
    (hjump : ∀ goal, instruction ≠ .jump goal) :
    isReady marks given instruction = true ∨ instruction.defines? = some name := by
  cases instruction with
  | assign target =>
    rw [isAssigned, Bool.or_eq_true] at h
    exact h.imp_right fun heq => congrArg some (eq_of_beq heq)
  | call function count target =>
    rw [isAssigned, Bool.or_eq_true] at h
    exact h.imp_right eq_of_beq
  | jump goal => exact absurd rfl (hjump goal)
  | branch | label | param => exact .inl h

/-- What is ready where an instruction is reached that agrees with the marks has been assigned to in
front of it. -/
theorem Agrees.of_isReady (h : Agrees name marks given instruction)
    (hready : isReady marks given instruction = true) : given = true := by
  cases instruction with
  | label place => exact h.label place rfl hready
  | _ => exact hready

/-- Where nothing but the instruction in front leads, a name is ready if it has been assigned to. -/
theorem isReady_of_label (hplain : instruction.label? = none) :
    isReady marks given instruction = given := by
  cases instruction with
  | label => cases hplain
  | _ => rfl

/-- An instruction in code that agrees with the marks. -/
theorem AllAgree.at (h : AllAgree name marks given code)
    (hcode : code[position]? = some instruction) :
    Agrees name marks (areAssigned name marks given (code.take position)) instruction := by
  obtain ⟨before, behind, rfl, rfl⟩ := getElem?_iff_split.1 hcode
  rw [List.take_left]
  exact (allAgree_append.1 h).2.1

/-- The code up to a position and the instruction there. -/
theorem areAssigned_take_succ (hcode : code[position]? = some instruction) :
    areAssigned name marks given (code.take (position + 1)) =
      isAssigned name marks (areAssigned name marks given (code.take position)) instruction := by
  rw [List.take_add_one, hcode, areAssigned_append]
  rfl

/-- A walk through code that agrees with the marks has stored the name where it is ready. -/
theorem Walk.hasStored (h : Walk code trace position) (hagree : AllAgree name marks false code)
    (hcode : code[position]? = some instruction)
    (hready : isReady marks (areAssigned name marks false (code.take position)) instruction =
      true) :
    HasStored code trace name := by
  induction h generalizing instruction with
  | start => cases (hagree.at hcode).of_isReady hready
  | @step trace position next hwalk hflows ih =>
    cases hflows with
    | @next earlier hearlier hjump =>
      have hassigned := (hagree.at hcode).of_isReady hready
      rw [areAssigned_take_succ hearlier] at hassigned
      rcases isReady_of_isAssigned hassigned hjump with hready | hdefines
      · exact (ih hearlier hready).step position
      · exact ⟨position, .head _, stores_of_defines hearlier hdefines⟩
    | @goal _ earlier place hearlier hgoal htarget =>
      cases hcode.symm.trans htarget
      have hassigned := (hagree.at hearlier).goal place hgoal hready
      refine (ih hearlier ?_).step position
      rw [isReady_of_label (label?_of_goal hgoal), hassigned]

/-- A walk to an instruction that reads the name has stored it. -/
theorem Walk.hasStored_of_reads (h : Walk code trace position)
    (hagree : AllAgree name marks false code) (hcode : code[position]? = some instruction)
    (hreads : name ∈ instruction.reads) : HasStored code trace name := by
  refine h.hasStored hagree hcode ?_
  rw [isReady_of_label (label?_of_reads hreads), (hagree.at hcode).reads hreads]

/-- A walk to an instruction has stored the names that are carried to it. -/
theorem Walk.hasStored_of_carries {before behind : List Instruction}
    (h : Walk code trace before.length) (hcode : code = before ++ instruction :: behind)
    (hplain : instruction.label? = none) (hcarries : Carries before name) :
    HasStored code trace name := by
  obtain ⟨front, definition, between, rfl, hdefines, hlabels, -⟩ := hcarries
  refine ⟨_, h.mem_trace hcode hlabels hplain, stores_of_defines ?_ hdefines⟩
  exact getElem?_iff_split.2 ⟨front, _, by rw [hcode, List.append_assoc, List.cons_append], rfl⟩

end Instruction

end ThreeAddress
