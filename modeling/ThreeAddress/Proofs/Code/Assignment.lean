import ThreeAddress.Proofs.Code.Lowering
import ThreeAddress.Proofs.Code.Order

/-!
# Definite assignment

A name has a value wherever it is read if it is assigned to before on every way through the tree
(`Node.isSettled`): by an assignment in front, in the same body or in one around it, or by a
conditional that assigns to it in all its bodies, of which one has no condition. The checker does
not ask for this. Where a tree has it, the labels of its code can be marked with whether the name
has been assigned to when they are reached, so that every instruction agrees with the marks
(`Node.Lowers.isMarkable`).
-/

namespace ThreeAddress

open Instruction

/-! ## Trees -/

namespace Node

mutual
/-- Whether a node assigns to a name on every way through it. -/
def assigns (name : String) : Node → Bool
  | assignment target _ _ _ => target == name
  | program statements _ | block statements _ => assignsSome name statements
  | conditional parts _ => assignsEvery name parts
  | absent | bare _ | output .. | loop .. | binary .. | unary .. | literal .. | format .. | var ..
  | input _ => false

/-- Whether one of some statements assigns to a name. -/
def assignsSome (name : String) : List Node → Bool
  | [] => false
  | node :: nodes => assigns name node || assignsSome name nodes

/-- Whether all bodies among the parts of a conditional assign to a name, and one of them has no
condition. -/
def assignsEvery (name : String) : List Node → Bool
  | _ :: body :: parts => assigns name body && assignsEvery name parts
  | [body] => assigns name body
  | [] => false
end

mutual
/-- Whether a name is assigned to before it is read on every way through a node; it may be given
that it has been assigned to before. -/
def isSettled (name : String) (given : Bool) : Node → Bool
  | var other _ => given || other != name
  | program statements _ | block statements _ => areSettled name given statements
  | assignment _ value _ _ => isSettled name given value
  | output _ arguments _ => allSettled name given arguments
  | conditional parts _ => allSettled name given parts
  | loop condition body _ => isSettled name given condition && isSettled name given body
  | binary _ left right _ => isSettled name given left && isSettled name given right
  | unary _ operand _ => isSettled name given operand
  | absent | bare _ | literal .. | format .. | input _ => true

/-- Whether a name is assigned to before it is read in statements one after the other. -/
def areSettled (name : String) (given : Bool) : List Node → Bool
  | [] => true
  | node :: nodes =>
    isSettled name given node && areSettled name (given || assigns name node) nodes

/-- Whether a name is assigned to before it is read in nodes none of which assigns for the others:
arguments, or the parts of a conditional. -/
def allSettled (name : String) (given : Bool) : List Node → Bool
  | [] => true
  | node :: nodes => isSettled name given node && allSettled name given nodes
end

end Node

/-- Whether what is lowered assigns to a name on every way through it. -/
def Shape.assigns (name : String) : Shape → List Node → Bool
  | .statements => Node.assignsSome name
  | .parts _ => Node.assignsEvery name

/-- Whether a name is assigned to before it is read on every way through what is lowered. -/
def Shape.isSettled (name : String) (given : Bool) : Shape → List Node → Bool
  | .statements => Node.areSettled name given
  | .parts _ => Node.allSettled name given

/-! ## Marked code -/

namespace Instruction

/-- Whether a name has been assigned to behind an instruction, if the marks tell so for the labels.
There is no way behind a jump. -/
def isAssigned (name : String) (marks : String → Bool) (given : Bool) : Instruction → Bool
  | .label place => marks place
  | .jump _ => true
  | .assign target _ _ _ => given || target == name
  | .call _ _ target => given || target == some name
  | .branch .. | .param _ => given

/-- Whether a name has been assigned to behind code. -/
def areAssigned (name : String) (marks : String → Bool) (given : Bool) (code : List Instruction) :
    Bool := code.foldl (isAssigned name marks) given

/-- An instruction agrees with the marks: where it reads the name, this has been assigned to, and so
it has where the instruction is or goes to a label that is marked. -/
structure Agrees (name : String) (marks : String → Bool) (given : Bool)
    (instruction : Instruction) : Prop where
  reads : name ∈ instruction.reads → given = true
  label : ∀ label, instruction.label? = some label → marks label = true → given = true
  goal : ∀ goal, instruction.goal? = some goal → marks goal = true → given = true

/-- All instructions agree with the marks. -/
def AllAgree (name : String) (marks : String → Bool) : Bool → List Instruction → Prop
  | _, [] => True
  | given, instruction :: code => Agrees name marks given instruction ∧
      AllAgree name marks (isAssigned name marks given instruction) code

variable {name : String} {marks others : String → Bool} {given more : Bool}
  {instruction : Instruction} {code rest : List Instruction}

/-- An instruction that neither is a label nor goes to one. -/
theorem Agrees.of_plain (hlabel : instruction.label? = none) (hgoal : instruction.goal? = none)
    (h : name ∈ instruction.reads → given = true) : Agrees name marks given instruction := by
  refine ⟨h, fun place hplace => ?_, fun place hplace => ?_⟩
  · rw [hlabel] at hplace
    cases hplace
  · rw [hgoal] at hplace
    cases hplace

/-- A label that is marked only if the name has been assigned to. -/
theorem Agrees.of_label {place : String} (h : marks place = true → given = true) :
    Agrees name marks given (.label place) where
  reads hreads := by cases hreads
  label other heq := Option.some.inj heq ▸ h
  goal other heq := by cases heq

/-- A jump to such a label. -/
theorem Agrees.of_jump {goal : String} (h : marks goal = true → given = true) :
    Agrees name marks given (.jump goal) where
  reads hreads := by cases hreads
  label other heq := by cases heq
  goal other heq := Option.some.inj heq ▸ h

/-- A branch to such a label, on an operand that has been assigned to. -/
theorem Agrees.of_branch {condition goal : String} (hcondition : condition = name → given = true)
    (h : marks goal = true → given = true) : Agrees name marks given (.branch condition goal) where
  reads hreads := hcondition (List.mem_singleton.1 hreads).symm
  label other heq := by cases heq
  goal other heq := Option.some.inj heq ▸ h

@[simp] theorem areAssigned_nil : areAssigned name marks given [] = given := rfl

@[simp] theorem areAssigned_cons : areAssigned name marks given (instruction :: code) =
    areAssigned name marks (isAssigned name marks given instruction) code := rfl

@[simp] theorem areAssigned_append : areAssigned name marks given (code ++ rest) =
    areAssigned name marks (areAssigned name marks given code) rest := List.foldl_append

@[simp] theorem allAgree_nil : AllAgree name marks given [] := trivial

@[simp] theorem allAgree_cons : AllAgree name marks given (instruction :: code) ↔
    Agrees name marks given instruction ∧
      AllAgree name marks (isAssigned name marks given instruction) code := .rfl

/-- More code agrees behind the first. -/
@[simp] theorem allAgree_append : AllAgree name marks given (code ++ rest) ↔
    AllAgree name marks given code ∧
      AllAgree name marks (areAssigned name marks given code) rest := by
  induction code generalizing given with
  | nil => simp
  | cons instruction code ih => simp [ih, and_assoc]

/-- What has been assigned to in front has been so behind. -/
theorem isAssigned_mono (h : given = true → more = true)
    (hassigned : isAssigned name marks given instruction = true) :
    isAssigned name marks more instruction = true := by
  cases instruction with
  | assign | call =>
    rw [isAssigned, Bool.or_eq_true] at hassigned ⊢
    exact hassigned.imp_left h
  | label | jump => exact hassigned
  | branch | param => exact h hassigned

/-- What has been assigned to in front has been so behind. -/
theorem areAssigned_mono (h : given = true → more = true)
    (hassigned : areAssigned name marks given code = true) :
    areAssigned name marks more code = true := by
  induction code generalizing given more with
  | nil => exact h hassigned
  | cons instruction code ih => exact ih (isAssigned_mono h) hassigned

/-- Code agrees as well if more has been assigned to. -/
theorem AllAgree.mono (hcode : AllAgree name marks given code) (h : given = true → more = true) :
    AllAgree name marks more code := by
  induction code generalizing given more with
  | nil => trivial
  | cons instruction code ih =>
    obtain ⟨hinstruction, hrest⟩ := hcode
    exact ⟨⟨fun hreads => h (hinstruction.reads hreads),
      fun label hlabel hmark => h (hinstruction.label label hlabel hmark),
      fun goal hgoal hmark => h (hinstruction.goal goal hgoal hmark)⟩,
      ih hrest (isAssigned_mono h)⟩

/-- Only the marks of the labels in code and of those that it jumps to matter. -/
theorem AllAgree.congr (hcode : AllAgree name marks given code)
    (h : ∀ label, label ∈ labels code ∨ label ∈ goals code → others label = marks label) :
    AllAgree name others given code ∧
      areAssigned name others given code = areAssigned name marks given code := by
  induction code generalizing given with
  | nil => exact ⟨trivial, rfl⟩
  | cons instruction code ih =>
    obtain ⟨hinstruction, hrest⟩ := hcode
    simp only [labels_cons, goals_cons, List.mem_append, Option.mem_toList] at h
    have hassigned : isAssigned name others given instruction =
        isAssigned name marks given instruction := by
      cases instruction with
      | label place => exact h place (.inl (.inl rfl))
      | _ => rfl
    have hbehind := ih hrest fun label hlabel =>
      h label (hlabel.imp .inr .inr)
    rw [allAgree_cons, areAssigned_cons, areAssigned_cons, hassigned]
    refine ⟨⟨⟨hinstruction.reads, fun label hlabel hmark => ?_, fun goal hgoal hmark => ?_⟩,
      hbehind.1⟩, hbehind.2⟩
    · exact hinstruction.label label hlabel (h label (.inl (.inl hlabel)) ▸ hmark)
    · exact hinstruction.goal goal hgoal (h goal (.inr (.inl hgoal)) ▸ hmark)

/-- Straight code takes nothing back. -/
theorem areAssigned_of_straight (hlabels : labels code = []) (hgiven : given = true) :
    areAssigned name marks given code = true := by
  induction code generalizing given with
  | nil => exact hgiven
  | cons instruction code ih =>
    rw [labels_cons, List.append_eq_nil_iff] at hlabels
    refine ih hlabels.2 ?_
    cases instruction with
    | label => cases hlabels.1
    | _ => simp [isAssigned, hgiven]

end Instruction

/-! ## Lowered code -/

namespace Node

variable {users table after : Table} {name operand : String} {marks : String → Bool}
  {given : Bool} {node : Node} {code : List Instruction}

/-- The code of a settled expression agrees with all marks, and its operand has been assigned to. -/
theorem Computes.agrees (h : node.Computes table code operand after)
    (hsound : node.IsSound users) (hvariable : isVariable name = true)
    (hsettled : node.isSettled name given = true) : AllAgree name marks given code ∧
      (operand = name → areAssigned name marks given code = true) := by
  induction h with
  | literal =>
    refine ⟨trivial, ?_⟩
    rintro rfl
    obtain ⟨-, hliteral, -⟩ := (isSound_iff.1 hsound).1
    rw [hliteral] at hvariable
    cases hvariable
  | var =>
    refine ⟨trivial, ?_⟩
    rintro rfl
    simpa [isSettled] using hsettled
  | input =>
    refine ⟨⟨.of_plain rfl rfl (fun hreads => by cases hreads), trivial⟩, ?_⟩
    rintro rfl
    simp [isAssigned]
  | unary _ _ ih =>
    obtain ⟨hcode, hvalue⟩ := ih ((isSound_iff.1 hsound).2 _ (.head _)) hsettled
    refine ⟨allAgree_append.2 ⟨hcode, .of_plain rfl rfl ?_, trivial⟩, ?_⟩
    · simpa [reads] using fun heq : name = _ => hvalue heq.symm
    · rintro rfl
      simp [isAssigned]
  | binary hleft hright _ ihLeft ihRight =>
    obtain ⟨-, hchildren⟩ := isSound_iff.1 hsound
    rw [isSettled, Bool.and_eq_true] at hsettled
    obtain ⟨hleftCode, hfirst⟩ := ihLeft (hchildren _ (.head _)) hsettled.1
    obtain ⟨hrightCode, hsecond⟩ := ihRight (hchildren _ (.tail _ (.head _))) hsettled.2
    have hkept : given = true → areAssigned name marks given _ = true :=
      areAssigned_of_straight hleft.labels.1
    refine ⟨allAgree_append.2 ⟨hleftCode, allAgree_append.2 ⟨hrightCode.mono hkept,
      .of_plain rfl rfl ?_, trivial⟩⟩, ?_⟩
    · simp only [reads, Option.toList_some, List.singleton_append, List.mem_cons,
        List.not_mem_nil, or_false]
      rintro (rfl | rfl)
      · exact areAssigned_of_straight hright.labels.1 (hfirst rfl)
      · exact areAssigned_mono hkept (hsecond rfl)
    · rintro rfl
      simp [isAssigned]

/-- The code of settled arguments agrees with all marks, and their operands have been assigned
to. -/
theorem ComputesAll.agrees {nodes : List Node} {operands : List String}
    (h : ComputesAll table nodes code operands after) (hsound : ∀ node ∈ nodes, node.IsSound users)
    (hvariable : isVariable name = true) (hsettled : allSettled name given nodes = true) :
    AllAgree name marks given code ∧
      (name ∈ operands → areAssigned name marks given code = true) := by
  induction h with
  | nil => exact ⟨trivial, fun hmem => by cases hmem⟩
  | cons hnode hnodes ih =>
    obtain ⟨hsoundNode, hsoundNodes⟩ := List.forall_mem_cons.1 hsound
    rw [allSettled, Bool.and_eq_true] at hsettled
    obtain ⟨hcode, hoperand⟩ := hnode.agrees hsoundNode hvariable hsettled.1
    obtain ⟨hothers, hoperands⟩ := ih hsoundNodes hsettled.2
    have hkept : given = true → areAssigned name marks given _ = true :=
      areAssigned_of_straight hnode.labels.1
    refine ⟨allAgree_append.2 ⟨hcode, hothers.mono hkept⟩, ?_⟩
    rw [areAssigned_append, List.mem_cons]
    rintro (rfl | hmem)
    · exact areAssigned_of_straight hnodes.labels.1 (hoperand rfl)
    · exact areAssigned_mono hkept (hoperands hmem)

end Node

/-- Parameters that have been assigned to. -/
theorem Instruction.allAgree_params {name : String} {marks : String → Bool} {given : Bool}
    {operands : List String} (h : name ∈ operands → given = true) :
    AllAgree name marks given (operands.map .param) := by
  induction operands with
  | nil => trivial
  | cons operand operands ih =>
    rw [List.mem_cons] at h
    refine ⟨.of_plain rfl rfl fun hreads => h (.inl (List.mem_singleton.1 hreads)), ?_⟩
    exact ih fun hmem => h (.inr hmem)

namespace Instruction

/-- The labels in code can be marked so that all instructions agree, where the other labels are
marked already; and if the result is so, the name has been assigned to behind the code. -/
def IsMarked (name : String) (base : String → Bool) (given : Bool) (code : List Instruction)
    (result : Bool) : Prop :=
  ∃ marks : String → Bool, (∀ label, label ∉ labels code → marks label = base label) ∧
    AllAgree name marks given code ∧
    (result = true → areAssigned name marks given code = true)

variable {name : String} {base : String → Bool} {given between result : Bool}
  {code others : List Instruction}

/-- Code that agrees with all marks. -/
theorem IsMarked.of_all (h : ∀ marks, AllAgree name marks given code ∧
      (result = true → areAssigned name marks given code = true)) :
    IsMarked name base given code result :=
  ⟨base, fun _ _ => rfl, h base⟩

/-- Less is asked for behind the code. -/
theorem IsMarked.weaken {less : Bool} (h : IsMarked name base given code result)
    (hless : less = true → result = true) : IsMarked name base given code less := by
  obtain ⟨marks, hmarks, hcode, hresult⟩ := h
  exact ⟨marks, hmarks, hcode, fun h => hresult (hless h)⟩

/-- Code, and more code behind it whose labels are others. -/
theorem IsMarked.append (h : IsMarked name base given code between)
    (hothers : ∀ marks : String → Bool, (∀ label, label ∉ labels code → marks label = base label) →
      IsMarked name marks between others result)
    (hapart : ∀ label, label ∈ labels code ∨ label ∈ goals code → label ∉ labels others) :
    IsMarked name base given (code ++ others) result := by
  obtain ⟨marks, hbase, hcode, hbetween⟩ := h
  obtain ⟨marks', hmarks, hrest, hresult⟩ := hothers marks hbase
  obtain ⟨hcode', hassigned⟩ := hcode.congr fun label hlabel => hmarks label (hapart label hlabel)
  refine ⟨marks', fun label hlabel => ?_, ?_, fun h => ?_⟩
  · rw [labels_append, List.mem_append, not_or] at hlabel
    exact (hmarks label hlabel.2).trans (hbase label hlabel.1)
  · rw [allAgree_append, hassigned]
    exact ⟨hcode', hrest.mono hbetween⟩
  · rw [areAssigned_append, hassigned]
    exact areAssigned_mono hbetween (hresult h)

/-- A condition, and a body under it that begins and ends at labels of its own and then goes on at
another. -/
theorem IsMarked.guarded {test body : List Instruction} {operand inside exit goal : String}
    (htest : ∀ marks, AllAgree name marks given test ∧
      (operand = name → areAssigned name marks given test = true))
    (hlabels : labels test = []) (hbody : ∀ marks, IsMarked name marks given body result)
    (hgoal : base goal = true → result = true) (hinside : goal ≠ inside) (hexit : goal ≠ exit)
    (hapart : inside ∉ labels body ∧ exit ∉ labels body ∧ goal ∉ labels body) :
    IsMarked name base given (test ++ (.branch operand inside :: .jump exit :: .label inside ::
      (body ++ [.jump goal, .label exit]))) given := by
  let start : String → Bool := fun label =>
    if label = inside ∨ label = exit then given else base label
  obtain ⟨marks, hmarks, hcode, hresult⟩ := hbody start
  have hmarkInside : marks inside = given := (hmarks inside hapart.1).trans (if_pos (.inl rfl))
  have hmarkExit : marks exit = given := (hmarks exit hapart.2.1).trans (if_pos (.inr rfl))
  have hmarkGoal : marks goal = base goal :=
    (hmarks goal hapart.2.2).trans (if_neg (not_or.2 ⟨hinside, hexit⟩))
  have hkept : given = true → areAssigned name marks given test = true :=
    areAssigned_of_straight hlabels
  refine ⟨marks, fun label hlabel => ?_, ?_, ?_⟩
  · simp only [labels_append, labels_cons, labels_nil, label?, hlabels, Option.toList_none,
      Option.toList_some, List.nil_append, List.append_nil, List.mem_append, List.mem_cons,
      List.not_mem_nil, or_false, not_or] at hlabel
    rw [hmarks label hlabel.2.1]
    exact if_neg (not_or.2 ⟨hlabel.1, hlabel.2.2⟩)
  · simp only [allAgree_append, allAgree_cons, allAgree_nil, isAssigned, hmarkInside, and_true]
    refine ⟨(htest marks).1, .of_branch (htest marks).2 fun hmark => ?_, .of_jump fun hmark => ?_,
      .of_label fun _ => rfl, hcode, .of_jump fun hmark => ?_, .of_label fun _ => rfl⟩
    · exact hkept (hmarkInside ▸ hmark)
    · exact hkept (hmarkExit ▸ hmark)
    · exact hresult (hgoal (hmarkGoal ▸ hmark))
  · intro hgiven
    simp [isAssigned, hmarkExit, hgiven]

/-- A label in front of code. -/
theorem IsMarked.labelled {label : String}
    (h : IsMarked name (Function.update base label given) given code result)
    (hlabel : label ∉ labels code) : IsMarked name base given (.label label :: code) result := by
  obtain ⟨marks, hmarks, hcode, hresult⟩ := h
  have hmark : marks label = given :=
    (hmarks label hlabel).trans (Function.update_self ..)
  refine ⟨marks, fun other hother => ?_, ?_, ?_⟩
  · rw [labels_cons, List.mem_append, not_or, label?, Option.toList_some, List.mem_singleton]
      at hother
    exact (hmarks other hother.2).trans (Function.update_of_ne hother.1 ..)
  · rw [allAgree_cons, isAssigned, hmark]
    exact ⟨.of_label fun hgiven => hmark ▸ hgiven, hcode⟩
  · rw [areAssigned_cons, isAssigned, hmark]
    exact hresult

/-- A label behind code. -/
theorem IsMarked.ended {label : String}
    (h : IsMarked name (Function.update base label result) given code result)
    (hlabel : label ∉ labels code) : IsMarked name base given (code ++ [.label label]) result := by
  obtain ⟨marks, hmarks, hcode, hresult⟩ := h
  have hmark : marks label = result :=
    (hmarks label hlabel).trans (Function.update_self ..)
  refine ⟨marks, fun other hother => ?_, ?_, ?_⟩
  · rw [labels_append, List.mem_append, not_or] at hother
    have hne : other ≠ label := by simpa [label?] using hother.2
    exact (hmarks other hother.1).trans (Function.update_of_ne hne ..)
  · exact allAgree_append.2 ⟨hcode, .of_label fun hresult' => hresult (hmark ▸ hresult'), trivial⟩
  · intro hresult'
    rw [areAssigned_append, areAssigned_cons, isAssigned, hmark]
    exact hresult'

end Instruction

namespace Node

variable {users : Table} {name : String} {supply after : Supply} {shape : Shape}
  {nodes : List Node} {code others : List Instruction}

/-- The labels in code, and those that it jumps to, are not in code that is lowered later. -/
theorem IsLabelled.apart {first between last : Nat} {shape' : Shape}
    (h : IsLabelled first between shape code) (h' : IsLabelled between last shape' others)
    (hfinal : ∀ final, shape = .parts final → ∃ number ≤ first, final = Labels.nameOf number) :
    ∀ label, label ∈ labels code ∨ label ∈ Instruction.goals code → label ∉ labels others := by
  have hle := h.le
  have hlabels : ∀ label ∈ labels code, label ∉ labels others := fun label hlabel => by
    obtain ⟨number, hnumber, rfl⟩ := h.exists_number label hlabel
    exact h'.not_mem (.inl hnumber)
  rintro label (hlabel | hgoal)
  · exact hlabels label hlabel
  rcases h.goals label hgoal with hlabel | hshape
  · exact hlabels label hlabel
  obtain ⟨number, hnumber, rfl⟩ := hfinal label hshape
  exact h'.not_mem (.inl (by omega))

/-- The code of an assignment. -/
theorem Computes.isMarked {table last : Table} {node : Node} {value : String} {given : Bool}
    {base : String → Bool} (h : node.Computes table code value last) (hsound : node.IsSound users)
    (hvariable : isVariable name = true) (hsettled : node.isSettled name given = true)
    (target : String) : IsMarked name base given
      (code ++ [.assign target (some value) none none]) (given || target == name) := by
  refine .of_all fun marks => ?_
  obtain ⟨hcode, hvalue⟩ : AllAgree name marks given code ∧ _ :=
    h.agrees hsound hvariable hsettled
  refine ⟨allAgree_append.2 ⟨hcode, .of_plain rfl rfl fun hreads => ?_, trivial⟩,
    fun hresult => ?_⟩
  · exact hvalue (List.mem_singleton.1 hreads).symm
  · rw [areAssigned_append, areAssigned_cons, areAssigned_nil, isAssigned, Bool.or_eq_true]
    rw [Bool.or_eq_true] at hresult
    exact hresult.imp_left (areAssigned_of_straight h.labels.1)

/-- The code of a print. -/
theorem ComputesAll.isMarked {table last : Table} {arguments : List Node} {operands : List String}
    {format : String} {given : Bool} {base : String → Bool}
    (h : ComputesAll table arguments code operands last)
    (hsound : ∀ node ∈ arguments, node.IsSound users) (hformat : isVariable format = false)
    (hvariable : isVariable name = true) (hsettled : allSettled name given arguments = true)
    (count : Int) : IsMarked name base given
      (code ++ ((format :: operands).map .param ++ [.call "printf" count none])) given := by
  refine .of_all fun marks => ?_
  obtain ⟨hcode, hoperands⟩ : AllAgree name marks given code ∧ _ :=
    h.agrees hsound hvariable hsettled
  have hparams : AllAgree name marks (areAssigned name marks given code)
      ((format :: operands).map .param) := by
    refine allAgree_params fun hmem => ?_
    rcases List.mem_cons.1 hmem with rfl | hmem
    · rw [hformat] at hvariable
      cases hvariable
    · exact hoperands hmem
  refine ⟨?_, ?_⟩
  · exact allAgree_append.2 ⟨hcode, allAgree_append.2
      ⟨hparams, .of_plain rfl rfl (fun hreads => by cases hreads), trivial⟩⟩
  · exact areAssigned_of_straight (by simp [h.labels.1, label?])

/-- The code of a condition and of a body under it. -/
theorem Computes.guarded {start last : Table} {condition : Node} {operand : String}
    {items : List Node} {test body : List Instruction} {given result : Bool}
    {base : String → Bool} (h : condition.Computes start test operand last) (inside exit goal : Nat)
    (hsound : condition.IsSound users) (hvariable : isVariable name = true)
    (hsettled : condition.isSettled name given = true)
    (hitems : Lowers supply .statements items body after)
    (hbody : ∀ marks, IsMarked name marks given body result)
    (hgoal : base (Labels.nameOf goal) = true → result = true)
    (hle : inside ≤ supply.labels ∧ exit ≤ supply.labels ∧ goal ≤ supply.labels)
    (hne : goal ≠ inside ∧ goal ≠ exit) : IsMarked name base given
      (test ++ (.branch operand (Labels.nameOf inside) :: .jump (Labels.nameOf exit) ::
        .label (Labels.nameOf inside) ::
          (body ++ [.jump (Labels.nameOf goal), .label (Labels.nameOf exit)]))) given := by
  have hnew {number : Nat} (hnumber : number ≤ supply.labels) :
      Labels.nameOf number ∉ Instruction.labels body := hitems.isLabelled.not_mem (.inl hnumber)
  exact .guarded (fun _ => h.agrees hsound hvariable hsettled) h.labels.1 hbody hgoal
    (fun heq => hne.1 (Labels.nameOf_injective heq))
    (fun heq => hne.2 (Labels.nameOf_injective heq)) ⟨hnew hle.1, hnew hle.2.1, hnew hle.2.2⟩

/-- The labels in the code of what is lowered can be marked if it settles the name. The end that the
bodies of a conditional jump to may be marked only if all of them assign to the name. -/
def IsMarkable (name : String) (shape : Shape) (nodes : List Node) (code : List Instruction) :
    Prop :=
  ∀ (given : Bool) (base : String → Bool), shape.isSettled name given nodes = true →
    (∀ final, shape = .parts final → base final = true →
      (given || shape.assigns name nodes) = true) →
    IsMarked name base given code (given || shape.assigns name nodes)

namespace IsMarkable

variable {users between : Table} {name operand : String} {supply after last : Supply}
  {node condition : Node} {items nodes parts : List Node} {mark bodyMark : Mark}
  {code body others : List Instruction}

/-- Nothing to lower. -/
theorem of_nil {shape : Shape} : IsMarkable name shape [] [] := by
  intro given base _ _
  refine .of_all fun marks => ⟨trivial, ?_⟩
  cases shape <;> simp [Shape.assigns, assignsSome, assignsEvery]

/-- A statement and those after it. -/
theorem cons (hone : Lowers supply .statements [node] code after)
    (hnodes : Lowers after .statements nodes others last)
    (hfirst : ∀ (given : Bool) (base : String → Bool), node.isSettled name given = true →
      IsMarked name base given code (given || node.assigns name))
    (hrest : IsMarkable name .statements nodes others) :
    IsMarkable name .statements (node :: nodes) (code ++ others) := by
  intro given base hsettled _
  rw [Shape.isSettled, areSettled, Bool.and_eq_true] at hsettled
  have hall := (hfirst given base hsettled.1).append (fun marks _ => hrest _ marks hsettled.2 nofun)
    (hone.isLabelled.apart hnodes.isLabelled nofun)
  simpa [Shape.assigns, assignsSome, Bool.or_assoc] using hall

/-- A conditional: its end is marked if all its bodies assign to the name. -/
theorem conditional {final : Nat}
    (h : IsMarkable name (.parts (Labels.nameOf final)) parts code)
    (hnew : Labels.nameOf final ∉ Instruction.labels code) (given : Bool) (base : String → Bool)
    (hsettled : (Node.conditional parts mark).isSettled name given = true) :
    IsMarked name base given (code ++ [.label (Labels.nameOf final)])
      (given || (Node.conditional parts mark).assigns name) := by
  refine IsMarked.ended (h _ _ hsettled ?_) hnew
  rintro _ ⟨⟩ hmark
  rwa [Function.update_self] at hmark

/-- A loop: whether its body assigns to the name does not matter behind it. -/
theorem loop (h : condition.Computes supply.table code operand between)
    (hbody : Lowers ⟨between, supply.labels + 3⟩ .statements items body after)
    (hsound : condition.IsSound users) (hvariable : isVariable name = true)
    (hitems : IsMarkable name .statements items body) (given : Bool) (base : String → Bool)
    (hsettled : (Node.loop condition (.block items bodyMark) mark).isSettled name given = true) :
    IsMarked name base given (.label (Labels.nameOf (supply.labels + 1)) :: (code ++
      (.branch operand (Labels.nameOf (supply.labels + 2)) ::
        .jump (Labels.nameOf (supply.labels + 3)) ::
        .label (Labels.nameOf (supply.labels + 2)) :: (body ++
          [.jump (Labels.nameOf (supply.labels + 1)),
            .label (Labels.nameOf (supply.labels + 3))]))))
      (given || (Node.loop condition (.block items bodyMark) mark).assigns name) := by
  rw [isSettled, isSettled, Bool.and_eq_true] at hsettled
  rw [assigns, Bool.or_false]
  have hone : Lowers supply .statements [.loop condition (.block items bodyMark) mark] _ _ :=
    .loop h hbody .nil
  refine .labelled ?_ (List.nodup_cons.1 hone.isLabelled.nodup).1
  refine h.guarded (supply.labels + 2) (supply.labels + 3) (supply.labels + 1) hsound hvariable
    hsettled.1 hbody (fun marks => hitems _ marks hsettled.2 nofun) (fun hgiven => ?_)
    ⟨by simp, by simp, by simp⟩ ⟨by omega, by omega⟩
  rw [Function.update_self] at hgiven
  rw [hgiven, Bool.true_or]

/-- A condition with its body, and the parts after them. -/
theorem branch {number : Nat} (h : condition.Computes supply.table code operand between)
    (hbody : Lowers ⟨between, supply.labels + 2⟩ .statements items body after)
    (hparts : Lowers after (.parts (Labels.nameOf number)) parts others last)
    (hnumber : number ≤ supply.labels) (hsound : condition.IsSound users)
    (hvariable : isVariable name = true) (hitems : IsMarkable name .statements items body)
    (hrest : IsMarkable name (.parts (Labels.nameOf number)) parts others) :
    IsMarkable name (.parts (Labels.nameOf number)) (condition :: .block items mark :: parts)
      (code ++ (.branch operand (Labels.nameOf (supply.labels + 1)) ::
        .jump (Labels.nameOf (supply.labels + 2)) ::
        .label (Labels.nameOf (supply.labels + 1)) :: (body ++
          (.jump (Labels.nameOf number) ::
            .label (Labels.nameOf (supply.labels + 2)) :: others)))) := by
  intro given base hsettled hbase
  simp only [Shape.isSettled, allSettled, isSettled, Bool.and_eq_true] at hsettled
  obtain ⟨hsettledCondition, hsettledItems, hsettledParts⟩ := hsettled
  have hassigned : base (Labels.nameOf number) = true →
      (given || assignsSome name items) = true ∧ (given || assignsEvery name parts) = true := by
    intro hmark
    have hall := hbase _ rfl hmark
    simp only [Shape.assigns, assignsEvery, assigns, Bool.or_eq_true, Bool.and_eq_true] at hall ⊢
    exact ⟨hall.imp_right And.left, hall.imp_right And.right⟩
  have hfirst : IsMarked name base given _ given :=
    h.guarded (supply.labels + 1) (supply.labels + 2) number hsound hvariable hsettledCondition
      hbody (fun marks => hitems _ marks hsettledItems nofun) (fun hmark => (hassigned hmark).1)
      ⟨by simp, by simp, by simp; omega⟩ ⟨by omega, by omega⟩
  have hone : Lowers supply (.parts (Labels.nameOf number)) [condition, .block items mark] _ _ :=
    .branch h hbody .noElse
  have hall := hfirst.append
    (fun marks hmarks => hrest _ marks hsettledParts (by
      rintro _ ⟨⟩ hmark
      rw [hmarks _ (hone.isLabelled.not_mem (.inl hnumber))] at hmark
      exact (hassigned hmark).2))
    (hone.isLabelled.apart hparts.isLabelled (by rintro _ ⟨⟩; exact ⟨number, hnumber, rfl⟩))
  refine IsMarked.weaken (by simpa using hall) fun hresult => ?_
  simp only [Shape.assigns, assignsEvery, Bool.or_eq_true, Bool.and_eq_true] at hresult ⊢
  exact hresult.imp_right And.right

end IsMarkable

/-- The code of a settled tree can be marked. -/
theorem Lowers.isMarkable (h : Lowers supply shape nodes code after)
    (hsound : ∀ node ∈ nodes, node.IsSound users) (hvariable : isVariable name = true)
    (hfinal : ∀ final, shape = .parts final →
      ∃ number ≤ supply.labels, final = Labels.nameOf number) :
    IsMarkable name shape nodes code := by
  induction h with
  | nil | noElse => exact IsMarkable.of_nil
  | @otherwise _ _ _ items _ _ _ ih =>
    have hitems := (isSound_iff.1 (List.forall_mem_singleton.1 hsound)).2
    intro given base hsettled _
    have hsettledItems : areSettled name given items = true := by
      simpa [Shape.isSettled, allSettled, isSettled] using hsettled
    simpa [Shape.assigns, assignsEvery, assigns] using ih hitems nofun _ base hsettledItems nofun
  | @assignment _ _ _ target _ node declares mark _ _ _ hvalue hnodes ih =>
    obtain ⟨hassignment, hothers⟩ := List.forall_mem_cons.1 hsound
    have hone : Lowers _ .statements [.assignment target node declares mark] _ _ :=
      .assignment hvalue .nil
    have hall := IsMarkable.cons hone hnodes
      (fun _ _ hsettled => hvalue.isMarked ((isSound_iff.1 hassignment).2 _ (.head _)) hvariable
        hsettled target) (ih hothers nofun)
    simpa using hall
  | @output _ _ _ format formatMark mark _ _ _ _ operands harguments hnodes ih =>
    obtain ⟨houtput, hothers⟩ := List.forall_mem_cons.1 hsound
    obtain ⟨hsoundFormat, hsoundArguments⟩ := List.forall_mem_cons.1 (isSound_iff.1 houtput).2
    have hformat : isVariable format = false := by
      rw [isVariable, (isSound_iff.1 hsoundFormat).1.2]
      rfl
    have hone : Lowers _ .statements [.output (.format format formatMark) _ mark] _ _ :=
      .output harguments .nil
    have hall := IsMarkable.cons hone hnodes
      (fun _ _ hsettled => by
        rw [assigns, Bool.or_false]
        exact harguments.isMarked hsoundArguments hformat hvariable hsettled (operands.length + 1))
      (ih hothers nofun)
    simpa using hall
  | @conditional supply _ _ parts _ mark _ _ hparts hnodes ihParts ihNodes =>
    obtain ⟨hconditional, hothers⟩ := List.forall_mem_cons.1 hsound
    have hnew : Labels.nameOf (supply.labels + 1) ∉ Instruction.labels _ :=
      hparts.isLabelled.not_mem (.inl (Nat.le_refl _))
    have hone : Lowers supply .statements [.conditional parts mark] _ _ := .conditional hparts .nil
    have hmarkable := ihParts (isSound_iff.1 hconditional).2
      (by rintro _ ⟨⟩; exact ⟨_, Nat.le_refl _, rfl⟩)
    have hall := IsMarkable.cons hone hnodes (hmarkable.conditional hnew) (ihNodes hothers nofun)
    simpa using hall
  | @loop supply _ _ _ condition _ items _ bodyMark mark _ _ _ hcondition hbody hnodes ihBody
      ihNodes =>
    obtain ⟨hloop, hothers⟩ := List.forall_mem_cons.1 hsound
    obtain ⟨hsoundCondition, hblock⟩ := List.forall_mem_cons.1 (isSound_iff.1 hloop).2
    have hitems := ihBody (isSound_iff.1 (List.forall_mem_singleton.1 hblock)).2 nofun
    have hone : Lowers supply .statements [.loop condition (.block items bodyMark) mark] _ _ :=
      .loop hcondition hbody .nil
    have hall := IsMarkable.cons hone hnodes
      (IsMarkable.loop hcondition hbody hsoundCondition hvariable hitems) (ihNodes hothers nofun)
    simpa using hall
  | branch hcondition hbody hparts ihBody ihParts =>
    obtain ⟨number, hnumber, rfl⟩ := hfinal _ rfl
    obtain ⟨hsoundCondition, hothers⟩ := List.forall_mem_cons.1 hsound
    obtain ⟨hblock, hsoundParts⟩ := List.forall_mem_cons.1 hothers
    have hlabels := hbody.isLabelled.le
    refine IsMarkable.branch hcondition hbody hparts hnumber hsoundCondition hvariable
      (ihBody (isSound_iff.1 hblock).2 nofun) (ihParts hsoundParts ?_)
    rintro _ ⟨⟩
    exact ⟨number, by simp at hlabels; omega, rfl⟩

end Node

end ThreeAddress
