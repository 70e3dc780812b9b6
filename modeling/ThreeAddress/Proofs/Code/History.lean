import ThreeAddress.Proofs.Code.Invariants

/-!
# Lowering after anything else

A builder may have been used before a program is lowered: for other programs, for single nodes and
single instructions, with success or without, and over other tables. A new run takes nothing over
from all that but the table, and this only if it is not given one
(`Builder.lowerProgram_afresh`).
-/

namespace ThreeAddress

open Sequence

namespace Builder

/-! ## What a builder is used for -/

/-- What may be asked of a builder. A piece of lowering has the budget of its own call. -/
inductive Action where
  | lowerProgram (budget : Nat) (root : Node) (table : Option Table)
  | lower (budget : Nat) (node : Node)
  | lowerValue (budget : Nat) (node : Node)
  | emit (instruction : Instruction)
  | freshTemporary (type : DataType)
  | freshLabel
  | setTable (table : Table)
  | reset

/-- Does what is asked for, and forgets the value of it. -/
def Action.perform : Action → Lower Unit
  | lowerProgram budget root table => do let _ ← root.lowerProgram budget table
  | lower budget node => do let _ ← node.lower budget
  | lowerValue budget node => do let _ ← node.lowerValue budget
  | emit instruction => Lower.emit instruction
  | freshTemporary type => do let _ ← Lower.freshTemporary type
  | freshLabel => do let _ ← Lower.freshLabel
  | setTable table => modify fun builder => { builder with table }
  | reset => modify Builder.reset

/-- The builder after an action, whether it succeeds or fails. -/
def act (builder : Builder) (action : Action) : Builder := last action.perform builder

/-- The builder after several actions, one after the other. -/
def actAll (builder : Builder) (actions : List Action) : Builder := actions.foldl act builder

/-! ## What no action changes -/

/-- A relation that the steps of lowering, a new table and a new run keep is kept by every
action. -/
theorem keeps_action {rel : Builder → Builder → Prop} (h : Lower.IsKept rel)
    (htable : ∀ (builder : Builder) (table : Table), rel builder { builder with table })
    (hreset : ∀ builder : Builder, rel builder builder.reset) (action : Action) :
    Keeps rel action.perform := by
  have hdone {Value : Type} {run : Lower Value} (hrun : Keeps rel run) :
      Keeps rel (do let _ ← run : Lower Unit) := h.bind hrun fun _ => h.pure ()
  cases action with
  | lowerProgram budget root table =>
    refine hdone (h.lowerProgram (fun builder => ?_) budget root)
    exact h.trans (htable builder _) (hreset _)
  | lower budget node => exact hdone (h.lower budget node)
  | lowerValue budget node =>
    exact hdone (h.bind (h.lower budget node) fun operand => h.requireValue node operand)
  | emit instruction => exact h.emit instruction
  | freshTemporary type => exact hdone (h.freshTemporary type)
  | freshLabel => exact hdone h.freshLabel
  | setTable table => exact .modify fun builder => htable builder table
  | reset => exact .modify hreset

/-- What every action keeps is kept by several of them. -/
theorem actAll_keeps {rel : Builder → Builder → Prop} (h : Lower.IsKept rel)
    (hact : ∀ action : Action, Keeps rel action.perform) (actions : List Action)
    (builder : Builder) : rel builder (builder.actAll actions) := by
  induction actions generalizing builder with
  | nil => exact h.refl builder
  | cons action actions ih => exact h.trans (hact action builder) (ih (builder.act action))

/-- Lowering does not change the stem of the labels. -/
theorem isKept_stem :
    Lower.IsKept fun before after => after.labels.stem = before.labels.stem where
  refl _ := rfl
  trans h h' := h'.trans h
  push builder instruction _ := by
    have htarget (name : String) :
        (builder.labels.target name).stem = builder.labels.stem := by
      rw [Labels.target]
      split <;> rfl
    cases instruction with
    | jump name | branch _ name => exact htarget name
    | _ => rfl
  issue _ := rfl
  allocate _ _ _ := rfl

/-- No action changes the stem of the labels. -/
theorem stem_actAll (builder : Builder) (actions : List Action) :
    (builder.actAll actions).labels.stem = builder.labels.stem :=
  actAll_keeps isKept_stem (keeps_action isKept_stem (fun _ _ => rfl) fun _ => rfl) actions builder

/-! ## New runs -/

/-- A new run takes over the table and the stem of the labels only. -/
theorem reset_eq_of_stem {builder other : Builder}
    (h : builder.labels.stem = other.labels.stem) (table : Table) :
    { builder with table }.reset = { other with table }.reset := by
  rw [reset, reset, Labels.reset, Labels.reset, h]

/-- The lowering of a program is the same over every builder with the same table and the same stem
of labels: the same lines or the same error, and the same builder afterwards. -/
theorem lowerProgram_congr {builder other : Builder} (h : builder.labels.stem = other.labels.stem)
    (statements : List Node) (mark : Mark) (budget : Nat) {table table' : Option Table}
    (htable : table.getD builder.table = table'.getD other.table) :
    (Node.program statements mark).lowerProgram budget table builder =
      (Node.program statements mark).lowerProgram budget table' other := by
  have hrun (table : Option Table) (builder : Builder) :
      (Node.program statements mark).lowerProgram budget table builder =
        (Node.program statements mark).lowerProgram budget none
          { builder with table := table.getD builder.table }.reset := rfl
  rw [hrun, hrun table', htable, reset_eq_of_stem h]

/-- Whatever a builder has been used for, with success or without, lowering a program over a table
comes to the same as with a new builder over an equal table, whatever table that one had at first:
the lines or the error are the same, and so is all that is left behind, the code with its numbers
and its problems, the counters, the labels and the table. Without a table it goes on with the one
at hand. A root that is no program is refused, and the builder stays as it is. -/
theorem lowerProgram_afresh (start other : Table) (history : List Action) (budget : Nat)
    (table : Option Table) :
    let builder := actAll { table := start } history
    (∀ statements mark,
      (Node.program statements mark).lowerProgram budget table builder =
        (Node.program statements mark).lowerProgram budget (some (table.getD builder.table))
          { table := other }) ∧
    ∀ root : Node, (∀ statements mark, root ≠ .program statements mark) →
      root.lowerProgram budget table builder = .error (.rootForm root.form) builder := by
  intro builder
  refine ⟨fun statements mark => ?_, fun root hroot => ?_⟩
  · have hstem : builder.labels.stem = ({ table := other } : Builder).labels.stem :=
      stem_actAll { table := start } history
    exact lowerProgram_congr hstem statements mark budget rfl
  · cases root with
    | program statements mark => exact absurd rfl (hroot statements mark)
    | _ => rfl

/-- A loop without a condition leaves a label in the code, three labels drawn, and a temporary for
its operand in the table. The next run starts with neither, and a body is no root. -/
theorem lowerProgram_afresh_loop : ∃ builder : Builder,
    builder = actAll {} [.lower 3 (.loop (.bare ⟨none, .bool⟩) .absent ⟨none, .void⟩),
      .freshTemporary .int] ∧
    builder.lines = ["L1:"] ∧ builder.labels.issued = 3 ∧ builder.table.names = ["t1"] ∧
    (∃ after, (Node.program [.assignment "x" (.input ⟨none, .int⟩) true ⟨none, .void⟩]
        ⟨none, .void⟩).lowerProgram 3 (some .empty) builder =
          .ok ["t1 = call input, 0", "x = t1"] after ∧ after.counts.labels.created = 0 ∧
          after.statistics.temporaries = 1) ∧
    (Node.block [] ⟨none, .void⟩).lowerProgram 3 (some .empty) builder =
      .error (.rootForm "Block") builder := by
  obtain ⟨hprogram, hroot⟩ := lowerProgram_afresh .empty .empty
    [.lower 3 (.loop (.bare ⟨none, .bool⟩) .absent ⟨none, .void⟩), .freshTemporary .int] 3
    (some .empty)
  refine ⟨_, rfl, by decide +kernel, by decide +kernel, by decide +kernel, ?_, ?_⟩
  · exact ⟨_, (hprogram _ _).trans rfl, rfl, rfl⟩
  · exact hroot _ nofun

end Builder

end ThreeAddress
