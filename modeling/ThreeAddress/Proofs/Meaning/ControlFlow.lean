import ThreeAddress.Proofs.Code.Arrangement
import ThreeAddress.Proofs.Code.Levels
import ThreeAddress.Proofs.Meaning.Flow

/-!
# The control flow of lowered programs

Each label of a lowered program is placed once and jumped to, conditionals stand in the code as
chains, and only loops jump back, each once and without a condition
(`Node.lowerProgram_controlled`). So code without loops goes forward only, and no run of it is
longer than the code. There is such code for every program that the checker has built and that is
not too deep for the budget.
-/

namespace ThreeAddress

open Instruction Sequence

namespace Node

/-- The control flow of the code of a tree, for which so many labels have been handed out. -/
structure IsControlled (root : Node) (issued : Nat) (code : List Instruction) : Prop where
  /-- No label is placed twice. -/
  nodup : (labels code).Nodup
  /-- The labels that are placed are those that have been handed out. -/
  placed : ∀ name, name ∈ labels code ↔
    ∃ number, 0 < number ∧ number ≤ issued ∧ name = Labels.nameOf number
  /-- The labels that are jumped to are those that are placed. -/
  targeted : ∀ name, name ∈ goals code ↔ name ∈ labels code
  /-- Each loop takes three labels, and each conditional one for its end and two for every
  condition. -/
  count : issued = root.total labelCount
  /-- Each conditional stands in the code as its arms, the code of its last body, and its end. -/
  chained : ∀ part ∈ root.preorder, part.IsChained code
  /-- A jump to a label in front of it has no condition. -/
  unconditional : ∀ {position start : Nat} {instruction : Instruction} {goal : String},
    code[position]? = some instruction → instruction.goal? = some goal →
    code[start]? = some (.label goal) → start < position → instruction = .jump goal
  /-- The jumps back are as many as there are loops, and go to different labels. -/
  returns : ∃ tops : List String, jumpsBack [] code = tops.map .jump ∧ tops.Nodup ∧
    tops.length = root.preorder.countP isLoop
  /-- Without loops no walk through the code is longer than the code. -/
  walks : root.preorder.countP isLoop = 0 → ∀ {trace : List Nat} {position : Nat},
    Walk code trace position → trace.length ≤ code.length
  /-- Without loops no run carries out more instructions than there are. -/
  runs : root.preorder.countP isLoop = 0 → ∀ {Value : Type} {meaning : Interpretation Value}
    {inputs : Nat → Option Value} {memory : String → Value} {trace : List Nat}
    {machine : Machine Value}, (Machine.start memory).Reaches meaning inputs code trace machine →
    trace.length ≤ code.length

variable {root : Node} {issued : Nat} {code : List Instruction}

/-- Code that is laid out is controlled. -/
theorem LaysOut.isControlled (h : LaysOut 0 .statements [root] code issued) :
    root.IsControlled issued code := by
  obtain ⟨tops, hjumps, htops, -, hcount⟩ := h.returns (by rintro _ ⟨⟩)
  have hback : Instruction.jumpsBack [] code = (tops.map Labels.nameOf).map .jump := by
    rw [hjumps, List.map_map]
    rfl
  have hloops : (tops.map Labels.nameOf).length = root.preorder.countP isLoop := by
    rw [List.length_map, hcount, List.map_singleton, List.sum_singleton, loops]
  have hmem {position start : Nat} {instruction : Instruction} {goal : String}
      (hinstruction : code[position]? = some instruction) (hgoal : instruction.goal? = some goal)
      (hlabel : code[start]? = some (.label goal)) (hlt : start < position) :
      instruction ∈ (tops.map Labels.nameOf).map Instruction.jump :=
    hback ▸ mem_jumpsBack hinstruction hgoal (.inr ⟨start, hlt, hlabel⟩)
  have hwalks (hnone : root.preorder.countP isLoop = 0) {trace : List Nat} {position : Nat}
      (hwalk : Walk code trace position) : trace.length ≤ code.length := by
    refine hwalk.length_le fun position next hflows => ?_
    cases hflows with
    | next => exact Nat.lt_succ_self _
    | goal hinstruction hgoal hlabel =>
      rcases Nat.lt_trichotomy position next with hlt | rfl | hlt
      · exact hlt
      · -- A label does not jump.
        cases hinstruction.symm.trans hlabel
        cases hgoal
      · have hjump := hmem hinstruction hgoal hlabel hlt
        rw [List.eq_nil_of_length_eq_zero (hloops.trans hnone)] at hjump
        cases hjump
  exact {
    nodup := h.isLabelled.nodup
    placed := fun name => by
      refine ⟨h.isLabelled.mem_labels, ?_⟩
      rintro ⟨number, hfirst, hlast, rfl⟩
      exact h.placed hfirst hlast
    targeted := fun name => by
      refine ⟨fun hgoal => (h.isLabelled.goals name hgoal).resolve_right ?_, h.jumped name⟩
      rintro ⟨⟩
    count := by simpa [ownLabelCount] using h.last_eq
    chained := h.isChained root (.head _)
    unconditional := fun hinstruction hgoal hlabel hlt => by
      obtain ⟨top, -, rfl⟩ := List.mem_map.1 (hmem hinstruction hgoal hlabel hlt)
      cases hgoal
      rfl
    returns := ⟨_, hback, htops.map fun _ _ => Labels.nameOf_injective, hloops⟩
    walks := hwalks
    runs := fun hnone _ _ _ _ _ _ hreaches => hwalks hnone (Machine.walk_of_reaches hreaches) }

/-- The checker has built the node, from a tree of the grammar and on top of any table. -/
def IsChecked (root : Node) : Prop :=
  ∃ (tree : Tree) (budget : Nat) (before : Table) (after : CheckState),
    tree.Derives .program ∧ tree.checkProgram budget { table := before } = .ok root after

/-- A program that the checker has built is lowered, if it is not nested too deeply. -/
theorem IsChecked.eq_tooDeep (h : root.IsChecked) {budget : Nat} {taken : Table}
    {error : LowerError} {last : Builder}
    (hrun : root.lowerProgram budget none { table := taken } = .error error last) :
    error = .tooDeep := by
  obtain ⟨tree, checkBudget, before, after, hderives, hcheck⟩ := h
  obtain ⟨statements, line, rfl, hends⟩ := hderives.checkProgram_ends checkBudget before
  obtain ⟨items, rfl, hchecks⟩ := hends.of_ok hcheck
  exact (hchecks.lowerProgram_ends ⟨line, .void⟩ budget taken).of_error hrun

/-- Whatever a program is, its code is controlled, or lowering ends with an error that is not about
labels: no label is placed a second time, and none that is jumped to is missing. A program that the
checker has built is lowered, unless it has more levels than the budget allows. -/
theorem lowerProgram_controlled (root : Node) (budget : Nat) (taken : Table) :
    EndsOr (fun error => error.IsApart ∧ (root.IsChecked → error = .tooDeep) ∧
        (error = .tooDeep → budget < root.levels))
      (root.lowerProgram budget none) { table := taken } fun lines last =>
        lines = last.lines ∧ root.IsControlled last.labels.issued last.instructions.toList := by
  rcases root.lowerProgram_lays budget taken with
    ⟨lines, last, hrun, hlines, hlays⟩ | ⟨error, last, hrun, hapart⟩
  · exact .inl ⟨lines, last, hrun, hlines, hlays.isControlled⟩
  · have hlevels := (root.lowerProgram_descends budget none { table := taken }).of_error hrun
    exact .inr ⟨error, last, hrun, hapart, fun hchecked => hchecked.eq_tooDeep hrun, hlevels⟩

end Node

end ThreeAddress
