import ThreeAddress.Proofs.Code.Books
import ThreeAddress.Proofs.Code.History

/-!
# The book of labels after anything

Labels are entered into their book before the instruction is appended, and an instruction that
places a label a second time is refused, which may be in the middle of a loop or a conditional.
Nevertheless the book mirrors the code, whatever a builder has been used for
(`Builder.isMirrored_actAll`): no step of lowering can come between an entry and its instruction.
So the jumps that lead nowhere can be told from the book alone (`Builder.labels_actAll`).
-/

namespace ThreeAddress

open Instruction

variable {code : List Instruction} {name : String}

namespace Instruction

/-- The labels in code are those of its label instructions. -/
theorem mem_labels_iff : name ∈ labels code ↔ .label name ∈ code := by
  rw [labels, List.mem_filterMap]
  constructor
  · rintro ⟨instruction, hmem, hlabel⟩
    cases instruction <;> cases hlabel
    exact hmem
  · exact fun hmem => ⟨_, hmem, rfl⟩

/-- The labels that code jumps to are those of its jumps, with a condition or without. -/
theorem mem_goals_iff :
    name ∈ goals code ↔ .jump name ∈ code ∨ ∃ condition, .branch condition name ∈ code := by
  rw [goals, List.mem_filterMap]
  constructor
  · rintro ⟨instruction, hmem, hgoal⟩
    cases instruction with
    | jump goal =>
      cases hgoal
      exact .inl hmem
    | branch condition goal =>
      cases hgoal
      exact .inr ⟨condition, hmem⟩
    | _ => cases hgoal
  · rintro (hmem | ⟨condition, hmem⟩) <;> exact ⟨_, hmem, rfl⟩

end Instruction

/-- What is told once is told in the order of the first places. -/
theorem pairwise_idxOf_eraseDups (names : List String) :
    names.eraseDups.Pairwise fun first second => names.idxOf first < names.idxOf second := by
  induction names using List.reverseRecOn with
  | nil => exact .nil
  | append_singleton names name ih =>
    have hfront {other : String} (h : other ∈ names.eraseDups) :
        (names ++ [name]).idxOf other = names.idxOf other :=
      List.idxOf_append_of_mem (List.mem_eraseDups.1 h)
    have hkept : names.eraseDups.Pairwise fun first second =>
        (names ++ [name]).idxOf first < (names ++ [name]).idxOf second :=
      ih.imp_of_mem fun hfirst hsecond hlt => by rwa [hfront hfirst, hfront hsecond]
    rw [eraseDups_concat]
    split
    · exact hkept
    · next hnew =>
      -- A new name has its place behind all others.
      refine List.pairwise_append.2
        ⟨hkept, List.pairwise_singleton _ _, fun first hfirst last hlast => ?_⟩
      rw [List.mem_singleton.1 hlast, hfront hfirst, List.idxOf_append_of_notMem hnew]
      exact Nat.lt_add_right _ (List.idxOf_lt_length_of_mem (List.mem_eraseDups.1 hfirst))

namespace Builder

/-- Every action leaves the book of labels a mirror of the code, whether it succeeds or fails. -/
theorem keeps_mirrored (action : Action) :
    Sequence.Keeps (fun before after => before.IsMirrored → after.IsMirrored) action.perform :=
  keeps_action Lower.isKept_mirrored
    (fun _ _ h => ⟨h.placed, h.distinct, h.targets⟩) (fun _ _ => ⟨rfl, .nil, rfl⟩) action

/-- Whatever a builder has been used for, its book of labels mirrors its code. -/
theorem isMirrored_actAll (start : Table) (history : List Action) :
    (actAll { table := start } history).IsMirrored :=
  actAll_keeps Lower.isKept_mirrored keeps_mirrored history { table := start } (.start start)

/-- The book of labels after any history of a builder, with successes and failures, hand-made
instructions and new runs. The labels placed are those of the label instructions in the code, which
are all different. The labels jumped to are those of the jumps in the code, with a condition or
without. And the labels that are told as unresolved are those of them that no label instruction
places, each once, in the order of the first jumps. -/
theorem labels_actAll (start : Table) (history : List Action) :
    let builder := actAll { table := start } history
    let code := builder.instructions.toList
    let isPlaced (name : String) := .label name ∈ code
    let isTarget (name : String) := .jump name ∈ code ∨ ∃ condition, .branch condition name ∈ code
    (∀ name, name ∈ builder.labels.placed ↔ isPlaced name) ∧
      (Instruction.labels code).Nodup ∧
      (∀ name, name ∈ builder.labels.targets ↔ isTarget name) ∧
      (∀ name, name ∈ builder.labels.unresolved ↔ isTarget name ∧ ¬isPlaced name) ∧
      builder.labels.unresolved.Nodup ∧
      builder.labels.unresolved.Pairwise fun first second =>
        (goals code).idxOf first < (goals code).idxOf second := by
  intro builder code isPlaced isTarget
  have hmirrored : builder.IsMirrored := isMirrored_actAll start history
  have hplaced (name : String) : name ∈ builder.labels.placed ↔ isPlaced name :=
    hmirrored.mem_placed.trans mem_labels_iff
  have htarget (name : String) : name ∈ builder.labels.targets ↔ isTarget name :=
    hmirrored.mem_targets.trans mem_goals_iff
  refine ⟨hplaced, ?_, htarget, fun name => ?_, ?_, ?_⟩
  · rw [← hmirrored.placed]
    exact List.nodup_reverse.2 hmirrored.distinct
  · rw [Labels.unresolved, List.mem_filter, decide_eq_true_iff, htarget, hplaced]
  · rw [Labels.unresolved, hmirrored.targets]
    exact (nodup_eraseDups _).filter _
  · rw [Labels.unresolved, hmirrored.targets]
    exact (pairwise_idxOf_eraseDups _).filter _

/-- A label made by hand stands where a loop wants to place its own: the loop is refused at its
end, and what it has done stays in the code and in the book. -/
example :
    let builder := actAll {} [.emit (.label "L3"), .emit (.jump "end"), .emit (.branch "c" "L9"),
      .lower 2 (.loop (.literal "true" ⟨none, .bool⟩) (.block [] ⟨none, .void⟩) ⟨none, .void⟩),
      .emit (.jump "end")]
    builder.lines = ["L3:", "goto end", "if c goto L9", "L1:", "if true goto L2", "goto L3", "L2:",
      "goto L1", "goto end"] ∧
    builder.labels.unresolved = ["end", "L9"] := by decide +kernel

end Builder

end ThreeAddress
