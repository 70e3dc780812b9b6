import Mathlib.Data.List.Range
import ThreeAddress.Proofs.Code.Arrangement
import ThreeAddress.Proofs.Code.Invariants
import ThreeAddress.Proofs.Code.Operands

/-!
# Books of the construction

Beside the instructions, the construction of code keeps a book of labels and one of temporaries.
Whatever is done, the book of labels tells the labels in the code and those that it jumps to
(`Builder.IsMirrored`), and the book of temporaries has as many new ones as the table
(`Lower.isKept_drawn`). In the code of a whole program every label that has been drawn is placed
and jumped to (`Node.LaysOut.labels_counts`).
-/

namespace ThreeAddress

open Instruction Sequence

/-! ## The book of labels -/

/-- One more name: it comes behind the others unless it is among them. -/
theorem eraseDups_concat (names : List String) (name : String) :
    (names ++ [name]).eraseDups =
      if name ∈ names then names.eraseDups else names.eraseDups ++ [name] := by
  rw [List.eraseDups_append]
  split
  · next hmem => simp [List.removeAll, hmem]
  · next hmem =>
    have hkept : [name].removeAll names = [name] := by simp [List.removeAll, hmem]
    rw [hkept]
    rfl

/-- Each name is told once. -/
theorem nodup_eraseDups (names : List String) : names.eraseDups.Nodup := by
  induction names using List.reverseRecOn with
  | nil => exact .nil
  | append_singleton names name ih =>
    rw [eraseDups_concat]
    split
    · exact ih
    · next hnew =>
      refine ih.append (List.nodup_singleton name) (List.disjoint_singleton.2 ?_)
      rwa [List.mem_eraseDups]

/-- The book of labels mirrors the code: the labels that are placed are those of the code, the
latest first, each once, and the targets are the goals of its jumps, each at its first jump. -/
structure Builder.IsMirrored (builder : Builder) : Prop where
  placed : builder.labels.placed.reverse = Instruction.labels builder.instructions.toList
  distinct : builder.labels.placed.Nodup
  targets : builder.labels.targets = (goals builder.instructions.toList).eraseDups

namespace Builder.IsMirrored

variable {builder : Builder} {name : String} {instruction : Instruction}

/-- A new construction. -/
theorem start (table : Table) : IsMirrored { table } := ⟨rfl, .nil, rfl⟩

/-- A label is placed in the book iff it is in the code. -/
theorem mem_placed (h : builder.IsMirrored) :
    name ∈ builder.labels.placed ↔ name ∈ Instruction.labels builder.instructions.toList := by
  rw [← h.placed, List.mem_reverse]

/-- A label is a target in the book iff the code jumps to it. -/
theorem mem_targets (h : builder.IsMirrored) :
    name ∈ builder.labels.targets ↔ name ∈ goals builder.instructions.toList := by
  rw [h.targets, List.mem_eraseDups]

/-- A jump behind the code. -/
theorem target (h : builder.IsMirrored) (hgoal : instruction.goal? = some name)
    (hlabel : instruction.label? = none) : IsMirrored { builder with
      labels := builder.labels.target name
      instructions := builder.instructions.push instruction } := by
  have hplaced : (builder.labels.target name).placed = builder.labels.placed := by
    rw [Labels.target]
    split <;> rfl
  refine ⟨?_, hplaced ▸ h.distinct, ?_⟩
  · simp [hplaced, h.placed, hlabel]
  · have hgoals : goals (builder.instructions.push instruction).toList =
        goals builder.instructions.toList ++ [name] := by simp [hgoal]
    rw [hgoals, eraseDups_concat, ← h.targets, Labels.target]
    simp only [h.mem_targets]
    split <;> rfl

/-- An instruction behind the code that places no label a second time. -/
theorem push (h : builder.IsMirrored)
    (hnew : ∀ name ∈ builder.labels.placed, instruction ≠ .label name) :
    (builder.push instruction).IsMirrored := by
  cases instruction with
  | jump name | branch condition name => exact h.target rfl rfl
  | label name =>
    have hnot : name ∉ builder.labels.placed := fun hmem => hnew name hmem rfl
    refine ⟨?_, List.nodup_cons.2 ⟨hnot, h.distinct⟩, ?_⟩
    · simp [Builder.push, Labels.enter, h.placed, label?]
    · simp [Builder.push, Labels.enter, h.targets, goal?]
  | assign | param | call =>
    refine ⟨?_, h.distinct, ?_⟩
    · simp [Builder.push, Labels.enter, h.placed, label?]
    · simp [Builder.push, Labels.enter, h.targets, goal?]

end Builder.IsMirrored

/-- Lowering keeps the book of labels a mirror of the code. -/
theorem Lower.isKept_mirrored :
    IsKept fun before after => before.IsMirrored → after.IsMirrored where
  refl _ := id
  trans h h' := h' ∘ h
  push _ _ hnew h := h.push hnew
  issue _ h := ⟨h.placed, h.distinct, h.targets⟩
  allocate _ _ _ h := ⟨h.placed, h.distinct, h.targets⟩

/-! ## The book of temporaries -/

/-- Lowering counts as many new temporaries as it enters into the table. -/
theorem Lower.isKept_drawn : IsKept fun before after =>
    after.temporaries.count + before.table.temporaries.length =
      before.temporaries.count + after.table.temporaries.length where
  refl _ := rfl
  trans h h' := by omega
  push _ _ _ := rfl
  issue _ := rfl
  allocate builder _ htable := by
    obtain ⟨number, -, hdraws⟩ :=
      Temporaries.draws_allocate builder.temporaries builder.table.names
    rw [(Table.temporaries_of_addTemporary htable).1, List.length_append, List.length_singleton,
      Temporaries.count, Temporaries.count, hdraws.created, List.length_cons]
    omega

/-! ## Whole programs -/

/-- What every step of lowering keeps holds between a new construction and that of a program. -/
theorem Lower.IsKept.of_lowerProgram {rel : Builder → Builder → Prop} (h : IsKept rel)
    {root : Node} {budget : Nat} {table : Table} {lines : List String} {last : Builder}
    (hrun : root.lowerProgram budget none { table } = .ok lines last) : rel { table } last := by
  cases root with
  | program statements mark =>
    obtain ⟨_, start, hreset, hrun⟩ := bind_ok.1 hrun
    cases hreset
    obtain ⟨_, between, hlower, hrun⟩ := bind_ok.1 hrun
    have hlast : between = last := by
      obtain ⟨_, _, hget, hrun⟩ := bind_ok.1 hrun
      cases hget
      split at hrun
      · obtain ⟨_, _, hget, hrun⟩ := bind_ok.1 hrun
        cases hget
        cases hrun
        rfl
      · cases hrun
    exact hlast ▸ (h.lower budget _).of_ok hlower
  | _ => cases hrun

namespace Node.LaysOut

variable {root : Node} {builder : Builder}

/-- There are as many labels in the code of a program as have been drawn. -/
theorem length_labels {code : List Instruction} {last : Nat}
    (h : LaysOut 0 .statements [root] code last) : (Instruction.labels code).length = last := by
  have hnumbers : ((List.range' 1 last).map Labels.nameOf).Nodup :=
    List.Nodup.map (fun _ _ => Labels.nameOf_injective) List.nodup_range'
  have hmem (name : String) :
      name ∈ Instruction.labels code ↔ name ∈ (List.range' 1 last).map Labels.nameOf := by
    rw [List.mem_map]
    constructor
    · intro hname
      obtain ⟨number, hfirst, hlast, rfl⟩ := h.isLabelled.mem_labels hname
      exact ⟨number, List.mem_range'_1.2 (by omega), rfl⟩
    · rintro ⟨number, hnumber, rfl⟩
      obtain ⟨hfirst, hlast⟩ := List.mem_range'_1.1 hnumber
      exact h.placed hfirst (by omega)
  rw [((List.perm_ext_iff_of_nodup h.isLabelled.nodup hnumbers).2 hmem).length_eq, List.length_map,
    List.length_range']

/-- In the code of a whole program every label that has been drawn is placed and jumped to. -/
theorem labels_counts
    (h : LaysOut 0 .statements [root] builder.instructions.toList builder.labels.issued)
    (hmirrored : builder.IsMirrored) :
    builder.labels.counts =
      ⟨root.total labelCount, root.total labelCount, root.total labelCount, 0⟩ := by
  have hissued : builder.labels.issued = root.total labelCount := by
    simpa [ownLabelCount] using h.last_eq
  have hplaced : builder.labels.placed.length = builder.labels.issued := by
    rw [← List.length_reverse, hmirrored.placed, h.length_labels]
  have hsame (name : String) : name ∈ builder.labels.targets ↔ name ∈ builder.labels.placed := by
    rw [hmirrored.mem_targets, hmirrored.mem_placed]
    refine ⟨fun hgoal => ?_, h.jumped name⟩
    exact (h.isLabelled.goals name hgoal).resolve_right Shape.noConfusion
  have htargets : builder.labels.targets.length = builder.labels.placed.length := by
    have hnodup : builder.labels.targets.Nodup := hmirrored.targets ▸ nodup_eraseDups _
    exact ((List.perm_ext_iff_of_nodup hnodup hmirrored.distinct).2 hsame).length_eq
  have hunresolved : builder.labels.unresolved = [] :=
    List.filter_eq_nil_iff.2 fun name hname => by simpa using (hsame name).1 hname
  rw [Labels.counts, hunresolved, htargets, hplaced, hissued]
  rfl

end Node.LaysOut

end ThreeAddress
