import ThreeAddress.Proofs.Compilation

/-!
# The stages of a compilation

A compilation that yields something has gone through all its stages, and what it yields is what
they gave (`Compilation.Follows`). So a result about one stage is one about every compilation: the
tree is a derivation, the checker and lowering have followed their rules, and the code can be
emitted over the last table.
-/

namespace ThreeAddress

open Sequence

/-- What the stages have given on the way to a compilation: the grammar tree, the last state of
the checker, the code under construction at the end, and the unit if C was asked for. -/
structure Compilation.Follows (budgets : Budgets) (request : Request) (source : String)
    (tree : Tree) (state : CheckState) (builder : Builder) (compilation : Compilation) : Prop where
  read : Tree.ofSource request.concurrent budgets.reading source = .ok tree
  checked : tree.checkProgram budgets.checking {} = .ok compilation.root state
  lowered : compilation.root.lowerProgram budgets.lowering none { table := state.table } =
    .ok compilation.lines builder
  table : compilation.table = builder.table
  statistics : compilation.statistics = builder.statistics
  declared : compilation.declared = builder.table.declared.length
  problems : compilation.problems = builder.problems
  emitted : if request.emitC then
      ∃ unit counts, ({ table := builder.table } : Emitter).unit compilation.lines =
        .ok (unit, counts) ∧ compilation.c = some (unit.text "    ")
    else compilation.c = none

namespace Compile

variable {Error State Value : Type} {wrap : Error → CompileError} {journal after : List Progress}

/-- A value has been passed on. -/
theorem orEnd_ok {result : Except Error Value} {value : Value} :
    orEnd wrap result journal = .ok value after ↔ result = .ok value ∧ journal = after := by
  cases result with
  | ok found => exact pure_ok.trans (and_congr_left fun _ => by simp)
  | error error => exact throw_ok.trans (by simp)

/-- A stage has ended with a value. -/
theorem stage_ok {run : EStateM Error State Value} {state : State} {result : Value × State} :
    stage wrap run state journal = .ok result after ↔
      run state = .ok result.1 result.2 ∧ journal = after := by
  obtain ⟨value, last⟩ := result
  unfold stage
  cases run state with
  | ok found last' => exact pure_ok.trans (and_congr_left fun _ => by simp)
  | error error last' => exact throw_ok.trans (by simp)

end Compile

open Compile in
/-- What a compilation yields is what its stages have given. -/
theorem compile_follows {budgets : Budgets} {request : Request} {source : String}
    {compilation : Compilation} (h : (compile budgets request source).1 = .ok compilation) :
    ∃ tree state builder, compilation.Follows budgets request source tree state builder := by
  obtain ⟨journal, hrun⟩ : ∃ journal,
      Compile.source budgets request source [] = .ok compilation journal := by
    rw [compile] at h
    cases hrun : Compile.source budgets request source [] with
    | ok found journal =>
      rw [hrun] at h
      cases h
      exact ⟨journal, rfl⟩
    | error error journal =>
      rw [hrun] at h
      cases h
  simp only [Compile.source, bind_ok] at hrun
  obtain ⟨_, _, -, _, _, hread, ⟨root, table⟩, _, hcheck, ⟨_, _⟩, _, hlower, hrest⟩ := hrun
  simp only [readTree, bind_ok, orEnd_ok, pure_ok] at hread
  obtain ⟨tree, _, ⟨hread, -⟩, _, _, -, rfl, -⟩ := hread
  simp only [checkTree, bind_ok, stage_ok, pure_ok] at hcheck
  obtain ⟨⟨_, state⟩, _, ⟨hcheck, -⟩, _, _, -, heq, -⟩ := hcheck
  cases heq
  simp only [lowerTree, bind_ok, stage_ok, pure_ok] at hlower
  obtain ⟨⟨lines, builder⟩, _, ⟨hlower, -⟩, _, _, -, heq, -⟩ := hlower
  cases heq
  refine ⟨tree, state, builder, ?_⟩
  split at hrest
  · next hemit =>
    simp only [emitLines, map_eq_pure_bind, bind_ok, orEnd_ok, pure_ok] at hrest
    obtain ⟨_, _, ⟨_, _, ⟨⟨unit, counts⟩, _, ⟨hunit, -⟩, _, _, -, rfl, -⟩, rfl, -⟩, rfl, -⟩ := hrest
    exact ⟨hread, hcheck, hlower, rfl, rfl, rfl, rfl, (if_pos hemit).mpr ⟨unit, counts, hunit, rfl⟩⟩
  · next hemit =>
    simp only [bind_ok, pure_ok] at hrest
    obtain ⟨_, _, ⟨rfl, -⟩, rfl, -⟩ := hrest
    exact ⟨hread, hcheck, hlower, rfl, rfl, rfl, rfl, (if_neg hemit).mpr rfl⟩

/-- Where a compilation has a part, such as its code or its C text, there is a compilation. -/
theorem exists_of_part {Part : Type} {budgets : Budgets} {request : Request} {source : String}
    (part : Compilation → Part) {value : Part}
    (h : (compile budgets request source).1.toOption.map part = some value) :
    ∃ compilation, (compile budgets request source).1 = .ok compilation ∧
      part compilation = value := by
  cases hcompile : (compile budgets request source).1 with
  | error error =>
    rw [hcompile] at h
    cases h
  | ok compilation =>
    rw [hcompile] at h
    exact ⟨compilation, rfl, Option.some.inj h⟩

namespace Compilation.Follows

variable {budgets : Budgets} {request : Request} {source : String} {tree : Tree}
  {state : CheckState} {builder : Builder} {compilation : Compilation}

/-- The checker and lowering have followed their rules. -/
theorem lowers (h : compilation.Follows budgets request source tree state builder) :
    compilation.lines = builder.instructions.toList.map (·.text) ∧
      ∃ statements line items, tree = .block statements line ∧
        compilation.root = .program items ⟨line, .void⟩ ∧
        tree.Checks .empty items state.table ∧
        Node.Lowers ⟨state.table, 0⟩ .statements items builder.instructions.toList
          builder.supply := by
  obtain ⟨hderives, -⟩ := Tree.derives_of_ofSource h.read
  obtain ⟨statements, line, rfl, hends⟩ := hderives.checkProgram_ends budgets.checking .empty
  obtain ⟨items, hroot, hchecks⟩ := hends.of_ok h.checked
  have hlowered := h.lowered
  rw [hroot] at hlowered
  obtain ⟨hlines, hlowers⟩ := (hchecks.lowerProgram_ends ⟨line, .void⟩ budgets.lowering
    state.table).of_ok hlowered
  exact ⟨hlines, statements, line, items, rfl, hroot, hchecks, hlowers⟩

/-- The code can be emitted over the last table. -/
theorem isEmitted (h : compilation.Follows budgets request source tree state builder) :
    CUnit.IsEmitted builder.table source.length builder.instructions.toList := by
  obtain ⟨-, hcut⟩ := Tree.derives_of_ofSource h.read
  obtain ⟨-, statements, line, items, rfl, -, hchecks, hlowers⟩ := h.lowers
  exact hchecks.isEmitted hcut hlowers

/-- If C was asked for, the code has been read back from its lines, and the C text is that of its
unit. -/
theorem unit (h : compilation.Follows budgets request source tree state builder)
    (hemit : request.emitC = true) :
    CUnit.readLines compilation.lines = .ok builder.instructions.toList ∧
      ∃ unit, CUnit.ofInstructions builder.table builder.instructions.toList = .ok unit ∧
        compilation.c = some (unit.text "    ") := by
  obtain ⟨hlines, -⟩ := h.lowers
  have hemitted := h.emitted
  rw [if_pos hemit] at hemitted
  obtain ⟨unit, counts, hunit, hc⟩ := hemitted
  rw [hlines] at hunit ⊢
  obtain ⟨code, hread, hunit, -⟩ := Emitter.unit_ok_iff.1 hunit
  rcases CUnit.readLines_text h.isEmitted.isWritten with hback | ⟨hlong, -⟩
  · cases hback.symm.trans hread
    exact ⟨hread, unit, hunit, hc⟩
  · cases hlong.symm.trans hread

end Compilation.Follows

end ThreeAddress
