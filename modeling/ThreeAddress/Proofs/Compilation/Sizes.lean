import ThreeAddress.Proofs.Code.Books
import ThreeAddress.Proofs.Code.Sizes
import ThreeAddress.Proofs.Compilation.Names
import ThreeAddress.Proofs.Table.Calls

/-!
# The numbers of a compilation

The statistics of a compilation are counted in different places: the instructions and the calls in
the code, the temporaries and the labels in the books of the construction, the names in the table.
All of them are sums over the checked tree (`compile_sizes`).
-/

namespace ThreeAddress

/-- The names in a table are those of the program and the temporaries. -/
theorem Table.size_eq (table : Table) :
    table.size = table.declared.length + table.temporaries.length := by
  obtain ⟨-, -, -, hperm⟩ := table.names_split
  have hall := hperm.length_eq
  rw [List.length_append, names, List.length_map] at hall
  exact hall.symm

namespace Compilation.Follows

variable {budgets : Budgets} {request : Request} {source : String} {tree : Tree}
  {state : CheckState} {builder : Builder} {compilation : Compilation}

/-- The labels in the code and in their book. -/
theorem labels_counts (h : compilation.Follows budgets request source tree state builder) :
    builder.labels.counts = ⟨compilation.root.total Node.labelCount,
        compilation.root.total Node.labelCount, compilation.root.total Node.labelCount, 0⟩ ∧
      builder.instructions.toList.countP (·.isLabel) =
        compilation.root.total Node.labelCount := by
  obtain ⟨-, hlays⟩ :=
    (compilation.root.lowerProgram_lays budgets.lowering state.table).of_ok h.lowered
  have hmirrored := Lower.isKept_mirrored.of_lowerProgram h.lowered (.start state.table)
  have hcounts := hlays.labels_counts hmirrored
  have hlabel (instruction : Instruction) : instruction.isLabel = instruction.label?.isSome := by
    cases instruction <;> rfl
  refine ⟨hcounts, ?_⟩
  rw [funext hlabel, ← List.length_filterMap_eq_countP]
  exact hlays.length_labels.trans (congrArg LabelCounts.created hcounts)

/-- As many temporaries have been handed out as there are in the table. -/
theorem temporaries_count (h : compilation.Follows budgets request source tree state builder) :
    builder.temporaries.count = compilation.table.temporaries.length := by
  have hdrawn := Lower.isKept_drawn.of_lowerProgram h.lowered
  rw [h.table]
  simpa [h.temporaries, Temporaries.count] using hdrawn

/-- Nothing is wrong with the code: all jumps have their labels, and all targets their entries. -/
theorem problems_eq (h : compilation.Follows budgets request source tree state builder) :
    compilation.problems = [] := by
  have hunresolved : builder.labels.unresolved = [] :=
    List.eq_nil_of_length_eq_zero (congrArg LabelCounts.unresolved h.labels_counts.1)
  have htargets : ∀ instruction ∈ builder.instructions.toList, ∀ target,
      instruction.defines? = some target → target ∈ builder.table := by
    intro instruction hmem target htarget
    obtain ⟨type, htype, -⟩ := (h.areTyped instruction hmem).type_of_defines htarget
    obtain ⟨entry, hfind, -⟩ := Option.map_eq_some_iff.1 htype
    exact h.table ▸ Table.mem_iff_find?.2 ⟨entry, hfind⟩
  rw [h.problems, Builder.problems, hunresolved, List.map_nil, List.nil_append,
    List.filterMap_eq_nil_iff]
  intro instruction hmem
  split
  · next target htarget => exact if_pos (htargets instruction hmem target htarget)
  · rfl

end Compilation.Follows

/-- The numbers of a compilation. There are as many temporaries as operators and inputs in the tree,
and all of them are in the table. A conditional with `k` conditions has `2 * k + 1` labels and a
loop three, each of them drawn, placed and jumped to (`Node.labelCount`). Every print is a call that
prints and every input one that reads. The names in the table are those of the program, which are
counted apart, and the temporaries. There is nothing wrong with the code, and it has a line for
every temporary and besides them those of its statements (`Node.instructionCount`). -/
theorem compile_sizes {budgets : Budgets} {request : Request} {source : String}
    {compilation : Compilation} (h : (compile budgets request source).1 = .ok compilation) :
    let root := compilation.root
    let statistics := compilation.statistics
    (statistics.temporaries = compilation.table.temporaries.length ∧
        statistics.temporaries = root.preorder.countP Node.takesTemporary) ∧
      (statistics.labels = root.total Node.labelCount ∧
        statistics.counts.labels = ⟨root.total Node.labelCount, root.total Node.labelCount,
          root.total Node.labelCount, 0⟩) ∧
      (statistics.prints = root.preorder.countP Node.isOutput ∧
        statistics.reads = root.preorder.countP Node.isInput) ∧
      (compilation.declared = compilation.table.declared.length ∧
        statistics.identifiers = compilation.declared + statistics.temporaries ∧
        statistics.identifiers = compilation.table.size) ∧
      compilation.problems = [] ∧
      statistics.counts.instructions = compilation.lines.length ∧
      compilation.lines.length = statistics.temporaries + root.total Node.instructionCount := by
  intro root statistics
  obtain ⟨tree, state, builder, hfollows⟩ := compile_follows h
  obtain ⟨hlines, statements, line, items, rfl, hroot, -, hlowers⟩ := hfollows.lowers
  obtain ⟨htemporaries, hprints, hreads, hlength⟩ :=
    hlowers.sizes hfollows.temporaries ⟨line, .void⟩
  rw [← hroot] at htemporaries hprints hreads hlength
  obtain ⟨hcounts, hlabels⟩ := hfollows.labels_counts
  have hstatistics : statistics = builder.statistics := hfollows.statistics
  have hdrawn : statistics.temporaries = compilation.table.temporaries.length := by
    rw [hstatistics]
    exact hfollows.temporaries_count
  have htaken : statistics.temporaries = root.preorder.countP Node.takesTemporary := by
    rw [hdrawn, hfollows.table]
    exact htemporaries
  have hcount : compilation.lines.length = builder.instructions.toList.length := by
    rw [hlines, List.length_map]
  have hdeclared : compilation.declared = compilation.table.declared.length := by
    rw [hfollows.declared, hfollows.table]
  have hidentifiers : statistics.identifiers = compilation.table.size := by
    rw [hstatistics, hfollows.table]
    rfl
  refine ⟨⟨hdrawn, htaken⟩, ⟨?_, ?_⟩, ⟨?_, ?_⟩, ⟨hdeclared, ?_, hidentifiers⟩,
    hfollows.problems_eq, ?_, ?_⟩
  · exact hstatistics ▸ hlabels
  · exact hstatistics ▸ hcounts
  · exact hstatistics ▸ hprints
  · exact hstatistics ▸ hreads
  · rw [hidentifiers, hdeclared, hdrawn]
    exact compilation.table.size_eq
  · exact hstatistics ▸ hcount.symm
  · rw [hcount, hlength, htaken]

/-- A conditional with two conditions in a loop: eight labels, seven temporaries, and 24 lines for
the statements. -/
theorem compile_sizes_nested :
    ∃ compilation, (compile {} {} ("let mut n = input; while n > 0 \x7b" ++
        " if n % 2 == 0 \x7b output \"%d\", n; \x7d" ++
        " else if n == 1 \x7b n = 0; \x7d else \x7b n = -n; \x7d; n = n - 1; \x7d;")).1 =
          .ok compilation ∧
      compilation.root.total Node.labelCount = 8 ∧
      compilation.root.preorder.countP Node.takesTemporary = 7 ∧
      compilation.root.total Node.instructionCount = 24 ∧ compilation.problems = [] := by
  have hnumbers : (match (compile {} {} ("let mut n = input; while n > 0 \x7b" ++
        " if n % 2 == 0 \x7b output \"%d\", n; \x7d" ++
        " else if n == 1 \x7b n = 0; \x7d else \x7b n = -n; \x7d; n = n - 1; \x7d;")).1 with
      | .ok compilation => (compilation.statistics.labels, compilation.statistics.temporaries,
          compilation.lines.length)
      | .error _ => (0, 0, 0)) = (8, 7, 31) := by decide +kernel
  cases hcompile : (compile {} {} ("let mut n = input; while n > 0 \x7b" ++
        " if n % 2 == 0 \x7b output \"%d\", n; \x7d" ++
        " else if n == 1 \x7b n = 0; \x7d else \x7b n = -n; \x7d; n = n - 1; \x7d;")).1 with
  | error error =>
    rw [hcompile] at hnumbers
    cases hnumbers
  | ok compilation =>
    rw [hcompile] at hnumbers
    obtain ⟨hlabels, hnumbers⟩ := Prod.mk.inj hnumbers
    obtain ⟨htemporaries, hlength⟩ := Prod.mk.inj hnumbers
    obtain ⟨⟨-, htaken⟩, ⟨htotal, -⟩, -, -, hproblems, -, hlines⟩ := compile_sizes hcompile
    exact ⟨compilation, rfl, by omega, by omega, by omega, hproblems⟩

end ThreeAddress
