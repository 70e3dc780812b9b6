import ThreeAddress.Proofs.Compilation.Names
import ThreeAddress.Proofs.Meaning.Initialization

/-!
# The first uses of variables in a run

The checker follows the order of the text: it refuses a variable that no statement in front assigns
to. So a run may still read one before it is stored, but only a name of the program, which is not
definitely assigned to, and by jumping over all assignments in front (`compile_initialized`).
-/

namespace ThreeAddress

open Instruction

namespace Compilation.Follows

variable {budgets : Budgets} {request : Request} {source : String} {tree : Tree}
  {state : CheckState} {builder : Builder} {compilation : Compilation} {name : String}
  {trace : List Nat} {position : Nat} {instruction : Instruction}

/-- A name that is assigned to on every way through the program before it is read has been stored
where it is read. -/
theorem hasStored_of_isSettled (h : compilation.Follows budgets request source tree state builder)
    (hsettled : compilation.root.isSettled name false = true) (hvariable : isVariable name = true)
    (hwalk : Walk builder.instructions.toList trace position)
    (hcode : builder.instructions.toList[position]? = some instruction)
    (hreads : name ∈ instruction.reads) : HasStored builder.instructions.toList trace name := by
  obtain ⟨items, mark, hroot, hlowers, hsound⟩ := h.isSound
  rw [hroot] at hsettled
  obtain ⟨marks, -, hagree, -⟩ : IsMarked name (fun _ => false) false _ _ :=
    hlowers.isMarkable hsound hvariable nofun _ _ hsettled nofun
  exact hwalk.hasStored_of_reads hagree hcode hreads

/-- A variable that is read has been stored, if it is a temporary; a name of the program has an
instruction in front that stores it. -/
theorem stores_of_reads (h : compilation.Follows budgets request source tree state builder)
    (hvariable : isVariable name = true) (hwalk : Walk builder.instructions.toList trace position)
    (hcode : builder.instructions.toList[position]? = some instruction)
    (hreads : name ∈ instruction.reads) :
    HasStored builder.instructions.toList trace name ∨
      name ∈ compilation.table.declared ∧
        ∃ earlier < position, Stores builder.instructions.toList earlier name := by
  obtain ⟨before, behind, hsplit, rfl⟩ := getElem?_iff_split.1 hcode
  have hsupplied := h.areSupplied.reads hsplit name hreads
  by_cases huser : name ∈ state.table
  · exact .inr ⟨h.mem_declared.2 huser, exists_stores (hsupplied.user hvariable huser) hsplit⟩
  · have hcarries := hsupplied.temporary (Table.isTemporary_of_not_mem hvariable huser)
    exact .inl (hwalk.hasStored_of_carries hsplit (label?_of_reads hreads) hcarries)

end Compilation.Follows

/-- What the runs of a compilation read. Whatever literals and operators mean and whatever the
inputs are, a variable that is read has been stored in the run before; or else it is a name of the
program that is not assigned to on every way to where it is used, some instructions in front store
it, and the run has jumped over all of these. -/
theorem compile_initialized {budgets : Budgets} {request : Request} {source : String}
    {compilation : Compilation} (h : (compile budgets request source).1 = .ok compilation) :
    ∃ tree state builder, compilation.Follows budgets request source tree state builder ∧
      ∀ {Value : Type} (meaning : Interpretation Value) (inputs : Nat → Option Value)
        (memory : String → Value) (trace : List Nat) (machine : Machine Value),
        (Machine.start memory).Reaches meaning inputs builder.instructions.toList trace machine →
        ∀ instruction, builder.instructions.toList[machine.position]? = some instruction →
        ∀ name ∈ instruction.reads, isVariable name = true →
          HasStored builder.instructions.toList trace name ∨
            name ∈ compilation.table.declared ∧ compilation.root.isSettled name false = false ∧
            (∃ position < machine.position, Stores builder.instructions.toList position name) ∧
            ∀ position < machine.position, Stores builder.instructions.toList position name →
              PassesOver (machine.position :: trace) position := by
  obtain ⟨tree, state, builder, hfollows⟩ := compile_follows h
  refine ⟨tree, state, builder, hfollows, ?_⟩
  intro Value meaning inputs memory trace machine hreaches instruction hcode name hreads hvariable
  have hwalk := Machine.walk_of_reaches hreaches
  by_cases hstored : HasStored builder.instructions.toList trace name
  · exact .inl hstored
  obtain ⟨huser, hstores⟩ :=
    (hfollows.stores_of_reads hvariable hwalk hcode hreads).resolve_left hstored
  refine .inr ⟨huser, ?_, hstores, fun position hlt hposition => ?_⟩
  · refine Bool.eq_false_iff.2 fun hsettled => hstored ?_
    exact hfollows.hasStored_of_isSettled hsettled hvariable hwalk hcode hreads
  · exact (hwalk.passes hlt).resolve_left fun hmem => hstored ⟨position, hmem, hposition⟩

/-- Truth values as numbers, for programs that have no other literals than these, zero and one, and
no operators. -/
def Interpretation.bits : Interpretation Int where
  literal text := if text = "true" ∨ text = "1" then 1 else 0
  unary _ _ := none
  binary _ _ _ := none
  truth value := some (value != 0)

/-- A variable that is assigned to in both bodies of a conditional has been stored where it is read
behind it. -/
theorem compile_initialized_conditional :
    ∃ (compilation : Compilation) (code : List Instruction) (trace : List Nat)
      (machine : Machine Int),
      (compile {} {}
        "let mut x; if true \x7b x = 1; \x7d else \x7b x = 0; \x7d; output \"%d\", x;").1 =
          .ok compilation ∧
      CUnit.readLines compilation.lines = .ok code ∧
      (Machine.start fun _ => 0).Reaches .bits (fun _ => none) code trace machine ∧
      code[machine.position]? = some (.param "x") ∧ HasStored code trace "x" := by
  let code : List Instruction := [.branch "true" "L2", .jump "L3", .label "L2",
    .assign "x" (some "1") none none, .jump "L1", .label "L3", .assign "x" (some "0") none none,
    .label "L1", .param "\"%d\"", .param "x", .call "printf" 2 none]
  have hresult : (match (compile {} {}
      "let mut x; if true \x7b x = 1; \x7d else \x7b x = 0; \x7d; output \"%d\", x;").1 with
      | .ok compilation =>
        (CUnit.readLines compilation.lines, compilation.root.isSettled "x" false)
      | .error _ => (.error .longCount, false)) = (.ok code, true) := by decide +kernel
  cases hcompile : (compile {} {}
      "let mut x; if true \x7b x = 1; \x7d else \x7b x = 0; \x7d; output \"%d\", x;").1 with
  | error error =>
    rw [hcompile] at hresult
    cases hresult
  | ok compilation =>
    rw [hcompile] at hresult
    obtain ⟨hlines, hsettled⟩ := Prod.mk.inj hresult
    obtain ⟨tree, state, builder, hfollows, hruns⟩ := compile_initialized hcompile
    have hcode : builder.instructions.toList = code :=
      Except.ok.inj ((hfollows.unit rfl).1.symm.trans hlines)
    rw [hcode] at hruns
    let before : World Int := ⟨fun _ => 0, 0, []⟩
    let world : World Int := before.store "x" 1
    let machine : Machine Int := ⟨9, world, [("\"%d\"", 0)]⟩
    have hreaches : (Machine.start fun _ => 0).Reaches .bits (fun _ => none) code
        [8, 7, 4, 3, 2, 0] machine := by
      have hbranch : (Machine.mk 0 before []).step .bits (fun _ => none) code =
          some ⟨2, before, []⟩ := rfl
      have hlabel : (Machine.mk 2 before []).step .bits (fun _ => none) code =
          some ⟨3, before, []⟩ := rfl
      have hassign : (Machine.mk 3 before []).step .bits (fun _ => none) code =
          some ⟨4, world, []⟩ := rfl
      have hjump : (Machine.mk 4 world []).step .bits (fun _ => none) code =
          some ⟨7, world, []⟩ := rfl
      have hend : (Machine.mk 7 world []).step .bits (fun _ => none) code =
          some ⟨8, world, []⟩ := rfl
      have hformat : (Machine.mk 8 world []).step .bits (fun _ => none) code = some machine := rfl
      exact .step (.step (.step (.step (.step (.step .start hbranch) hlabel) hassign) hjump) hend)
        hformat
    refine ⟨compilation, code, _, machine, rfl, hlines, hreaches, rfl, ?_⟩
    refine (hruns _ _ _ _ machine hreaches _ rfl "x" (.head _) rfl).resolve_right ?_
    rintro ⟨-, hnot, -⟩
    cases hnot.symm.trans hsettled

/-- A body that is not entered: its assignment is accepted as one in front, and the variable is read
without having been stored. -/
theorem compile_uninitialized :
    ∃ (compilation : Compilation) (code : List Instruction) (trace : List Nat)
      (machine : Machine Int),
      (compile {} {} "let mut x; if false \x7b x = 1; \x7d; output \"%d\", x;").1 =
        .ok compilation ∧
      CUnit.readLines compilation.lines = .ok code ∧
      (Machine.start fun _ => 0).Reaches .bits (fun _ => none) code trace machine ∧
      code[machine.position]? = some (.param "x") ∧ isVariable "x" = true ∧
      ¬HasStored code trace "x" := by
  let code : List Instruction := [.branch "false" "L2", .jump "L3", .label "L2",
    .assign "x" (some "1") none none, .jump "L1", .label "L3", .label "L1", .param "\"%d\"",
    .param "x", .call "printf" 2 none]
  have hlines : (match (compile {} {}
      "let mut x; if false \x7b x = 1; \x7d; output \"%d\", x;").1 with
      | .ok compilation => CUnit.readLines compilation.lines
      | .error _ => .error .longCount) = .ok code := by decide +kernel
  cases hcompile : (compile {} {} "let mut x; if false \x7b x = 1; \x7d; output \"%d\", x;").1 with
  | error error =>
    rw [hcompile] at hlines
    cases hlines
  | ok compilation =>
    rw [hcompile] at hlines
    let world : World Int := ⟨fun _ => 0, 0, []⟩
    let machine : Machine Int := ⟨8, world, [("\"%d\"", 0)]⟩
    have hreaches : (Machine.start fun _ => 0).Reaches .bits (fun _ => none) code
        [7, 6, 5, 1, 0] machine := by
      have hbranch : (Machine.mk 0 world []).step .bits (fun _ => none) code =
          some ⟨1, world, []⟩ := rfl
      have hjump : (Machine.mk 1 world []).step .bits (fun _ => none) code =
          some ⟨5, world, []⟩ := rfl
      have hexit : (Machine.mk 5 world []).step .bits (fun _ => none) code =
          some ⟨6, world, []⟩ := rfl
      have hend : (Machine.mk 6 world []).step .bits (fun _ => none) code =
          some ⟨7, world, []⟩ := rfl
      have hformat : (Machine.mk 7 world []).step .bits (fun _ => none) code = some machine := rfl
      exact .step (.step (.step (.step (.step .start hbranch) hjump) hexit) hend) hformat
    exact ⟨compilation, code, _, machine, rfl, hlines, hreaches, rfl, rfl, by decide⟩

end ThreeAddress
