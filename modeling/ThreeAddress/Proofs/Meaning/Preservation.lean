import ThreeAddress.Proofs.Code.Lowering
import ThreeAddress.Proofs.Meaning.Statements

/-!
# Lowering preserves meaning

A run of the program is followed by the machine: it arrives behind the code in the world that the
run leads to. Conversely, a machine that reaches the end of the code has followed a run of the
program. The first is an induction on the run; the second is one on the rules of the checker, and
for a loop on the steps that the machine has left, since every round passes the label at the top.
-/

namespace ThreeAddress

variable {Value : Type} {meaning : Interpretation Value} {inputs : Nat → Option Value}
  {program : List Instruction} {users : Table}

namespace Tree

/-- What a tree is lowered as: the tail of a conditional as parts of it. -/
def shape (final : String) (tree : Tree) : Shape :=
  if tree.isTail then .parts final else .statements

/-- The tail of a conditional is lowered as parts of it. -/
theorem shape_of_isTail {tree : Tree} (final : String) (h : tree.isTail = true) :
    tree.shape final = .parts final := if_pos h

/-- A statement is lowered as itself. -/
theorem shape_of_isStatement {tree : Tree} (final : String) (h : tree.isTail = false) :
    tree.shape final = .statements := if_neg (by simp [h])

/-- The names that are known before are known afterwards. -/
theorem Checks.known {table after : Table} {tree : Tree} {nodes : List Node}
    (h : tree.Checks table nodes after) (hafter : ∀ name ∈ after, name ∈ users) :
    ∀ name ∈ table, name ∈ users :=
  fun name hname => hafter name (h.grows.mem hname)

section

variable (hlabels : (Instruction.labels program).Nodup)
include hlabels

/-- The machine follows a run of the program. -/
theorem Runs.arrives {tree : Tree} {world world' : World Value}
    (h : tree.Runs meaning inputs world world') {table after : Table} {nodes : List Node}
    {code : List Instruction} {machine : Machine Value} (final : String)
    (hchecks : tree.Checks table nodes after) (hreadable : tree.IsReadable)
    (hafter : ∀ name ∈ after, name ∈ users)
    (hready : machine.Ready program users (tree.shape final) nodes code world) :
    ∃ last, machine.Arrives meaning inputs program users code.length world' last := by
  induction h generalizing table after nodes code machine final with
  | assignment heval =>
    have hknown := hchecks.known hafter
    cases hchecks with
    | assignment _ _ hinfers _ =>
      exact hready.arrives_assignment hinfers (hreadable.part (.head _)) hknown heval
  | letFixed heval =>
    have hknown := hchecks.known hafter
    cases hchecks with
    | letFixed hinfers _ =>
      exact hready.arrives_assignment hinfers (hreadable.part (.head _)) hknown heval
  | letMutable heval =>
    have hknown := hchecks.known hafter
    cases hchecks with
    | letUnset => cases heval
    | letMutable hinfers _ =>
      exact hready.arrives_assignment hinfers (hreadable.part (.head _)) hknown heval
  | letUnset =>
    cases hchecks with
    | letMutable hinfers => cases hinfers
    | letUnset =>
      cases hready.nil
      exact ⟨machine, .refl hready.agrees⟩
  | output heval =>
    have hknown := hchecks.known hafter
    cases hchecks with
    | output hinfers =>
      rcases hready.output hinfers (fun _ => hreadable.part) hknown with
        ⟨values, between, last, heval', harrives⟩ | ⟨heval', -⟩
      · cases heval.symm.trans heval'
        exact ⟨last, harrives⟩
      · cases heval.symm.trans heval'
  | ifTrue htest _ ih =>
    have hknown := hchecks.known hafter
    cases hchecks with
    | ifElse hinfers _ hbody _ htail =>
      have hcondition := hreadable.part (.head _)
      have hreadableBody := hreadable.part (.tail _ (.head _))
      obtain ⟨label, inner, hparts⟩ := hready.conditional meaning inputs
      obtain ⟨body, entered, henters⟩ := hparts.ready.enters_body hlabels hinfers hcondition hknown
        htest
      obtain ⟨arrived, harrives⟩ := ih final hbody hreadableBody
        (htail.known hafter) henters.ready
      obtain ⟨behind, hbehind⟩ := henters.leaves harrives
      exact hparts.leaves hbehind
  | ifFalse htest _ ih =>
    have hknown := hchecks.known hafter
    cases hchecks with
    | ifElse hinfers _ hbody hisTail htail =>
      have hcondition := hreadable.part (.head _)
      have hreadableTail := hreadable.part (.tail _ (.tail _ (.head _)))
      obtain ⟨label, inner, hparts⟩ := hready.conditional meaning inputs
      obtain ⟨rest, entered, henters⟩ := hparts.ready.enters_parts hlabels hinfers hcondition hknown
        htest
      have hentered := henters.ready
      rw [← shape_of_isTail label hisTail] at hentered
      obtain ⟨arrived, harrives⟩ := ih label htail hreadableTail hafter hentered
      obtain ⟨behind, hbehind⟩ := henters.leaves harrives
      exact hparts.leaves hbehind
  | elseIfTrue htest _ ih =>
    have hknown := hchecks.known hafter
    cases hchecks with
    | elseIf hinfers _ hbody _ htail =>
      have hcondition := hreadable.part (.head _)
      have hreadableBody := hreadable.part (.tail _ (.head _))
      obtain ⟨body, entered, henters⟩ := hready.enters_body hlabels hinfers hcondition hknown htest
      obtain ⟨arrived, harrives⟩ := ih final hbody hreadableBody
        (htail.known hafter) henters.ready
      exact henters.leaves harrives
  | elseIfFalse htest _ ih =>
    have hknown := hchecks.known hafter
    cases hchecks with
    | elseIf hinfers _ hbody hisTail htail =>
      have hcondition := hreadable.part (.head _)
      have hreadableTail := hreadable.part (.tail _ (.tail _ (.head _)))
      obtain ⟨rest, entered, henters⟩ := hready.enters_parts hlabels hinfers hcondition hknown htest
      have hentered := henters.ready
      rw [← shape_of_isTail final hisTail] at hentered
      obtain ⟨arrived, harrives⟩ := ih final htail hreadableTail hafter hentered
      exact henters.leaves harrives
  | otherwise _ ih =>
    cases hchecks with
    | otherwise hbody => exact ih final hbody (hreadable.part (.head _)) hafter hready.otherwise
  | noElse =>
    cases hchecks
    cases hready.nil
    exact ⟨machine, .refl hready.agrees⟩
  | loopTrue htest _ _ ihBody ihLoop =>
    have hknown := hchecks.known hafter
    have hloop := hchecks
    cases hchecks with
    | loop hinfers _ hbody =>
      have hcondition := hreadable.part (.head _)
      have hreadableBody := hreadable.part (.tail _ (.head _))
      obtain ⟨next, hstep, ⟨between, body, entered, htest', hleads, hentered, hagain⟩ |
        ⟨_, _, htest', -⟩ | ⟨htest', -⟩⟩ := hready.loop hlabels hinfers hcondition hknown
      · cases htest.symm.trans htest'
        obtain ⟨arrived, harrives⟩ := ihBody final hbody hreadableBody hafter hentered
        obtain ⟨again, hback, hreadyAgain, hposition⟩ := hagain harrives
        obtain ⟨last, hlast⟩ := ihLoop final hloop hreadable hafter hreadyAgain
        refine ⟨last, ?_, ?_, ?_, hlast.agrees⟩
        · exact ((Machine.Leads.of_step hstep).trans hleads).trans
            ((harrives.leads.trans hback).trans hlast.leads)
        · rw [hlast.position, hposition]
        · rw [hlast.pending, hreadyAgain.pending, hready.pending]
      · cases htest.symm.trans htest'
      · cases htest.symm.trans htest'
  | loopFalse htest =>
    have hknown := hchecks.known hafter
    cases hchecks with
    | loop hinfers _ hbody =>
      obtain ⟨next, -, ⟨_, _, _, htest', -⟩ | ⟨between, last, htest', harrives⟩ | ⟨htest', -⟩⟩ :=
        hready.loop hlabels hinfers (hreadable.part (.head _)) hknown
      · cases htest.symm.trans htest'
      · cases htest.symm.trans htest'
        exact ⟨last, harrives⟩
      · cases htest.symm.trans htest'
  | nil =>
    cases hchecks
    cases hready.nil
    exact ⟨machine, .refl hready.agrees⟩
  | cons _ _ ihStatement ihStatements =>
    cases hchecks with
    | cons hisStatement hstatement hstatements =>
      have hreadableStatement := hreadable.part (.head _)
      have hreadableStatements := hreadable.mono (block_sublist ..)
      obtain ⟨first, rest, rfl, hfirst, hrest⟩ := hready.append
      rw [← shape_of_isStatement final hisStatement] at hfirst
      obtain ⟨between, harrives⟩ := ihStatement final hstatement hreadableStatement
        (hstatements.known hafter) hfirst
      obtain ⟨last, hlast⟩ := ihStatements final hstatements hreadableStatements hafter
        (hrest harrives)
      rw [List.length_append]
      exact ⟨last, harrives.trans hlast⟩

/-- A loop has a run if the machine reaches the end from in front of it and the body has one
whenever the machine reaches the end from in front of that. -/
theorem runs_loop {table after : Table} {condition body : Tree} {test : Node} {items : List Node}
    {bodyLine line : Line} {code : List Instruction} {machine last : Machine Value} {bound : Nat}
    {world : World Value} (hinfers : condition.Infers table test)
    (hbody : body.Checks table items after) (hisBody : body.isTail = false)
    (hcondition : condition.IsReadable) (hreadable : body.IsReadable)
    (hafter : ∀ name ∈ after, name ∈ users)
    (hready : machine.Ready program users .statements
      [.loop test (.block items ⟨bodyLine, .void⟩) ⟨line, .void⟩] code world)
    (hruns : ∀ {code : List Instruction} {machine : Machine Value} {bound : Nat}
      {world : World Value}, machine.Ready program users .statements items code world →
      machine.finish meaning inputs program bound = some last →
      ∃ world', body.Runs meaning inputs world world')
    (hfinish : machine.finish meaning inputs program bound = some last) :
    ∃ world', (loop condition body line).Runs meaning inputs world world' := by
  induction bound using Nat.strongRecOn generalizing machine world with
  | ind bound ih =>
    obtain ⟨next, hstep, ⟨between, code', entered, htest, hleads, hentered, hagain⟩ |
      ⟨between, _, htest, -⟩ | ⟨-, hblocked⟩⟩ := hready.loop hlabels hinfers hcondition
        (hbody.known hafter)
    · cases bound with
      | zero => cases hfinish
      | succ bound =>
        rw [Machine.finish_succ hstep] at hfinish
        obtain ⟨rest, hrest, hfinishBody⟩ := hleads.finish hfinish
        obtain ⟨world', hbodyRuns⟩ := hruns hentered hfinishBody
        rw [← shape_of_isStatement "" hisBody] at hentered
        obtain ⟨arrived, harrives⟩ := hbodyRuns.arrives hlabels "" hbody hreadable hafter hentered
        obtain ⟨again, hback, hreadyAgain, -⟩ := hagain harrives
        obtain ⟨rest', hrest', hfinishAgain⟩ := (harrives.leads.trans hback).finish hfinishBody
        obtain ⟨last', hlast'⟩ := ih rest' (by omega) hreadyAgain hfinishAgain
        exact ⟨last', .loopTrue htest hbodyRuns hlast'⟩
    · exact ⟨between, .loopFalse htest⟩
    · rw [hblocked] at hfinish
      cases hfinish

/-- A machine that reaches the end follows a run of the program. -/
theorem Checks.runs {table after : Table} {tree : Tree} {nodes : List Node}
    (hchecks : tree.Checks table nodes after) {code : List Instruction}
    {machine last : Machine Value} {bound : Nat} {world : World Value} (final : String)
    (hreadable : tree.IsReadable) (hafter : ∀ name ∈ after, name ∈ users)
    (hready : machine.Ready program users (tree.shape final) nodes code world)
    (hfinish : machine.finish meaning inputs program bound = some last) :
    ∃ world', tree.Runs meaning inputs world world' := by
  -- A machine that reaches the end is not blocked.
  have hrunning : ∀ {machine : Machine Value} {bound : Nat},
      machine.finish meaning inputs program bound = some last →
      ¬machine.IsBlocked meaning inputs program := by
    intro machine bound hfinish hblocked
    rw [hblocked] at hfinish
    cases hfinish
  induction hchecks generalizing code machine world bound final with
  | assignment _ _ hinfers hresolve =>
    have hknown := fun name hname => hafter name ((Table.grows_of_resolve hresolve).mem hname)
    obtain ⟨value, between, heval⟩ := hready.evaluates_assignment hinfers
      (hreadable.part (.head _)) hknown (hrunning hfinish)
    exact ⟨_, .assignment heval⟩
  | letFixed hinfers hdeclare =>
    have hknown := fun name hname => hafter name ((Table.grows_of_declare hdeclare).mem hname)
    obtain ⟨value, between, heval⟩ := hready.evaluates_assignment hinfers
      (hreadable.part (.head _)) hknown (hrunning hfinish)
    exact ⟨_, .letFixed heval⟩
  | letMutable hinfers hdeclare =>
    have hknown := fun name hname => hafter name ((Table.grows_of_declare hdeclare).mem hname)
    obtain ⟨value, between, heval⟩ := hready.evaluates_assignment hinfers
      (hreadable.part (.head _)) hknown (hrunning hfinish)
    exact ⟨_, .letMutable heval⟩
  | letUnset => exact ⟨world, .letUnset⟩
  | output hinfers =>
    rcases hready.output hinfers (fun _ => hreadable.part) hafter with
      ⟨values, between, -, heval, -⟩ | ⟨-, hblocked⟩
    · exact ⟨_, .output heval⟩
    · exact absurd hblocked (hrunning hfinish)
  | ifElse hinfers _ hbody hisTail htail ihBody ihTail =>
    have hcondition := hreadable.part (.head _)
    have hreadableBody := hreadable.part (.tail _ (.head _))
    have hreadableTail := hreadable.part (.tail _ (.tail _ (.head _)))
    have hbetween := htail.known hafter
    obtain ⟨label, inner, hparts⟩ := hready.conditional meaning inputs
    rcases hparts.ready.branch hlabels hinfers hcondition (hbody.known hbetween) with
      ⟨between, body, entered, htest, henters⟩ | ⟨between, others, entered, htest, henters⟩ |
      ⟨-, hblocked⟩
    · obtain ⟨rest, -, hrest⟩ := henters.leads.finish hfinish
      obtain ⟨world', hruns⟩ := ihBody final hreadableBody hbetween henters.ready hrest
      exact ⟨world', .ifTrue htest hruns⟩
    · obtain ⟨rest, -, hrest⟩ := henters.leads.finish hfinish
      have hentered := henters.ready
      rw [← shape_of_isTail label hisTail] at hentered
      obtain ⟨world', hruns⟩ := ihTail label hreadableTail hafter hentered hrest
      exact ⟨world', .ifFalse htest hruns⟩
    · exact absurd hblocked (hrunning hfinish)
  | elseIf hinfers _ hbody hisTail htail ihBody ihTail =>
    have hcondition := hreadable.part (.head _)
    have hreadableBody := hreadable.part (.tail _ (.head _))
    have hreadableTail := hreadable.part (.tail _ (.tail _ (.head _)))
    have hbetween := htail.known hafter
    rcases hready.branch hlabels hinfers hcondition (hbody.known hbetween) with
      ⟨between, body, entered, htest, henters⟩ | ⟨between, others, entered, htest, henters⟩ |
      ⟨-, hblocked⟩
    · obtain ⟨rest, -, hrest⟩ := henters.leads.finish hfinish
      obtain ⟨world', hruns⟩ := ihBody final hreadableBody hbetween henters.ready hrest
      exact ⟨world', .elseIfTrue htest hruns⟩
    · obtain ⟨rest, -, hrest⟩ := henters.leads.finish hfinish
      have hentered := henters.ready
      rw [← shape_of_isTail final hisTail] at hentered
      obtain ⟨world', hruns⟩ := ihTail final hreadableTail hafter hentered hrest
      exact ⟨world', .elseIfFalse htest hruns⟩
    · exact absurd hblocked (hrunning hfinish)
  | noElse => exact ⟨world, .noElse⟩
  | otherwise _ ih =>
    obtain ⟨world', hruns⟩ := ih final (hreadable.part (.head _)) hafter hready.otherwise hfinish
    exact ⟨world', .otherwise hruns⟩
  | loop hinfers _ hbody ih =>
    have hcondition := hreadable.part (.head _)
    have hreadableBody := hreadable.part (.tail _ (.head _))
    exact runs_loop hlabels hinfers hbody rfl hcondition hreadableBody hafter hready
      (fun hentered => ih final hreadableBody hafter hentered) hfinish
  | nil => exact ⟨world, .nil⟩
  | cons hisStatement hstatement hstatements ihStatement ihStatements =>
    have hreadableStatement := hreadable.part (.head _)
    have hreadableStatements := hreadable.mono (block_sublist ..)
    have hbetween := hstatements.known hafter
    obtain ⟨first, rest, rfl, hfirst, hrest⟩ := hready.append
    rw [← shape_of_isStatement final hisStatement] at hfirst
    obtain ⟨between, hruns⟩ := ihStatement final hreadableStatement hbetween hfirst hfinish
    obtain ⟨arrived, harrives⟩ := hruns.arrives hlabels final hstatement hreadableStatement hbetween
      hfirst
    obtain ⟨bound', -, hfinish'⟩ := harrives.leads.finish hfinish
    obtain ⟨world', hrunsRest⟩ := ihStatements final hreadableStatements hafter (hrest harrives)
      hfinish'
    exact ⟨world', .cons hruns hrunsRest⟩

end

end Tree

/-! ## Programs -/

/-- The texts of names are variables, and those of literals are none. -/
theorem IsLexeme.isOperand {kind : TokenKind} {text : String} (h : IsLexeme kind text.toList) :
    Piece.IsOperand (kind, text) := by
  generalize hchars : text.toList = chars at h
  -- A literal is told by its first character, or is a truth value.
  have hhead : ∀ c, chars.head? = some c → Text.isNameStart c = false →
      Instruction.isVariable text = false := by
    intro c hc hstart
    rw [Instruction.isVariable, hchars, hc, Option.any_some, hstart]
    rfl
  cases h with
  | spelled hspelling =>
    refine ⟨fun hkind => ?_, fun hkind => ?_⟩
    · cases hkind
      cases hspelling
    · have hnone : kind.spelling? = none := by cases kind <;> first | rfl | cases hkind
      rw [hnone] at hspelling
      cases hspelling
  | name hc _ hword =>
    refine ⟨fun _ => ?_, by simp [TokenKind.isLiteral]⟩
    simp only [Instruction.isVariable, Bool.and_eq_true, bne_iff_ne, ne_eq]
    refine ⟨⟨by rw [hchars]; exact hc, ?_⟩, ?_⟩
    · rintro rfl
      rw [← hchars] at hword
      cases hword
    · rintro rfl
      rw [← hchars] at hword
      cases hword
  | yes =>
    rw [show text = "true" from String.toList_inj.1 hchars]
    exact ⟨by simp, fun _ => rfl⟩
  | no =>
    rw [show text = "false" from String.toList_inj.1 hchars]
    exact ⟨by simp, fun _ => rfl⟩
  | whole hc => exact ⟨by simp, fun _ => hhead _ rfl (Text.isNameStart_of_isDigit hc)⟩
  | point hc => exact ⟨by simp, fun _ => hhead _ rfl (Text.isNameStart_of_isDigit hc)⟩
  | plain | escaped | string => exact ⟨by simp, fun _ => hhead _ rfl rfl⟩
  | endOfFile | invalid => exact ⟨by simp, by simp [TokenKind.isLiteral]⟩

namespace Tree

/-- The tree of a source is readable. -/
theorem isReadable_of_ofSource {concurrent : Bool} {budget : Nat} {source : String} {tree : Tree}
    (h : ofSource concurrent budget source = .ok tree) : tree.IsReadable :=
  fun piece hpiece => ((derives_of_ofSource h).2.lexemes piece hpiece).1.isOperand

/-- Checking and lowering preserve meaning, whatever the values, the literals, the operators and the
truth of conditions are, and whatever the inputs: the program has a run iff the machine reaches the
end of the code, and then both print the same, take as many inputs and leave the same values in all
variables of the program. -/
theorem lowerProgram_preserves {concurrent : Bool} {readBudget checkBudget lowerBudget : Nat}
    {source : String} {tree : Tree} {table : Table} {root : Node} {state : CheckState}
    {lines : List String} {builder : Builder}
    (hread : ofSource concurrent readBudget source = .ok tree)
    (hcheck : tree.checkProgram checkBudget { table } = .ok root state)
    (hlower : root.lowerProgram lowerBudget none { table := state.table } = .ok lines builder)
    (meaning : Interpretation Value) (inputs : Nat → Option Value) (memory : String → Value) :
    ((∃ world, tree.Runs meaning inputs ⟨memory, 0, []⟩ world) ↔
      ∃ last, Machine.Completes meaning inputs builder.instructions.toList (.start memory) last) ∧
    ∀ world last, tree.Runs meaning inputs ⟨memory, 0, []⟩ world →
      Machine.Completes meaning inputs builder.instructions.toList (.start memory) last →
      last.world.events = world.events ∧ last.world.reads = world.reads ∧
        ∀ name ∈ state.table, last.world.memory name = world.memory name := by
  obtain ⟨hderives, -⟩ := derives_of_ofSource hread
  have hreadable := isReadable_of_ofSource hread
  obtain ⟨statements, line, rfl, hends⟩ := hderives.checkProgram_ends checkBudget table
  obtain ⟨items, rfl, hchecks⟩ := hends.of_ok hcheck
  have hlowered := hchecks.lowerProgram_ends ⟨line, .void⟩ lowerBudget state.table
  obtain ⟨-, hlowers⟩ := hlowered.of_ok hlower
  have hlabels : (Instruction.labels builder.instructions.toList).Nodup := by
    obtain ⟨numbers, hnumbers, hnodup, -⟩ := hlowers.isLabelled.numbers
    rw [hnumbers]
    exact hnodup.map fun _ _ => Labels.nameOf_injective
  have hready : (Machine.start memory).Ready builder.instructions.toList state.table
      (shape "" (block statements line)) items builder.instructions.toList ⟨memory, 0, []⟩ :=
    ⟨⟨_, _, hlowers, fun _ hname => hname⟩, Instruction.standsAt_self _, nofun, rfl,
      ⟨fun _ _ => rfl, rfl, rfl⟩⟩
  -- Where a run of the program leads, the machine follows it.
  have hfollows : ∀ world, (block statements line).Runs meaning inputs ⟨memory, 0, []⟩ world →
      ∃ last, Machine.Completes meaning inputs builder.instructions.toList (.start memory) last ∧
        world.Agrees state.table last.world := by
    intro world hruns
    obtain ⟨last, hlast⟩ := hruns.arrives hlabels "" hchecks hreadable (fun _ hname => hname) hready
    refine ⟨last, hlast.leads.completes ?_, hlast.agrees⟩
    rw [hlast.position]
    exact Nat.zero_add _
  refine ⟨⟨?_, ?_⟩, ?_⟩
  · intro ⟨world, hruns⟩
    obtain ⟨last, hlast, -⟩ := hfollows world hruns
    exact ⟨last, hlast⟩
  · intro ⟨last, hcompletes⟩
    obtain ⟨bound, hfinish⟩ := Machine.completes_iff.1 hcompletes
    exact hchecks.runs hlabels "" hreadable (fun _ hname => hname) hready hfinish
  · intro world last hruns hcompletes
    obtain ⟨last', hcompletes', hagrees⟩ := hfollows world hruns
    cases hcompletes.unique hcompletes'
    exact ⟨hagrees.events, hagrees.reads, hagrees.memory⟩

/-- A program that prints its first input: the machine prints it too. -/
theorem lowerProgram_preserves_echo :
    ∃ tree root state lines builder,
      ofSource true 12 "let x = input; output \"%d\", x;" = .ok tree ∧
      tree.checkProgram 3 {} = .ok root state ∧
      root.lowerProgram 3 none { table := state.table } = .ok lines builder ∧
      ∃ last : Machine Int, Machine.Completes
        ⟨fun _ => 0, fun _ value => some value, fun _ left right => some (left + right),
          fun value => some (value != 0)⟩
        (fun number => if number = 0 then some 7 else none) builder.instructions.toList
        (.start fun _ => 0) last ∧
      last.world.events = [⟨"\"%d\"", [7]⟩] ∧ last.world.reads = 1 ∧
        last.world.memory "x" = 7 := by
  let meaning : Interpretation Int := ⟨fun _ => 0, fun _ value => some value,
    fun _ left right => some (left + right), fun value => some (value != 0)⟩
  let inputs : Nat → Option Int := fun number => if number = 0 then some 7 else none
  let tree := block [letFixed "x" (.input 1) 1, output "\"%d\"" [var "x" 1] 1] 1
  have htokens : tokenize "let x = input; output \"%d\", x;" =
      [⟨.kwLet, "let", 1⟩, ⟨.ident, "x", 1⟩, ⟨.assign, "=", 1⟩, ⟨.kwInput, "input", 1⟩,
        ⟨.semicolon, ";", 1⟩, ⟨.kwOutput, "output", 1⟩, ⟨.stringLit, "\"%d\"", 1⟩,
        ⟨.comma, ",", 1⟩, ⟨.ident, "x", 1⟩, ⟨.semicolon, ";", 1⟩,
        ⟨.endOfFile, "end of file", 1⟩] := by decide +kernel
  have hread : ofSource true 12 "let x = input; output \"%d\", x;" = .ok tree := by
    rw [ofSource_eq, htokens]
    rfl
  let root := Node.program [.assignment "x" (.input ⟨some 1, .int⟩) true ⟨some 1, .void⟩,
    .output (.format "\"%d\"" ⟨some 1, .string⟩) [.var "x" ⟨some 1, .int⟩] ⟨some 1, .void⟩]
    ⟨some 1, .void⟩
  have hcheck : tree.checkProgram 3 {} =
      .ok root ⟨⟨[⟨"x", .int, false, false⟩], by simp⟩, 0, 2⟩ := rfl
  obtain ⟨lines, builder, hlower⟩ : ∃ lines builder, root.lowerProgram 3 none
      { table := ⟨[⟨"x", .int, false, false⟩], by simp⟩ } = .ok lines builder := ⟨_, _, rfl⟩
  have hruns : tree.Runs meaning inputs ⟨fun _ => 0, 0, []⟩
      ⟨fun name => if name = "x" then 7 else 0, 1, [⟨"\"%d\"", [7]⟩]⟩ := by
    have hinput : (Tree.input 1).evaluate meaning inputs ⟨fun _ => 0, 0, []⟩ =
        some (7, ⟨fun _ => 0, 1, []⟩) := rfl
    exact .cons (.letFixed hinput) (.cons (.output rfl) .nil)
  have hpreserves := lowerProgram_preserves hread hcheck hlower meaning inputs fun _ => 0
  obtain ⟨last, hlast⟩ := hpreserves.1.1 ⟨_, hruns⟩
  obtain ⟨hevents, hreads, hmemory⟩ := hpreserves.2 _ last hruns hlast
  refine ⟨tree, root, _, lines, builder, hread, hcheck, hlower, last, hlast, hevents, hreads,
    hmemory "x" ?_⟩
  exact List.mem_singleton.2 rfl

end Tree

end ThreeAddress
