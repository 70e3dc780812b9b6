import ThreeAddress.Proofs.Meaning.Expressions

/-!
# The code of a statement does what it means

What the code of each statement does, on a machine whose world agrees with that of the program: it
arrives behind the code in the world that the statement leads to, or enters the code of a part of
the statement, or the statement has no result and the machine is blocked.
-/

namespace ThreeAddress

variable {Value : Type} {meaning : Interpretation Value} {inputs : Nat → Option Value}
  {program : List Instruction} {users : Table}

namespace Machine

variable {table after : Table} {machine other last : Machine Value} {world between : World Value}

/-! ## Arguments -/

/-- The code of arguments has their values. -/
theorem computesAll {known : Table} {trees : List Tree} {nodes : List Node}
    {code : List Instruction} {operands : List String}
    (h : List.Forall₂ (Tree.Infers known) trees nodes)
    (hreadable : ∀ tree ∈ trees, tree.IsReadable) (hknown : ∀ name ∈ known, name ∈ users)
    (hcomputes : Node.ComputesAll table nodes code operands after)
    (hcode : Instruction.StandsAt program machine.position code) (hpending : machine.pending = [])
    (hagrees : world.Agrees users machine.world) (husers : ∀ name ∈ users, name ∈ table) :
    (∃ between last,
      Tree.evaluateAll meaning inputs trees world =
        some (operands.map (last.value meaning), between) ∧
      Advances meaning inputs program users table machine code.length between last ∧
      ∀ operand ∈ operands, Instruction.isVariable operand = true → operand ∈ after) ∨
    (Tree.evaluateAll meaning inputs trees world = none ∧
      machine.IsBlocked meaning inputs program) := by
  induction h generalizing table code operands machine world with
  | nil =>
    cases hcomputes
    exact .inl ⟨world, machine, rfl, .refl _ hagrees, nofun⟩
  | @cons tree node trees nodes hinfers _ ih =>
    cases hcomputes with
    | @cons table table' _ _ _ firstCode code operand operands hnode hnodes =>
    have hkept : ∀ name ∈ table, name ∈ table' := fun _ => hnode.grows.mem
    rw [Instruction.standsAt_append] at hcode
    obtain ⟨hreadableTree, hreadableTrees⟩ := List.forall_mem_cons.1 hreadable
    rw [Tree.evaluateAll]
    rcases hinfers.isComputed hreadableTree hknown hnode hcode.1 hpending hagrees husers with
      ⟨value, world₁, next, heval, hnext⟩ | ⟨heval, hblocked⟩
    swap
    · exact .inr ⟨by rw [heval]; rfl, hblocked⟩
    have hcodeRest := hcode.2
    rw [← hnext.position] at hcodeRest
    rcases ih hreadableTrees hnodes hcodeRest (hnext.pending.trans hpending) hnext.agrees
      (fun name hname => hkept name (husers name hname)) with
      ⟨world₂, last, hevalRest, hlast, hoperands⟩ | ⟨hevalRest, hblocked⟩
    · have hvalue : last.value meaning operand = value := by
        rw [← hnext.value]
        exact value_eq fun hvariable => hlast.memory _ (hnext.known hvariable)
      rw [List.length_append]
      refine .inl ⟨world₂, last, ?_, hnext.toAdvances.trans hlast hkept,
        List.forall_mem_cons.2 ⟨fun hvariable => hnodes.grows.mem (hnext.known hvariable),
          hoperands⟩⟩
      rw [heval]
      show (Tree.evaluateAll meaning inputs trees world₁).bind _ = _
      rw [hevalRest, List.map_cons, hvalue]
      rfl
    · refine .inr ⟨?_, hnext.leads.isBlocked hblocked⟩
      rw [heval]
      show (Tree.evaluateAll meaning inputs trees world₁).bind _ = _
      rw [hevalRest]
      rfl

variable (meaning inputs) in
/-- Parameters are set one after the other. -/
theorem leads_params {operands : List String} {rest : List Instruction}
    (hcode : Instruction.StandsAt program machine.position (operands.map .param ++ rest)) :
    ∃ last, Leads meaning inputs program machine last ∧ last.world = machine.world ∧
      last.position = machine.position + operands.length ∧
      last.pending = machine.pending ++ operands.map fun operand =>
        (operand, machine.value meaning operand) := by
  induction operands generalizing machine with
  | nil => exact ⟨machine, .refl machine, rfl, rfl, (List.append_nil _).symm⟩
  | cons operand operands ih =>
    obtain ⟨hparam, hcode⟩ := hcode
    let next : Machine Value := { machine.next machine.world with
      pending := machine.pending ++ [(operand, machine.value meaning operand)] }
    have hnext : Leads meaning inputs program machine next := .of_perform hparam rfl
    have hrest : Instruction.StandsAt program next.position (operands.map .param ++ rest) := hcode
    obtain ⟨last, hleads, hworld, hposition, hpending⟩ := ih hrest
    refine ⟨last, hnext.trans hleads, hworld, ?_, ?_⟩
    · rw [hposition, List.length_cons, Nat.add_comm operands.length, ← Nat.add_assoc]
      rfl
    · rw [hpending, List.map_cons, List.append_cons]
      rfl

/-! ## Labels and jumps -/

/-- Steps that only change the place. -/
theorem Arrives.moves {count count' position : Nat}
    (h : Arrives meaning inputs program users machine count world other)
    (hleads : Leads meaning inputs program other { other with position })
    (hposition : position = machine.position + count') :
    Arrives meaning inputs program users machine count' world { other with position } :=
  ⟨h.leads.trans hleads, hposition, h.pending, h.agrees⟩

/-- A label is passed. -/
theorem leads_label {name : String} (h : program[machine.position]? = some (.label name)) :
    Leads meaning inputs program machine { machine with position := machine.position + 1 } :=
  .of_perform h rfl

section

variable (hlabels : (Instruction.labels program).Nodup)
include hlabels

/-- A label is found at its place. -/
theorem goTo_eq {goal : String} {position : Nat} (h : program[position]? = some (.label goal)) :
    machine.goTo program goal = some { machine with position } := by
  rw [goTo, Instruction.findIdx?_label hlabels h]
  rfl

/-- A jump goes to its label. -/
theorem leads_jump {goal : String} {position : Nat}
    (h : program[machine.position]? = some (.jump goal))
    (hgoal : program[position]? = some (.label goal)) :
    Leads meaning inputs program machine { machine with position } :=
  .of_perform h (goTo_eq hlabels hgoal)

/-- Behind the code of a condition the machine goes on in the code that is guarded, or at the label
that is jumped to otherwise. -/
theorem guard {known : Table} {condition : Tree} {node : Node} {code rest : List Instruction}
    {operand inside next : String} {offset : Nat} (h : condition.Infers known node)
    (hreadable : condition.IsReadable) (hknown : ∀ name ∈ known, name ∈ users)
    (hcomputes : node.Computes table code operand after)
    (hcode : Instruction.StandsAt program machine.position
      (code ++ .branch operand inside :: .jump next :: .label inside :: rest))
    (hnext : program[machine.position + offset]? = some (.label next))
    (hpending : machine.pending = []) (hagrees : world.Agrees users machine.world)
    (husers : ∀ name ∈ users, name ∈ table) :
    (∃ between last, Tree.test meaning inputs condition world = some (true, between) ∧
      Arrives meaning inputs program users machine (code.length + 3) between last) ∨
    (∃ between last, Tree.test meaning inputs condition world = some (false, between) ∧
      Arrives meaning inputs program users machine (offset + 1) between last) ∨
    (Tree.test meaning inputs condition world = none ∧
      machine.IsBlocked meaning inputs program) := by
  rw [Instruction.standsAt_append] at hcode
  obtain ⟨hcodeCondition, hbranch, hjump, hinside, -⟩ := hcode
  rw [Tree.test]
  rcases h.isComputed hreadable hknown hcomputes hcodeCondition hpending hagrees husers with
    ⟨value, between, other, heval, hother⟩ | ⟨heval, hblocked⟩
  swap
  · exact .inr (.inr ⟨by rw [heval]; rfl, hblocked⟩)
  rw [← hother.position] at hbranch hjump hinside
  rw [heval]
  have hperform : other.perform meaning inputs program (.branch operand inside) =
      (meaning.truth value).bind fun holds =>
        if holds then other.goTo program inside else some (other.next other.world) := by
    rw [perform, hother.value]
  cases htruth : meaning.truth value with
  | none =>
    rw [htruth, Option.bind_none] at hperform
    refine .inr (.inr ⟨?_, hother.leads.isBlocked (.of_step hbranch hperform)⟩)
    show (meaning.truth value).bind _ = _
    rw [htruth, Option.bind_none]
  | some holds =>
    rw [htruth, Option.bind_some] at hperform
    have htest : ((meaning.truth value).bind fun holds => some (holds, between)) =
        some (holds, between) := by rw [htruth, Option.bind_some]
    cases holds with
    | true =>
      rw [if_pos rfl, goTo_eq hlabels hinside] at hperform
      have harrives : Arrives meaning inputs program users machine (code.length + 2) between
          { other with position := other.position + 1 + 1 } :=
        hother.toArrives.moves (.of_perform hbranch hperform) (by
          rw [hother.position, Nat.add_assoc, Nat.add_assoc])
      exact .inl ⟨between, _, htest, harrives.moves (leads_label hinside)
        (congrArg (· + 1) harrives.position)⟩
    | false =>
      rw [if_neg (by simp)] at hperform
      have harrives : Arrives meaning inputs program users machine (code.length + 1) between
          { other with position := other.position + 1 } :=
        hother.toArrives.moves (.of_perform hbranch hperform) (by
          rw [hother.position, Nat.add_assoc])
      exact .inr (.inl ⟨between, _, htest, (harrives.moves (leads_jump hlabels hjump hnext)
        rfl).moves (leads_label hnext) (Nat.add_assoc _ _ _)⟩)

end

/-! ## Statements -/

variable (program users) in
/-- The machine stands in front of the code of nodes, in a world that agrees with that of the
program. Behind the parts of a conditional stands the label of its end. -/
structure Ready (shape : Shape) (nodes : List Node) (code : List Instruction)
    (machine : Machine Value) (world : World Value) : Prop where
  lowers : ∃ supply after, Node.Lowers supply shape nodes code after ∧
    ∀ name ∈ users, name ∈ supply.table
  stands : Instruction.StandsAt program machine.position code
  final : ∀ label, shape = .parts label →
    program[machine.position + code.length]? = some (.label label)
  pending : machine.pending = []
  agrees : world.Agrees users machine.world

variable (meaning inputs program users) in
/-- The machine enters the code of nodes. When it has arrived behind that, it goes on to where it
is so many instructions further. -/
structure Enters (shape : Shape) (nodes : List Node) (code : List Instruction)
    (machine : Machine Value) (count : Nat) (world : World Value) (entered : Machine Value) :
    Prop where
  ready : Ready program users shape nodes code entered world
  leads : Leads meaning inputs program machine entered
  leaves : ∀ {between : World Value} {arrived : Machine Value},
    Arrives meaning inputs program users entered code.length between arrived →
    ∃ last, Arrives meaning inputs program users machine count between last

variable {known : Table} {tree condition : Tree} {node : Node} {shape : Shape} {final : String}
  {items nodes others parts : List Node} {code : List Instruction} {mark : Mark}

/-- An assignment stores the value of its expression. -/
theorem Ready.assignment {target : String} {declares : Bool}
    (h : Ready program users .statements [.assignment target node declares mark] code machine world)
    (hinfers : tree.Infers known node) (hreadable : tree.IsReadable)
    (hknown : ∀ name ∈ known, name ∈ users) :
    (∃ value between last, tree.evaluate meaning inputs world = some (value, between) ∧
      Arrives meaning inputs program users machine code.length (between.store target value) last) ∨
    (tree.evaluate meaning inputs world = none ∧ machine.IsBlocked meaning inputs program) := by
  obtain ⟨⟨supply, after, hlowers, husers⟩, hstands, -, hpending, hagrees⟩ := h
  cases hlowers with
  | @assignment _ _ table _ operand _ _ _ _ valueCode _ hvalue hnil =>
  cases hnil
  rw [Instruction.standsAt_append] at hstands
  obtain ⟨hcode, hassign, -⟩ := hstands
  have hcomputed : tree.IsComputed meaning inputs program users node :=
    hinfers.isComputed hreadable hknown
  rcases hcomputed hvalue hcode hpending hagrees husers with
    ⟨value, between, next, heval, hnext⟩ | hnone
  · rw [← hnext.position] at hassign
    have hperform : next.perform meaning inputs program (.assign target (some operand) none none) =
        some (next.store target value) := by rw [perform, hnext.value]
    refine .inl ⟨value, between, next.store target value, heval,
      hnext.leads.trans (.of_perform hassign hperform), ?_, hnext.pending,
      hnext.agrees.store target value⟩
    show next.position + 1 = _
    rw [hnext.position, List.length_append, Nat.add_assoc]
    rfl
  · exact .inr hnone

/-- The value of an assigned expression is stored. -/
theorem Ready.arrives_assignment {target : String} {declares : Bool} {value : Value}
    (h : Ready program users .statements [.assignment target node declares mark] code machine world)
    (hinfers : tree.Infers known node) (hreadable : tree.IsReadable)
    (hknown : ∀ name ∈ known, name ∈ users)
    (heval : tree.evaluate meaning inputs world = some (value, between)) :
    ∃ last, Arrives meaning inputs program users machine code.length (between.store target value)
      last := by
  rcases h.assignment hinfers hreadable hknown with
    ⟨value', between', last, heval', harrives⟩ | ⟨heval', -⟩
  · cases heval.symm.trans heval'
    exact ⟨last, harrives⟩
  · cases heval.symm.trans heval'

/-- The expression of an assignment has a value if the machine is not blocked in front of it. -/
theorem Ready.evaluates_assignment {target : String} {declares : Bool}
    (h : Ready program users .statements [.assignment target node declares mark] code machine world)
    (hinfers : tree.Infers known node) (hreadable : tree.IsReadable)
    (hknown : ∀ name ∈ known, name ∈ users)
    (hrunning : ¬machine.IsBlocked meaning inputs program) :
    ∃ value between, tree.evaluate meaning inputs world = some (value, between) := by
  rcases h.assignment hinfers hreadable hknown with
    ⟨value, between, -, heval, -⟩ | ⟨-, hblocked⟩
  · exact ⟨value, between, heval⟩
  · exact absurd hblocked hrunning

/-- A print prints its format text and the values of its arguments. -/
theorem Ready.output {format : String} {formatMark : Mark} {trees : List Tree}
    (h : Ready program users .statements [.output (.format format formatMark) nodes mark] code
      machine world)
    (hinfers : List.Forall₂ (Tree.Infers known) trees nodes)
    (hreadable : ∀ tree ∈ trees, tree.IsReadable) (hknown : ∀ name ∈ known, name ∈ users) :
    (∃ values between last, Tree.evaluateAll meaning inputs trees world = some (values, between) ∧
      Arrives meaning inputs program users machine code.length (between.print ⟨format, values⟩)
        last) ∨
    (Tree.evaluateAll meaning inputs trees world = none ∧
      machine.IsBlocked meaning inputs program) := by
  obtain ⟨⟨supply, after, hlowers, husers⟩, hstands, -, hpending, hagrees⟩ := h
  cases hlowers with
  | @output _ _ table _ _ _ _ _ argumentsCode _ operands harguments hnil =>
  cases hnil
  rw [Instruction.standsAt_append] at hstands
  obtain ⟨hcode, hparams⟩ := hstands
  rcases computesAll hinfers hreadable hknown harguments hcode hpending hagrees husers with
    ⟨between, next, heval, hnext, -⟩ | hnone
  swap
  · exact .inr hnone
  rw [← hnext.position] at hparams
  obtain ⟨set, hset, hworld, hposition, hpendingSet⟩ :=
    leads_params meaning inputs hparams
  rw [Instruction.standsAt_append, List.length_map, ← hposition] at hparams
  rw [hnext.pending, hpending, List.nil_append] at hpendingSet
  have hperform : set.perform meaning inputs program
      (.call "printf" (operands.length + 1) none) =
      some { set.next (next.world.print ⟨format, operands.map (next.value meaning)⟩) with
        pending := [] } := by
    simp [perform, call, hpendingSet, hworld, Function.comp_def]
  refine .inl ⟨_, between, _, heval,
    (hnext.leads.trans hset).trans (.of_perform hparams.2.1 hperform), ?_, hpending.symm,
    hnext.agrees.print _⟩
  show set.position + 1 = _
  rw [hposition, hnext.position]
  simp only [List.length_append, List.length_map, List.length_cons, List.length_nil]
  omega

/-- No nodes have no code. -/
theorem Ready.nil (h : Ready program users shape [] code machine world) : code = [] := by
  obtain ⟨supply, after, hlowers, -⟩ := h.lowers
  cases hlowers <;> rfl

/-- A block without a condition is entered at once. -/
theorem Ready.otherwise
    (h : Ready program users (.parts final) [.block items mark] code machine world) :
    Ready program users .statements items code machine world := by
  obtain ⟨⟨supply, after, hlowers, husers⟩, hstands, -, hpending, hagrees⟩ := h
  cases hlowers with
  | otherwise hitems => exact ⟨⟨supply, _, hitems, husers⟩, hstands, nofun, hpending, hagrees⟩

/-- The code of statements is run piece by piece. -/
theorem Ready.append
    (h : Ready program users .statements (nodes ++ others) code machine world) :
    ∃ first rest, code = first ++ rest ∧
      Ready program users .statements nodes first machine world ∧
      ∀ {between : World Value} {arrived : Machine Value},
        Arrives meaning inputs program users machine first.length between arrived →
        Ready program users .statements others rest arrived between := by
  obtain ⟨⟨supply, after, hlowers, husers⟩, hstands, -, hpending, hagrees⟩ := h
  obtain ⟨first, rest, between, rfl, hfirst, hrest⟩ := hlowers.append_inv
  rw [Instruction.standsAt_append] at hstands
  refine ⟨first, rest, rfl, ⟨⟨_, _, hfirst, husers⟩, hstands.1, nofun, hpending, hagrees⟩, ?_⟩
  intro world' arrived harrived
  refine ⟨⟨_, _, hrest, fun name hname => hfirst.grows.mem (husers name hname)⟩, ?_, nofun,
    harrived.pending.trans hpending, harrived.agrees⟩
  rw [harrived.position]
  exact hstands.2

variable (meaning inputs) in
/-- A conditional is entered at its first part, and its end is a label. -/
theorem Ready.conditional
    (h : Ready program users .statements [.conditional parts mark] code machine world) :
    ∃ final inner, Enters meaning inputs program users (.parts final) parts inner machine
      code.length world machine := by
  obtain ⟨⟨supply, after, hlowers, husers⟩, hstands, -, hpending, hagrees⟩ := h
  cases hlowers with
  | @conditional _ _ _ _ _ _ inner _ hparts hnil =>
  cases hnil
  rw [Instruction.standsAt_append] at hstands
  obtain ⟨hinner, hfinal, -⟩ := hstands
  refine ⟨_, inner, ⟨⟨_, _, hparts, husers⟩, hinner, ?_, hpending, hagrees⟩, .refl machine, ?_⟩
  · intro label hlabel
    cases hlabel
    exact hfinal
  · intro between arrived harrived
    rw [← harrived.position] at hfinal
    refine ⟨_, harrived.moves (leads_label hfinal) ?_⟩
    rw [harrived.position, List.length_append, List.length_singleton, Nat.add_assoc]

section

variable (hlabels : (Instruction.labels program).Nodup)
include hlabels

/-- Of the parts of a conditional the body is entered if the condition holds, and the other parts
if it does not. -/
theorem Ready.branch
    (h : Ready program users (.parts final) (node :: .block items mark :: parts) code machine world)
    (hinfers : condition.Infers known node) (hreadable : condition.IsReadable)
    (hknown : ∀ name ∈ known, name ∈ users) :
    (∃ between body entered, Tree.test meaning inputs condition world = some (true, between) ∧
      Enters meaning inputs program users .statements items body machine code.length between
        entered) ∨
    (∃ between rest entered, Tree.test meaning inputs condition world = some (false, between) ∧
      Enters meaning inputs program users (.parts final) parts rest machine code.length between
        entered) ∨
    (Tree.test meaning inputs condition world = none ∧
      machine.IsBlocked meaning inputs program) := by
  obtain ⟨⟨supply, after, hlowers, husers⟩, hstands, hfinal, hpending, hagrees⟩ := h
  cases hlowers with
  | @branch _ between' _ table _ _ operand _ _ _ testCode body rest hcondition hbody hparts =>
  have hcode := hstands
  simp only [Instruction.standsAt_append, Instruction.standsAt_cons] at hstands
  obtain ⟨-, -, -, -, hstandsBody, hjump, hnext, hstandsRest⟩ := hstands
  have husersBody : ∀ name ∈ users, name ∈ table :=
    fun name hname => hcondition.grows.mem (husers name hname)
  have hlength : (testCode ++ .branch operand (Labels.nameOf (supply.labels + 1)) ::
      .jump (Labels.nameOf (supply.labels + 2)) :: .label (Labels.nameOf (supply.labels + 1)) ::
      (body ++ (.jump final :: .label (Labels.nameOf (supply.labels + 2)) :: rest))).length =
      testCode.length + 3 + body.length + 2 + rest.length := by
    simp only [List.length_append, List.length_cons]
    omega
  rw [hlength] at hfinal ⊢
  have hoffset : machine.position + testCode.length + 1 + 1 + 1 + body.length + 1 =
      machine.position + (testCode.length + 3 + body.length + 1) := by omega
  rw [hoffset] at hnext
  rcases guard hlabels hinfers hreadable hknown hcondition hcode hnext hpending hagrees husers with
    ⟨between, entered, htest, harrives⟩ | ⟨between, entered, htest, harrives⟩ | hnone
  · refine .inl ⟨between, body, entered, htest, ⟨⟨_, _, hbody, husersBody⟩, ?_, by simp,
      harrives.pending.trans hpending, harrives.agrees⟩, harrives.leads, ?_⟩
    · rw [harrives.position]
      exact hstandsBody
    · intro world' arrived harrived
      have hfinal' := hfinal final rfl
      have hposition := harrived.position
      rw [harrives.position] at hposition
      have hjump' : program[arrived.position]? = some (.jump final) := by
        rw [hposition]
        exact hjump
      exact ⟨_, (harrives.trans harrived).moves (leads_jump hlabels hjump' hfinal') rfl⟩
  · refine .inr (.inl ⟨between, rest, entered, htest, ⟨⟨_, _, hparts, fun name hname =>
      hbody.grows.mem (husersBody name hname)⟩, ?_, ?_, harrives.pending.trans hpending,
      harrives.agrees⟩, harrives.leads, ?_⟩)
    · rw [harrives.position]
      rw [hoffset] at hstandsRest
      exact hstandsRest
    · intro label hlabel
      rw [harrives.position, ← hfinal label hlabel]
      congr 1
      omega
    · intro world' arrived harrived
      exact ⟨_, (harrives.trans harrived).moves (.refl _) (harrives.trans harrived).position⟩
  · exact .inr (.inr hnone)

/-- The body is entered if the condition holds. -/
theorem Ready.enters_body
    (h : Ready program users (.parts final) (node :: .block items mark :: parts) code machine world)
    (hinfers : condition.Infers known node) (hreadable : condition.IsReadable)
    (hknown : ∀ name ∈ known, name ∈ users)
    (htest : Tree.test meaning inputs condition world = some (true, between)) :
    ∃ body entered, Enters meaning inputs program users .statements items body machine code.length
      between entered := by
  rcases h.branch hlabels hinfers hreadable hknown with
    ⟨_, body, entered, htest', henters⟩ | ⟨_, _, _, htest', -⟩ | ⟨htest', -⟩
  · cases htest.symm.trans htest'
    exact ⟨body, entered, henters⟩
  · cases htest.symm.trans htest'
  · cases htest.symm.trans htest'

/-- The other parts are entered if the condition does not hold. -/
theorem Ready.enters_parts
    (h : Ready program users (.parts final) (node :: .block items mark :: parts) code machine world)
    (hinfers : condition.Infers known node) (hreadable : condition.IsReadable)
    (hknown : ∀ name ∈ known, name ∈ users)
    (htest : Tree.test meaning inputs condition world = some (false, between)) :
    ∃ rest entered, Enters meaning inputs program users (.parts final) parts rest machine
      code.length between entered := by
  rcases h.branch hlabels hinfers hreadable hknown with
    ⟨_, _, _, htest', -⟩ | ⟨_, rest, entered, htest', henters⟩ | ⟨htest', -⟩
  · cases htest.symm.trans htest'
  · cases htest.symm.trans htest'
    exact ⟨rest, entered, henters⟩
  · cases htest.symm.trans htest'

/-- A loop passes its first label. If the condition holds, the body is entered, and behind it the
machine is in front of the loop again; if it does not, the machine arrives behind the loop. -/
theorem Ready.loop {bodyMark : Mark}
    (h : Ready program users .statements [.loop node (.block items bodyMark) mark] code machine
      world)
    (hinfers : condition.Infers known node) (hreadable : condition.IsReadable)
    (hknown : ∀ name ∈ known, name ∈ users) :
    ∃ next, machine.step meaning inputs program = some next ∧
      ((∃ between body entered, Tree.test meaning inputs condition world = some (true, between) ∧
        Leads meaning inputs program next entered ∧
        Ready program users .statements items body entered between ∧
        ∀ {world' : World Value} {arrived : Machine Value},
          Arrives meaning inputs program users entered body.length world' arrived →
          ∃ again, Leads meaning inputs program arrived again ∧
            Ready program users .statements [.loop node (.block items bodyMark) mark] code again
              world' ∧
            again.position = machine.position) ∨
      (∃ between last, Tree.test meaning inputs condition world = some (false, between) ∧
        Arrives meaning inputs program users machine code.length between last) ∨
      (Tree.test meaning inputs condition world = none ∧
        machine.IsBlocked meaning inputs program)) := by
  have hready := h
  obtain ⟨⟨supply, after, hlowers, husers⟩, hstands, -, hpending, hagrees⟩ := h
  cases hlowers with
  | @loop _ between' _ table _ operand _ _ _ _ testCode body _ hcondition hbody hnil =>
  cases hnil
  rw [Instruction.standsAt_cons] at hstands
  obtain ⟨htop, hcode⟩ := hstands
  have hstandsBody := hcode
  simp only [Instruction.standsAt_append, Instruction.standsAt_cons] at hstandsBody
  obtain ⟨-, -, -, -, hstandsBody, hjump, hexit, -⟩ := hstandsBody
  let next : Machine Value := { machine with position := machine.position + 1 }
  have hstep : machine.step meaning inputs program = some next := by
    rw [step, htop]
    rfl
  have hfirst : Leads meaning inputs program machine next := .of_step hstep
  have hoffset : machine.position + 1 + testCode.length + 1 + 1 + 1 + body.length + 1 =
      next.position + (testCode.length + 3 + body.length + 1) := by
    show _ = machine.position + 1 + _
    omega
  rw [hoffset] at hexit
  refine ⟨next, hstep, ?_⟩
  have hagrees' : world.Agrees users next.world := hagrees
  rcases guard hlabels hinfers hreadable hknown hcondition hcode hexit hpending hagrees' husers with
    ⟨between, entered, htest, harrives⟩ | ⟨between, last, htest, harrives⟩ | ⟨htest, hblocked⟩
  · refine .inl ⟨between, body, entered, htest, harrives.leads, ⟨⟨_, _, hbody, fun name hname =>
      hcondition.grows.mem (husers name hname)⟩, ?_, by simp, harrives.pending.trans hpending,
      harrives.agrees⟩, ?_⟩
    · rw [harrives.position]
      exact hstandsBody
    · intro world' arrived harrived
      have hposition := harrived.position
      rw [harrives.position] at hposition
      have hjump' : program[arrived.position]? =
          some (.jump (Labels.nameOf (supply.labels + 1))) := by
        rw [hposition]
        exact hjump
      exact ⟨{ arrived with position := machine.position }, leads_jump hlabels hjump' htop,
        ⟨hready.lowers, hready.stands, by simp,
          harrived.pending.trans (harrives.pending.trans hpending), harrived.agrees⟩, rfl⟩
  · refine .inr (.inl ⟨between, last, htest, hfirst.trans harrives.leads, ?_, harrives.pending,
      harrives.agrees⟩)
    rw [harrives.position]
    show machine.position + 1 + _ = _
    simp only [List.length_cons, List.length_append, List.length_nil]
    omega
  · exact .inr (.inr ⟨htest, hfirst.isBlocked hblocked⟩)

end

end Machine

end ThreeAddress
