import ThreeAddress.Analysis
import ThreeAddress.Proofs.Compilation.Stages
import ThreeAddress.Proofs.Compilation.Tokens

/-!
# The results of an analysis do not influence each other

Which results a sender wants to see changes nothing but which of them are shown
(`analyze_independent`). The drawing and the code are there before C is emitted, so all that could
come between two answers is a program that is compiled without C and fails with it
(`compile_withC`). Emission fails only on a count of more than 4300 digits, for which no text there
is has enough characters.
-/

namespace ThreeAddress

/-! ## With and without C -/

/-- A compilation with this C text. -/
def Compilation.withC (compilation : Compilation) (text : String) : Compilation :=
  { compilation with c := some text }

/-- Two outcomes for the same source, without C and with it: the same error, or the same compilation
but for its C text, or an error of emission in place of it. -/
inductive IsWithC : Except CompileError Compilation → Except CompileError Compilation → Prop where
  | failed (error : CompileError) : IsWithC (.error error) (.error error)
  | emitted (compilation : Compilation) (text : String) :
      IsWithC (.ok compilation) (.ok (compilation.withC text))
  | notEmitted (compilation : Compilation) (error : EmitError) :
      IsWithC (.ok compilation) (.error (.emit error))

/-- Emission comes last, and it takes nothing away from what is there. -/
theorem compileCode_withC (request : Request) (root : Node) (lines : List String)
    (builder : Builder) :
    IsWithC (compileCode { request with emitC := false } root lines builder)
      (compileCode { request with emitC := true } root lines builder) := by
  simp only [compileCode]
  cases ({ table := builder.table } : Emitter).unit lines with
  | error error => exact .notEmitted _ error
  | ok result => exact .emitted _ (result.1.text "    ")

/-- Whether C is wanted is not looked at before there is code. -/
theorem compile_withC (budgets : Budgets) (request : Request) (source : String) :
    IsWithC (compile budgets { request with emitC := false } source).1
      (compile budgets { request with emitC := true } source).1 := by
  rw [compile_eq, compile_eq, compileTokens, compileTokens]
  cases Tree.ofTokens budgets.reading (tokenize source) with
  | error error => exact .failed _
  | ok tree =>
    simp only [compileTree]
    cases tree.checkProgram budgets.checking {} with
    | error error state => exact .failed _
    | ok root state =>
      simp only [compileRoot]
      cases root.lowerProgram budgets.lowering none { table := state.table } with
      | error error builder => exact .failed _
      | ok lines builder => exact compileCode_withC request root lines builder

/-! ## Answers -/

/-- What is to be expected of the answer to a request. All is well iff nothing is wrong; no more
than one thing is wrong, and then there are no results; and if all is well, there are the results
that the sender wants to see. -/
structure AnalysisAnswer.IsComplete (request : AnalysisRequest) (answer : AnalysisAnswer) :
    Prop where
  isOk : answer.isOk = true ↔ answer.diagnostics = []
  diagnostics : answer.diagnostics.length ≤ 1
  failed : answer.isOk = false → answer.drawing = none ∧ answer.code = none ∧ answer.c = none
  drawing : answer.isOk = true → answer.drawing.isSome = request.drawing
  code : answer.isOk = true → answer.code.isSome = request.lines
  c : answer.isOk = true → answer.c.isSome = request.c

/-- Two answers that say the same about the program, and have the same results wherever both
senders want to see them. -/
structure AnalysisAnswer.Agrees (request other : AnalysisRequest)
    (answer answer' : AnalysisAnswer) : Prop where
  isOk : answer'.isOk = answer.isOk
  diagnostics : answer'.diagnostics = answer.diagnostics
  drawing : request.drawing = true → other.drawing = true → answer'.drawing = answer.drawing
  code : request.lines = true → other.lines = true → answer'.code = answer.code
  c : request.c = true → other.c = true → answer'.c = answer.c

/-- Agreement does not depend on which request is the first. -/
theorem AnalysisAnswer.Agrees.symm {request other : AnalysisRequest}
    {answer answer' : AnalysisAnswer} (h : answer.Agrees request other answer') :
    answer'.Agrees other request answer where
  isOk := h.isOk.symm
  diagnostics := h.diagnostics.symm
  drawing hmine htheirs := (h.drawing htheirs hmine).symm
  code hmine htheirs := (h.code htheirs hmine).symm
  c hmine htheirs := (h.c htheirs hmine).symm

namespace AnalysisRequest

/-- The outcome that a request is answered from. -/
def outcome (budgets : Budgets) (request : AnalysisRequest) : Except CompileError Compilation :=
  (compile budgets { emitC := request.c, title := "request" } request.code).1

/-- The answer to a request from an outcome. -/
def answer (request : AnalysisRequest) : Except CompileError Compilation → AnalysisAnswer
  | .error error => ⟨false, [Diagnostic.ofReport error.report], none, none, none⟩
  | .ok compilation =>
    { isOk := true
      diagnostics := []
      drawing := whenWanted request.drawing compilation.root.drawing
      code := whenWanted request.lines (CodeSummary.ofCompilation compilation)
      c := if request.c then compilation.c else none }

/-- A request is answered from its outcome. -/
theorem analyze_eq (budgets : Budgets) (request : AnalysisRequest) :
    analyze budgets request = request.answer (request.outcome budgets) := by
  delta analyze outcome
  generalize (compile budgets { emitC := request.c, title := "request" } request.code).1 = outcome
  cases outcome <;> rfl

variable {budgets : Budgets} {request other : AnalysisRequest}

/-- A compilation has a C text if one was asked for. -/
theorem isSome_c {compilation : Compilation} (h : request.outcome budgets = .ok compilation)
    (hc : request.c = true) : compilation.c.isSome = true := by
  obtain ⟨tree, state, builder, hfollows⟩ := compile_follows h
  obtain ⟨-, unit, -, htext⟩ := hfollows.unit hc
  rw [htext]
  rfl

/-- Every answer is complete. -/
theorem isComplete (budgets : Budgets) (request : AnalysisRequest) :
    (analyze budgets request).IsComplete request := by
  rw [analyze_eq]
  cases houtcome : request.outcome budgets with
  | error error =>
    exact ⟨⟨nofun, nofun⟩, Nat.le_refl 1, fun _ => ⟨rfl, rfl, rfl⟩, nofun, nofun, nofun⟩
  | ok compilation =>
    have hwhen {Value : Type} (wanted : Bool) (value : Value) :
        (whenWanted wanted value).isSome = wanted := by cases wanted <;> rfl
    refine ⟨⟨fun _ => rfl, fun _ => rfl⟩, Nat.zero_le 1, nofun, fun _ => hwhen _ _,
      fun _ => hwhen _ _, fun _ => ?_⟩
    show (if request.c then compilation.c else none).isSome = request.c
    cases hc : request.c with
    | false => rfl
    | true => exact isSome_c houtcome hc

/-- Answers from the same outcome agree. -/
theorem answer_agrees (request other : AnalysisRequest)
    (outcome : Except CompileError Compilation) :
    (request.answer outcome).Agrees request other (other.answer outcome) := by
  cases outcome with
  | error error => exact ⟨rfl, rfl, fun _ _ => rfl, fun _ _ => rfl, fun _ _ => rfl⟩
  | ok compilation =>
    refine ⟨rfl, rfl, fun hmine htheirs => ?_, fun hmine htheirs => ?_, fun hmine htheirs => ?_⟩ <;>
      simp only [answer, hmine, htheirs]

/-- An answer without C agrees with one that has it, if emission has not failed. -/
theorem answer_agrees_withC {plain full : Except CompileError Compilation}
    (h : IsWithC plain full) (hemitted : ∀ error, full ≠ .error (.emit error))
    (hc : request.c = false) : (request.answer plain).Agrees request other (other.answer full) := by
  cases h with
  | failed error => exact answer_agrees request other (.error error)
  | emitted compilation text =>
    -- Nothing but the C text differs, and the first sender does not want to see it.
    obtain ⟨hisOk, hdiagnostics, hdrawing, hcode, -⟩ :=
      answer_agrees request other (.ok compilation)
    exact ⟨hisOk, hdiagnostics, hdrawing, hcode, fun hmine => by rw [hc] at hmine; cases hmine⟩
  | notEmitted compilation error => exact absurd rfl (hemitted error)

/-- Emission fails only for a source that is longer than any text there is. -/
theorem length_of_emit {error : EmitError} (h : request.outcome budgets = .error (.emit error)) :
    Instruction.leastLonger Instruction.maxCountDigits ≤ request.code.length :=
  (isForeseen_of_compile h).2

/-- Of two requests for the same program, one with C and one without, the answers agree unless
emission fails. -/
theorem agrees_of_c (hcode : other.code = request.code) (hmine : request.c = false)
    (htheirs : other.c = true) :
    (analyze budgets request).Agrees request other (analyze budgets other) ∨
      Instruction.leastLonger Instruction.maxCountDigits ≤ request.code.length := by
  have hwithC : IsWithC (request.outcome budgets) (other.outcome budgets) := by
    rw [outcome, outcome, hcode, hmine, htheirs]
    exact compile_withC budgets { title := "request" } request.code
  by_cases hemitted : ∃ error, other.outcome budgets = .error (.emit error)
  · obtain ⟨error, herror⟩ := hemitted
    exact .inr (hcode ▸ length_of_emit herror)
  · rw [analyze_eq, analyze_eq]
    exact .inl (answer_agrees_withC hwithC (not_exists.1 hemitted) hmine)

end AnalysisRequest

/-- The results of an analysis do not influence each other. Whatever two senders of the same program
want to see, the answers are complete: all is well iff nothing is wrong, no more than one thing is
wrong, and there are the results that the sender wants to see, or none if something is wrong. And
the answers agree: all is well for both senders or for none, the same is wrong, and results that
both want to see are the same. Only where one of them wants C and the other does not, and the
program has more characters than any text there is, could the C text be missing. -/
theorem analyze_independent {budgets : Budgets} {request other : AnalysisRequest}
    (hcode : other.code = request.code) :
    (analyze budgets request).IsComplete request ∧ (analyze budgets other).IsComplete other ∧
      ((analyze budgets request).Agrees request other (analyze budgets other) ∨
        other.c ≠ request.c ∧
          Instruction.leastLonger Instruction.maxCountDigits ≤ request.code.length) := by
  refine ⟨request.isComplete budgets, other.isComplete budgets, ?_⟩
  by_cases hc : other.c = request.c
  · have hsame : other.outcome budgets = request.outcome budgets := by
      rw [AnalysisRequest.outcome, hcode, hc, AnalysisRequest.outcome]
    rw [AnalysisRequest.analyze_eq, AnalysisRequest.analyze_eq, hsame]
    exact .inl (AnalysisRequest.answer_agrees request other _)
  · cases hmine : request.c with
    | false =>
      rw [hmine] at hc
      have htheirs : other.c = true := eq_true_of_ne_false hc
      exact (AnalysisRequest.agrees_of_c hcode hmine htheirs).imp_right (⟨by simp [htheirs], ·⟩)
    | true =>
      rw [hmine] at hc
      have htheirs : other.c = false := eq_false_of_ne_true hc
      rw [← hcode]
      exact (AnalysisRequest.agrees_of_c hcode.symm htheirs hmine).imp .symm
        (⟨by simp [htheirs], ·⟩)

/-- A program that is compiled, asked for by a sender who wants its code only and by one who wants
everything, and a program with an error. -/
theorem analyze_independent_wishes :
    let request : AnalysisRequest := { code := "let x = 7 % 2; output \"%d\", x;", lines := true }
    let other : AnalysisRequest := { request with drawing := true, c := true }
    let wrong : AnalysisRequest := { code := "let x = 7; x = 2;" }
    ((analyze {} request).code.map (·.lines) =
        some ["t1 = 7 % 2", "x = t1", "param \"%d\"", "param x", "call printf, 2"] ∧
      (analyze {} request).c = none ∧ (analyze {} other).c.isSome = true ∧
      (analyze {} request).Agrees request other (analyze {} other)) ∧
    (analyze {} wrong).diagnostics.map (·.kind) = ["semantic"] ∧
      (analyze {} wrong).Agrees wrong { wrong with c := true }
        (analyze {} { wrong with c := true }) := by
  intro request other wrong
  have hshort {code : String} (h : code.length < Instruction.maxCountDigits) :
      ¬Instruction.leastLonger Instruction.maxCountDigits ≤ code.length :=
    Nat.not_le.2 (h.trans (Instruction.lt_leastLonger _))
  obtain ⟨-, hcomplete, hagree⟩ := @analyze_independent {} request other rfl
  obtain ⟨-, -, hagree'⟩ := @analyze_independent {} wrong { wrong with c := true } rfl
  refine ⟨⟨by decide +kernel, by decide +kernel, hcomplete.c (by decide +kernel), ?_⟩,
    by decide +kernel, ?_⟩
  · exact hagree.resolve_right fun hlong => hshort (by decide) hlong.2
  · exact hagree'.resolve_right fun hlong => hshort (by decide) hlong.2

end ThreeAddress
