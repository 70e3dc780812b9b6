import ThreeAddress.Compilation
import ThreeAddress.Proofs.CUnit.Emission
import ThreeAddress.Proofs.Code.Lowering

/-!
# How a compilation ends

A compilation yields code or ends with a fault of the source, which the lexer, the parser or the
checker reports, or because a budget for nesting is used up (`compile_ends`). Every other error of
a later stage is for trees and code that no earlier stage lets through.
-/

namespace ThreeAddress

open Sequence

/-- How a compilation may fail: the source cannot be cut into tokens or read, or the program breaks
a rule on types or names, or it is nested too deeply for one of the budgets. Emission fails only on
a count with too many digits, and then the source has at least as many characters. -/
def CompileError.IsForeseen (size : Nat) : CompileError → Prop
  | grammar error => (∃ reason lexeme line, error.report = .lexical reason lexeme line) ∨
    ∃ reason lexeme line, error.report = .grammar reason lexeme line
  | check error => (∃ reason line, error.report = .semantic reason line) ∨
    (error = .tooDeep ∧
      error.report = .internal "Type Checker" "program nested too deeply to check")
  | lower error => error = .tooDeep ∧
    error.report = .lowering "expression nested too deeply to lower"
  | emit error => error = .longCount ∧ Instruction.leastLonger Instruction.maxCountDigits ≤ size

/-- What cannot be cut into tokens or read is a fault of the source. -/
theorem GrammarError.isForeseen (size : Nat) (error : GrammarError) :
    (CompileError.grammar error).IsForeseen size := by
  cases error with
  | invalidToken => exact .inl ⟨_, _, _, rfl⟩
  | expected | inputEnded | unmatchedBrace | tooDeep => exact .inr ⟨_, _, _, rfl⟩

/-- The code of a checked program can be emitted over the table with its temporaries. -/
theorem Tree.Checks.isEmitted {tree : Tree} {nodes : List Node} {table : Table} {after : Supply}
    {code : List Instruction} {bound : Nat} (h : tree.Checks .empty nodes table)
    (hcut : tree.IsCut bound) (hlowers : Node.Lowers ⟨table, 0⟩ .statements nodes code after) :
    CUnit.IsEmitted after.table bound code := by
  have hplain : Table.empty.IsPlain := nofun
  obtain ⟨-, hleaves⟩ := h.typed hplain
  refine hlowers.isEmitted (.refl _) nofun fun node hnode part hpart => ?_
  exact ⟨(hleaves.parts node hnode part hpart).grows hlowers.grows,
    h.written hcut node hnode part hpart⟩

namespace Compile

variable {Error State Value : Type} {foreseen : CompileError → Prop} {wrap : Error → CompileError}
  {journal : List Progress}

/-- A note in the journal. -/
theorem note_ends (progress : Progress) :
    EndsOr foreseen (note progress) journal fun _ _ => True := .inl ⟨_, _, rfl, trivial⟩

/-- A value, or the error of a stage. -/
theorem orEnd_ends (wanted : Value → Prop) {result : Except Error Value}
    (hok : ∀ value, result = .ok value → wanted value)
    (herror : ∀ error, result = .error error → foreseen (wrap error)) :
    EndsOr foreseen (orEnd wrap result) journal fun value _ => wanted value := by
  cases result with
  | ok value => exact .pure (hok value rfl)
  | error error => exact .throw (herror error rfl)

/-- A stage on a state of its own. -/
theorem stage_ends {run : EStateM Error State Value} {state : State} {own : Error → Prop}
    {wanted : Value → State → Prop} (h : EndsOr own run state wanted)
    (hown : ∀ error, own error → foreseen (wrap error)) :
    EndsOr foreseen (stage wrap run state) journal
      fun result _ => wanted result.1 result.2 := by
  rw [stage]
  rcases h with ⟨value, after, hrun, hwanted⟩ | ⟨error, after, hrun, herror⟩
  · rw [hrun]
    exact .pure hwanted
  · rw [hrun]
    exact .throw (hown error herror)

variable {size : Nat}

/-- A source is read as a derivation, cut out of it. -/
theorem readTree_ends (budgets : Budgets) (request : Request) (source : String) :
    EndsOr (CompileError.IsForeseen size) (readTree budgets request source) journal
      fun tree _ => tree.Derives .program ∧ tree.IsCut source.length := by
  refine (orEnd_ends _ (fun _ => Tree.derives_of_ofSource) fun error _ =>
    error.isForeseen size).bind fun tree _ htree => ?_
  exact (note_ends _).bind fun _ _ _ => .pure htree

/-- A derivation is checked by the rules. -/
theorem checkTree_ends (budgets : Budgets) {tree : Tree} (h : tree.Derives .program) :
    EndsOr (CompileError.IsForeseen size) (checkTree budgets tree) journal
      fun result _ => ∃ statements line items, tree = .block statements line ∧
        result.1 = .program items ⟨line, .void⟩ ∧ tree.Checks .empty items result.2 := by
  obtain ⟨statements, line, rfl, hends⟩ := h.checkProgram_ends budgets.checking .empty
  refine (stage_ends hends ?_).bind fun result _ hresult => ?_
  · intro error herror
    rcases herror with rfl | ⟨reason, line, hreport⟩
    · exact .inr ⟨rfl, rfl⟩
    · exact .inl ⟨reason, line, hreport⟩
  · obtain ⟨items, hroot, hitems⟩ := hresult
    exact (note_ends _).bind fun _ _ _ => .pure ⟨statements, line, items, rfl, hroot, hitems⟩

/-- What the checker leaves is lowered by the rules. -/
theorem lowerTree_ends (budgets : Budgets) {statements : List Tree} {line : Line}
    {items : List Node} {table : Table}
    (h : (Tree.block statements line).Checks .empty items table) :
    EndsOr (CompileError.IsForeseen size)
      (lowerTree budgets (.program items ⟨line, .void⟩) table) journal
      fun result _ => result.1 = result.2.instructions.toList.map (·.text) ∧
        Node.Lowers ⟨table, 0⟩ .statements items result.2.instructions.toList
          result.2.supply := by
  refine (stage_ends (h.lowerProgram_ends ⟨line, .void⟩ budgets.lowering table) ?_).bind
    fun result _ hresult => ?_
  · intro error herror
    rw [herror]
    exact ⟨rfl, rfl⟩
  · exact (note_ends _).bind fun _ _ _ => .pure hresult

/-- Code that can be emitted is emitted. -/
theorem emitLines_ends {table : Table} {code : List Instruction}
    (h : CUnit.IsEmitted table size code) :
    EndsOr (CompileError.IsForeseen size) (emitLines table (code.map (·.text))) journal
      fun _ _ => True := by
  refine (orEnd_ends (fun _ => True) (fun _ _ => trivial) fun error herror => ?_).bind
    fun result _ _ => (note_ends _).bind fun _ _ _ => .pure trivial
  rcases h.unit_ends { table } with ⟨result, hresult⟩ | ⟨hlong, hsize⟩
  · rw [hresult] at herror
    cases herror
  · rw [hlong] at herror
    cases herror
    exact ⟨rfl, hsize⟩

/-- A compilation ends by itself or with an error that is foreseen. -/
theorem source_ends (budgets : Budgets) (request : Request) (source : String) :
    EndsOr (CompileError.IsForeseen source.length) (Compile.source budgets request source) []
      fun _ _ => True := by
  refine (note_ends _).bind fun _ _ _ => ?_
  refine (readTree_ends budgets request source).bind fun tree _ htree => ?_
  obtain ⟨hderives, hcut⟩ := htree
  refine (checkTree_ends budgets hderives).bind fun checked _ hchecked => ?_
  obtain ⟨root, table⟩ := checked
  obtain ⟨statements, line, items, rfl, rfl, hchecks⟩ := hchecked
  refine (lowerTree_ends budgets hchecks).bind fun lowered journal hlowered => ?_
  obtain ⟨lines, builder⟩ := lowered
  have hlines : lines = builder.instructions.toList.map (·.text) := hlowered.1
  have hemitted := hchecks.isEmitted hcut hlowered.2
  subst hlines
  have hc : EndsOr (CompileError.IsForeseen source.length)
      (some <$> emitLines builder.table (builder.instructions.toList.map (·.text)))
      journal fun _ _ => True := .map (emitLines_ends hemitted)
  show EndsOr _ (if request.emitC then _ else _) _ _
  split
  · exact hc.bind fun _ _ _ => .pure trivial
  · exact .pure trivial

end Compile

/-- An error that ends a compilation is foreseen. -/
theorem isForeseen_of_compile {budgets : Budgets} {request : Request} {source : String}
    {error : CompileError} (h : (compile budgets request source).1 = .error error) :
    error.IsForeseen source.length := by
  rw [compile] at h
  rcases Compile.source_ends budgets request source with
    ⟨compilation, journal, hrun, -⟩ | ⟨error', journal, hrun, herror⟩
  · rw [hrun] at h
    cases h
  · rw [hrun] at h
    cases h
    exact herror

/-- Whatever the budgets, the request and the source are, a compilation yields its result or ends
with a report of the lexer, the parser or the checker on the source, unless the program is nested
too deeply to be checked or to be lowered. No other error of lowering is ever met, and of those of
emission only the one on a count of more than 4300 digits, which takes a source of at least as many
characters as it counts: longer than any text there is. -/
theorem compile_ends (budgets : Budgets) (request : Request) (source : String) :
    (∃ compilation, (compile budgets request source).1 = .ok compilation) ∨
      ∃ error, (compile budgets request source).1 = .error error ∧
        error.IsForeseen source.length := by
  cases hcompile : (compile budgets request source).1 with
  | ok compilation => exact .inl ⟨compilation, rfl⟩
  | error error => exact .inr ⟨error, rfl, isForeseen_of_compile hcompile⟩

end ThreeAddress
