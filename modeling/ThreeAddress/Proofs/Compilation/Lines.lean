import ThreeAddress.Proofs.Code.Origins
import ThreeAddress.Proofs.Compilation.Stages
import ThreeAddress.Proofs.Text.Breaks

/-!
# The lines of a compilation

The code of a compilation is kept as lines of text only. Nothing is lost by that: a line is read
back as the instruction that it is the text of. Nor are lines confused with each other: no text of
a token holds a line break, hence no line does, and the lines are found again in their text.
-/

namespace ThreeAddress

open Text

namespace Text

/-- A word is not broken. -/
theorem IsWord.isUnbroken {text : String} (h : IsWord text.toList) : IsUnbroken text :=
  fun c hc => isLineBreak_of_isBlank (isBlank_of_isNameChar (h.isNameChar c hc))

/-- Digits are not broken. -/
theorem isUnbroken_toString_nat (count : Nat) : IsUnbroken (toString count) := fun _ hc =>
  isLineBreak_of_isBlank (isBlank_of_isDigit (isDigit_of_isDecimal
    (Scanner.isDecimal_of_mem_toString hc)))

/-- A numeral is not broken. -/
theorem isUnbroken_toString (count : Int) : IsUnbroken (toString count) := by
  cases count with
  | ofNat count => exact isUnbroken_toString_nat count
  | negSucc count =>
    show IsUnbroken ("-" ++ toString (count + 1))
    exact isUnbroken_append.2 ⟨by decide, isUnbroken_toString_nat _⟩

end Text

namespace Instruction

/-- The names of temporaries, labels and functions are words. -/
theorem holdsOfNames_isUnbroken : HoldsOfNames IsUnbroken where
  temporary number := (Temporaries.isWord_nameOf number).isUnbroken
  label number := (Labels.isWord_nameOf number).isUnbroken
  print := isWord_printf.isUnbroken
  read := isWord_input.isUnbroken

/-- The text of an operand is that operand, or a word. -/
theorem isUnbroken_operandText {operand : Option String}
    (h : ∀ text ∈ operand.toList, IsUnbroken text) : IsUnbroken (operandText operand) := by
  cases operand with
  | none => decide
  | some text => exact h text (.head _)

/-- A line breaks only where a text in it does. -/
theorem isUnbroken_text {instruction : Instruction}
    (h : ∀ text ∈ instruction.texts, IsUnbroken text) : IsUnbroken instruction.text := by
  have harrow : IsUnbroken " = " := by decide
  have hspace : IsUnbroken " " := by decide
  cases instruction with
  | assign target first operator second =>
    simp only [texts, List.forall_mem_cons, List.forall_mem_append] at h
    obtain ⟨htarget, ⟨hfirst, hoperator⟩, hsecond⟩ := h
    have hleft := isUnbroken_operandText hfirst
    cases operator with
    | none => simp [Instruction.text, assignText, htarget, harrow, hleft]
    | some operator =>
      have hsign := hoperator operator (.head _)
      cases second with
      | none => simp [Instruction.text, assignText, htarget, harrow, hsign, hspace, hleft]
      | some second =>
        have hright := hsecond second (.head _)
        simp [Instruction.text, assignText, htarget, harrow, hsign, hspace, hleft, hright]
  | jump goal =>
    have hgoal := h goal (.head _)
    have hword : IsUnbroken "goto " := by decide
    simp [Instruction.text, hword, hgoal]
  | branch condition goal =>
    have hcondition := h condition (.head _)
    have hgoal := h goal (.tail _ (.head _))
    have hif : IsUnbroken "if " := by decide
    have hgoto : IsUnbroken " goto " := by decide
    simp [Instruction.text, hif, hgoto, hcondition, hgoal]
  | label name =>
    have hname := h name (.head _)
    have hcolon : IsUnbroken ":" := by decide
    simp [Instruction.text, hname, hcolon]
  | param operand =>
    have hoperand := h operand (.head _)
    have hword : IsUnbroken "param " := by decide
    simp [Instruction.text, hword, hoperand]
  | call function count target =>
    simp only [texts, List.forall_mem_cons] at h
    obtain ⟨hfunction, htarget⟩ := h
    have hword : IsUnbroken "call " := by decide
    have hcomma : IsUnbroken ", " := by decide
    have hplain : IsUnbroken (callText function count none) := by
      simp only [callText, isUnbroken_append]
      exact ⟨⟨⟨hword, hfunction⟩, hcomma⟩, isUnbroken_toString count⟩
    cases target with
    | none => exact hplain
    | some target =>
      show IsUnbroken (if target = "" then callText function count none
        else target ++ " = " ++ callText function count none)
      split
      · exact hplain
      · simp [htarget target (.head _), harrow, hplain]

end Instruction

namespace Compilation.Follows

variable {budgets : Budgets} {request : Request} {source : String} {tree : Tree}
  {state : CheckState} {builder : Builder} {compilation : Compilation}

/-- No text in the code holds a line break. -/
theorem madeOf_isUnbroken (h : compilation.Follows budgets request source tree state builder) :
    Instruction.MadeOf IsUnbroken builder.instructions.toList := by
  obtain ⟨-, hcut⟩ := Tree.derives_of_ofSource h.read
  obtain ⟨-, statements, line, items, rfl, -, hchecks, hlowers⟩ := h.lowers
  have hspelt : (Tree.block statements line).SpeltOf IsUnbroken := fun piece hpiece =>
    (hcut.lexemes piece hpiece).2
  exact hlowers.madeOf Instruction.holdsOfNames_isUnbroken nofun (hchecks.madeOf hspelt)

/-- No line of the code holds a line break. -/
theorem isUnbroken_lines (h : compilation.Follows budgets request source tree state builder) :
    ∀ line ∈ compilation.lines, IsUnbroken line := by
  rw [h.lowers.1]
  exact List.forall_mem_map.2 fun instruction hmem =>
    Instruction.isUnbroken_text (h.madeOf_isUnbroken instruction hmem)

/-- Code that has been emitted has been read back. -/
theorem readBack (h : compilation.Follows budgets request source tree state builder)
    {instruction : Instruction} (hmem : instruction ∈ builder.instructions.toList) :
    Instruction.ofLine instruction.text = .ok instruction ∨
      (request.emitC = false ∧ Instruction.ofLine instruction.text = .error .longCount ∧
        Instruction.leastLonger Instruction.maxCountDigits ≤ source.length) := by
  have hwritten := h.isEmitted.isWritten
  cases hemit : request.emitC with
  | true =>
    obtain ⟨hread, -⟩ := h.unit hemit
    rw [h.lowers.1] at hread
    exact .inl (CUnit.ofLine_of_readLines hwritten hread instruction hmem)
  | false =>
    exact (hwritten instruction hmem).isReadBack.2.imp_right fun hlong => ⟨rfl, hlong⟩

end Compilation.Follows

/-- The text of code keeps all of it. The lines of a compilation are those of the instructions
that have been generated, one line each and in their order. Each is read back as the very
instruction, no line holds a line break, and the lines are found again in their text. A count of
more than 4300 digits is not read back; then no C was asked for, and the source has more characters
than any text there is. -/
theorem compile_lines {budgets : Budgets} {request : Request} {source : String}
    {compilation : Compilation} (h : (compile budgets request source).1 = .ok compilation) :
    ∃ tree state builder, compilation.Follows budgets request source tree state builder ∧
      compilation.lines.length = builder.instructions.size ∧
      (∀ (position : Nat) (instruction : Instruction),
        builder.instructions[position]? = some instruction →
        ∃ line, compilation.lines[position]? = some line ∧ line = instruction.text ∧
          (Instruction.ofLine line = .ok instruction ∨
            (request.emitC = false ∧ Instruction.ofLine line = .error .longCount ∧
              Instruction.leastLonger Instruction.maxCountDigits ≤ source.length))) ∧
      (∀ line ∈ compilation.lines, ∀ c ∈ line.toList, isLineBreak c = false) ∧
      splitLines ("\n".intercalate compilation.lines).toList =
        compilation.lines.map String.toList := by
  obtain ⟨tree, state, builder, hfollows⟩ := compile_follows h
  obtain ⟨hlines, -⟩ := hfollows.lowers
  have hunbroken := hfollows.isUnbroken_lines
  have hne : ∀ line ∈ compilation.lines, line ≠ "" := by
    rw [hlines]
    refine List.forall_mem_map.2 fun instruction hmem hempty => ?_
    obtain ⟨c, others, htext, -⟩ := (hfollows.isEmitted.isWritten instruction hmem).isReadBack.1
    rw [hempty] at htext
    cases htext
  refine ⟨tree, state, builder, hfollows, ?_, fun position instruction hfound => ?_, hunbroken,
    splitLines_intercalate hne hunbroken⟩
  · rw [hlines, List.length_map, Array.length_toList]
  · rw [← Array.getElem?_toList] at hfound
    refine ⟨instruction.text, ?_, rfl, hfollows.readBack (List.mem_of_getElem? hfound)⟩
    rw [hlines, List.getElem?_map, hfound]
    rfl

/-- A name that is spelled like a call, a blank for a character, and a format that looks like a
jump: all four lines are found again. -/
theorem compile_lines_call :
    ∃ compilation,
      (compile {} {} "let call = ' '; output \"goto %c:\", call;").1 = .ok compilation ∧
      compilation.lines = ["call = ' '", "param \"goto %c:\"", "param call", "call printf, 2"] ∧
      splitLines ("\n".intercalate compilation.lines).toList =
        compilation.lines.map String.toList := by
  have hlines : (match (compile {} {} "let call = ' '; output \"goto %c:\", call;").1 with
      | .ok compilation => compilation.lines
      | .error _ => []) =
      ["call = ' '", "param \"goto %c:\"", "param call", "call printf, 2"] := by decide +kernel
  cases hcompile : (compile {} {} "let call = ' '; output \"goto %c:\", call;").1 with
  | error error =>
    rw [hcompile] at hlines
    cases hlines
  | ok compilation =>
    rw [hcompile] at hlines
    obtain ⟨tree, state, builder, -, -, -, -, hsplit⟩ := compile_lines hcompile
    exact ⟨compilation, rfl, hlines, hsplit⟩

end ThreeAddress
