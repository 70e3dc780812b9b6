import ThreeAddress.Proofs.CUnit.Integers
import ThreeAddress.Proofs.CUnit.Operands
import ThreeAddress.Proofs.CUnit.Strings
import ThreeAddress.Proofs.Compilation.Names

/-!
# The literals in a C text

Every literal of a source stands in the statements of the unit as it was written, and nothing else
stands there but variables. So a literal means in C what C makes of its text. The format of a print
ends where the string literal of the source ends iff that one has an even number of backslashes in
front of its last mark (`compile_formats`). An integer literal has its decimal value iff it has
digits of ASCII only, no zero in front of a value above seven, and a value that C has a type for
(`compile_integers`).
-/

namespace ThreeAddress

open Text Instruction

/-! ## Literals of a source -/

/-- The texts of the literals of a source. -/
def literalsOf (source : String) : List String :=
  ((tokenize source).filter fun token => token.kind.isLiteral).map Token.lexeme

/-- The texts of the string literals of a source. -/
def stringsOf (source : String) : List String :=
  ((tokenize source).filter fun token => token.kind = .stringLit).map Token.lexeme

namespace Compilation.Follows

variable {budgets : Budgets} {request : Request} {source : String} {tree : Tree}
  {state : CheckState} {builder : Builder} {compilation : Compilation}

/-- The statements of the checked tree have the literals of the source. -/
theorem literals (h : compilation.Follows budgets request source tree state builder) :
    ∃ items mark, compilation.root = .program items mark ∧
      Node.Lowers ⟨state.table, 0⟩ .statements items builder.instructions.toList builder.supply ∧
      (∀ node ∈ items, node.IsSound state.table) ∧
      Node.literalTexts items = literalsOf source ∧ Node.formatTexts items = stringsOf source := by
  obtain ⟨-, hcut⟩ := Tree.derives_of_ofSource h.read
  obtain ⟨-, statements, line, items, rfl, hroot, hchecks, hlowers⟩ := h.lowers
  have hliterals := hchecks.literals.trans (Tree.literals_of_ofSource h.read)
  refine ⟨items, _, hroot, hlowers, hchecks.isSound hcut, ?_, ?_⟩
  · rw [Node.literalTexts, hliterals, literalsOf, List.filter_map, List.map_map]
    rfl
  · rw [Node.formatTexts, hliterals, stringsOf, List.filter_filter, List.filter_map, List.map_map]
    refine congrArg (List.map Token.lexeme) (List.filter_congr fun token _ => ?_)
    show (decide (token.kind = .stringLit) && token.kind.isLiteral) = _
    cases token.kind <;> rfl

/-- If C was asked for, the statements of its unit have the literals of the source, in some order,
and its prints have the string literals of the source, in their order. -/
theorem unit_literals (h : compilation.Follows budgets request source tree state builder)
    (hemit : request.emitC = true) :
    ∃ unit : CUnit, compilation.c = some (unit.text "    ") ∧
      CUnit.Becomes builder.table [] builder.instructions.toList unit.statements ∧
      (constants (unit.statements.flatMap CStatement.operands)).Perm (literalsOf source) ∧
      unit.statements.filterMap CStatement.format? = stringsOf source := by
  obtain ⟨-, unit, hunit, hc⟩ := h.unit hemit
  obtain ⟨hbecomes, -⟩ := h.isEmitted.unit_becomes hunit
  obtain ⟨items, mark, -, hlowers, hsound, hliterals, hstrings⟩ := h.literals
  refine ⟨unit, hc, hbecomes, ?_, ?_⟩
  · have hkeeps := hlowers.keeps hsound
    rw [Keeps, List.append_nil, hliterals] at hkeeps
    rw [hbecomes.operands, List.nil_append]
    exact hkeeps
  · have hformats := hlowers.formats hsound []
    have hend : formats false [] = [] := rfl
    rw [hend, List.append_nil, List.append_nil, hstrings] at hformats
    exact hbecomes.formats.trans hformats

end Compilation.Follows

/-! ## Strings -/

/-- The text of a print begins with its format. -/
theorem CStatement.text_print (format : String) (others : List String) :
    ∃ behind, (CStatement.print (format :: others)).text.toList =
      "printf(".toList ++ (format.toList ++ behind) := by
  obtain ⟨behind, hbehind⟩ : ∃ behind,
      (", ".intercalate (format :: others)).toList = format.toList ++ behind := by
    rw [String.toList_intercalate, List.map_cons]
    cases others with
    | nil => exact ⟨[], by rw [List.map_nil, List.intercalate_singleton, List.append_nil]⟩
    | cons other others =>
      rw [List.map_cons, List.intercalate_cons_cons, List.append_assoc]
      exact ⟨_, rfl⟩
  refine ⟨behind ++ ");".toList, ?_⟩
  rw [text, String.toList_append, String.toList_append, hbehind, List.append_assoc,
    List.append_assoc]

/-- A string literal of a source is a text without marks between marks. -/
theorem exists_body_of_mem_stringsOf {source format : String} (h : format ∈ stringsOf source) :
    ∃ body, format.toList = '\x22' :: (body ++ ['\x22']) ∧ '\x22' ∉ body := by
  obtain ⟨token, hmem, rfl⟩ := List.mem_map.1 h
  obtain ⟨hmem, hkind⟩ := List.mem_filter.1 hmem
  have hlexeme := (isLexeme_of_mem_tokenize hmem).1
  rw [of_decide_eq_true hkind] at hlexeme
  generalize token.lexeme.toList = text at hlexeme
  cases hlexeme with
  | spelled hspelling => cases hspelling
  | string hbody => exact ⟨_, rfl, hbody⟩

/-- The formats in a C text. The prints of the unit have the string literals of the source in their
order. Each is a text without marks between marks, and a string literal of C iff the text ends in an
even number of backslashes. Otherwise the literal goes on behind it in the statement. -/
theorem compile_formats {budgets : Budgets} {request : Request} {source : String}
    {compilation : Compilation} (h : (compile budgets request source).1 = .ok compilation)
    (hemit : request.emitC = true) :
    ∃ unit : CUnit, compilation.c = some (unit.text "    ") ∧
      unit.statements.filterMap CStatement.format? = stringsOf source ∧
      ∀ arguments, .print arguments ∈ unit.statements → ∃ format others body behind,
        arguments = format :: others ∧
        format.toList = '\x22' :: (body ++ ['\x22']) ∧ '\x22' ∉ body ∧
        (CUnit.isStringLiteral format.toList = true ↔ CUnit.trailingBackslashes body % 2 = 0) ∧
        (CStatement.print arguments).text.toList =
          "printf(".toList ++ '\x22' :: (body ++ '\x22' :: behind) ∧
        CUnit.behindString? false (body ++ '\x22' :: behind) =
          if CUnit.trailingBackslashes body % 2 = 0 then some behind
          else CUnit.behindString? false behind := by
  obtain ⟨tree, state, builder, hfollows⟩ := compile_follows h
  obtain ⟨unit, hc, hbecomes, -, hstrings⟩ := hfollows.unit_literals hemit
  refine ⟨unit, hc, hstrings, fun arguments hprint => ?_⟩
  obtain ⟨format, others, rfl⟩ := hbecomes.exists_format hprint
  have hformat : format ∈ stringsOf source :=
    hstrings ▸ List.mem_filterMap.2 ⟨_, hprint, rfl⟩
  obtain ⟨body, htext, hbody⟩ := exists_body_of_mem_stringsOf hformat
  obtain ⟨behind, hstatement⟩ := CStatement.text_print format others
  refine ⟨format, others, body, behind, rfl, htext, hbody, ?_, ?_,
    CUnit.behindString?_quoted hbody behind⟩
  · rw [htext]
    exact CUnit.isStringLiteral_iff hbody
  · rw [hstatement, htext, List.cons_append, List.append_assoc, List.singleton_append]

/-- A format that ends in an escaped backslash, and one with an escape inside. -/
theorem compile_formats_escaped :
    let source := "output \"100%\\\\\"; output \"%d\\n\", 2 + 3;"
    ∃ compilation unit, (compile {} {} source).1 = .ok compilation ∧
      ({} : Request).emitC = true ∧ compilation.c = some (CUnit.text "    " unit) ∧
      unit.statements.filterMap CStatement.format? = ["\"100%\\\\\"", "\"%d\\n\""] ∧
      ∀ arguments, .print arguments ∈ unit.statements → ∃ format others,
        arguments = format :: others ∧ CUnit.isStringLiteral format.toList = true := by
  intro source
  obtain ⟨compilation, hcompile, -⟩ : ∃ compilation, (compile {} {} source).1 = .ok compilation ∧
      compilation.c = some (CUnit.text "    " ⟨[⟨.int, "t1"⟩], [.print ["\"100%\\\\\""],
        .binary "t1" "2" "+" "3", .print ["\"%d\\n\"", "t1"]]⟩) :=
    exists_of_part Compilation.c (by decide +kernel)
  have hstrings : stringsOf source = ["\"100%\\\\\"", "\"%d\\n\""] := by decide +kernel
  obtain ⟨unit, hc, hformats, hprints⟩ := compile_formats hcompile rfl
  rw [hstrings] at hformats
  refine ⟨compilation, unit, hcompile, rfl, hc, hformats, fun arguments hprint => ?_⟩
  obtain ⟨format, others, body, behind, rfl, htext, -, hliteral, -⟩ := hprints arguments hprint
  refine ⟨format, others, rfl, hliteral.2 ?_⟩
  have hbody : body = format.toList.tail.dropLast := by
    rw [htext, List.tail_cons, List.dropLast_concat]
  have heven : ∀ format ∈ ["\"100%\\\\\"", "\"%d\\n\""],
      CUnit.trailingBackslashes format.toList.tail.dropLast % 2 = 0 := by decide
  rw [hbody]
  exact heven format (hformats ▸ List.mem_filterMap.2 ⟨_, hprint, rfl⟩)

/-- One backslash at the end of a format: in C the literal does not end in its statement. -/
theorem compile_format_unclosed :
    let unit : CUnit := ⟨[], [.print ["\"a\\\""]]⟩
    (∃ compilation, (compile {} {} "output \"a\\\";").1 = .ok compilation ∧
      compilation.c = some (unit.text "    ")) ∧
      CUnit.isStringLiteral "\"a\\\"".toList = false ∧
      (CStatement.print ["\"a\\\""]).text = "printf(\"a\\\");" ∧
      CUnit.behindString? false "a\\\");".toList = none := by
  intro unit
  exact ⟨exists_of_part Compilation.c (by decide +kernel), by decide, by decide, by decide⟩

/-! ## Integers -/

/-- The integers in a C text. The operands of the statements that are no variables are the literals
of the source, in some order. So every integer literal is an operand of some statement, as it was
written, and C reads its value iff its digits are those of ASCII, the value is below eight if there
is a zero in front, and a signed type of C holds the value. -/
theorem compile_integers {budgets : Budgets} {request : Request} {source : String}
    {compilation : Compilation} (h : (compile budgets request source).1 = .ok compilation)
    (hemit : request.emitC = true) :
    ∃ unit : CUnit, compilation.c = some (unit.text "    ") ∧
      (constants (unit.statements.flatMap CStatement.operands)).Perm (literalsOf source) ∧
      ∀ token ∈ tokenize source, token.kind = .intLit →
        (∃ statement ∈ unit.statements, token.lexeme ∈ statement.operands) ∧
        ∀ limits, CUnit.integerConstant? limits token.lexeme.toList =
            some (decimalNumber token.lexeme.toList) ↔
          (∀ c ∈ token.lexeme.toList, c.isDigit = true) ∧
            (token.lexeme.toList.head? = some '0' → decimalNumber token.lexeme.toList < 8) ∧
            decimalNumber token.lexeme.toList ≤ limits.signed := by
  obtain ⟨tree, state, builder, hfollows⟩ := compile_follows h
  obtain ⟨unit, hc, -, hliterals, -⟩ := hfollows.unit_literals hemit
  refine ⟨unit, hc, hliterals, fun token hmem hkind => ⟨?_, fun limits => ?_⟩⟩
  · have hliteral : token.lexeme ∈ literalsOf source :=
      List.mem_map_of_mem (List.mem_filter.2 ⟨hmem, by rw [hkind]; rfl⟩)
    obtain ⟨hoperand, -⟩ := List.mem_filter.1 (hliterals.mem_iff.2 hliteral)
    exact List.mem_flatMap.1 hoperand
  · have hlexeme := (isLexeme_of_mem_tokenize hmem).1
    rw [hkind] at hlexeme
    exact CUnit.integerConstant?_eq_some_iff hlexeme limits

/-- Zeros in front of a small value, and the largest value that C must have a type for. -/
theorem compile_integers_largest :
    let source := "let x = 007 + 9223372036854775807;"
    ∃ compilation unit, (compile {} {} source).1 = .ok compilation ∧
      ({} : Request).emitC = true ∧ compilation.c = some (CUnit.text "    " unit) ∧
      ∀ number ∈ [("007", 7), ("9223372036854775807", 9223372036854775807)],
        (∃ statement ∈ unit.statements, number.1 ∈ statement.operands) ∧
        ∀ limits, CUnit.integerConstant? limits number.1.toList = some number.2 := by
  intro source
  obtain ⟨compilation, hcompile, -⟩ : ∃ compilation, (compile {} {} source).1 = .ok compilation ∧
      compilation.c = some (CUnit.text "    " ⟨[⟨.int, "x"⟩, ⟨.int, "t1"⟩],
        [.binary "t1" "007" "+" "9223372036854775807", .copy "x" "t1"]⟩) :=
    exists_of_part Compilation.c (by decide +kernel)
  obtain ⟨unit, hc, -, hintegers⟩ := compile_integers hcompile rfl
  refine ⟨compilation, unit, hcompile, rfl, hc, fun number hnumber => ?_⟩
  have htokens : ∀ number ∈ [("007", 7), ("9223372036854775807", 9223372036854775807)],
      (⟨.intLit, number.1, 1⟩ : Token) ∈ tokenize source ∧
        decimalNumber number.1.toList = number.2 ∧
        number.1.toList.all Char.isDigit = true ∧
        (number.1.toList.head? = some '0' → number.2 < 8) ∧ number.2 ≤ 9223372036854775807 := by
    decide +kernel
  obtain ⟨hmem, hvalue, hdigits, hzero, hle⟩ := htokens number hnumber
  obtain ⟨hoperand, hread⟩ := hintegers _ hmem rfl
  refine ⟨hoperand, fun limits => ?_⟩
  have hlimit := Nat.le_trans hle limits.signed_ge
  rw [hvalue] at hread
  exact (hread limits).2 ⟨List.all_eq_true.1 hdigits, hzero, hlimit⟩

/-- Literals that C reads otherwise or not at all: the first is octal, the second has a digit that
is not octal, and the third has a digit that C does not know. -/
theorem compile_integers_misread :
    let unit : CUnit := ⟨[⟨.int, "x"⟩, ⟨.int, "y"⟩, ⟨.int, "z"⟩],
      [.copy "x" "010", .copy "y" "08", .copy "z" "1²"]⟩
    (∃ compilation, (compile {} {} "let x = 010; let y = 08; let z = 1²;").1 = .ok compilation ∧
      compilation.c = some (unit.text "    ")) ∧
      decimalNumber "010".toList = 10 ∧ CUnit.integerConstant? {} "010".toList = some 8 ∧
      CUnit.integerConstant? {} "08".toList = none ∧
      CUnit.integerConstant? {} "1²".toList = none := by
  intro unit
  exact ⟨exists_of_part Compilation.c (by decide +kernel), by decide, by decide, by decide,
    by decide⟩

end ThreeAddress
