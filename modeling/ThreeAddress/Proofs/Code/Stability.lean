import Mathlib.Data.List.Induction
import ThreeAddress.Proofs.Code.Lines

/-!
# Reading is stable

What a line of code is read as has a text that is read as the same. Each scanner takes off the text
of what it yields, so an instruction that is no call has the line that it was read from as its text,
blanks at the ends aside. The count of a call may be written with zeros in front or in the digits of
any script, and then the text of the call is another one: it is that of a proper instruction.
-/

namespace ThreeAddress

open Text

namespace Scanner

variable {Value Other : Type} {text rest : List Char}

/-! ## What is taken off -/

/-- Scanners one after the other fit if each of them does. -/
theorem bind_eq_some {scanner : Scanner Value} {next : Value → Scanner Other}
    {result : Other × List Char} (h : (scanner >>= next) text = some result) :
    ∃ value left, scanner text = some (value, left) ∧ next value left = some result := by
  obtain ⟨⟨value, left⟩, hvalue, hnext⟩ := Option.bind_eq_some_iff.1 h
  exact ⟨value, left, hvalue, hnext⟩

/-- A scanner fits if it does so up to a change of what it yields. -/
theorem map_eq_some {change : Value → Other} {scanner : Scanner Value} {value : Other}
    (h : (change <$> scanner) text = some (value, rest)) :
    ∃ taken, scanner text = some (taken, rest) ∧ change taken = value := by
  obtain ⟨⟨taken, left⟩, htaken, hvalue⟩ := Option.bind_eq_some_iff.1 h
  cases hvalue
  exact ⟨taken, htaken, rfl⟩

/-- One of two scanners fits if a choice of them does. -/
theorem orElse_eq_some {first second : Scanner Value} {result : Value × List Char}
    (h : (first <|> second) text = some result) :
    first text = some result ∨ second text = some result := by
  cases hfirst : first text with
  | none => exact .inr (by rwa [orElse_none hfirst] at h)
  | some found => exact .inl (by rwa [orElse_some hfirst] at h)

/-- What is read as a name begins with it. -/
theorem name_eq_some {value : String} (h : name text = some (value, rest)) :
    text = value.toList ++ rest ∧ IsName value.toList := by
  cases text with
  | nil => cases h
  | cons c others =>
    rw [name] at h
    split at h
    · next hc =>
      cases h
      rw [String.toList_ofList]
      refine ⟨?_, c, _, rfl, hc, fun d hd => List.all_eq_true.1 List.all_takeWhile d hd⟩
      rw [List.cons_append, List.takeWhile_append_dropWhile]
    · cases h

/-- What is read as an operand begins with it. -/
theorem operand_eq_some {value : String} (h : operand text = some (value, rest)) :
    text = value.toList ++ rest := by
  unfold operand at h
  split at h
  · split at h
    · cases h
    · cases h
      rw [String.toList_ofList]
      rfl
  · split at h
    · cases h
    · cases h
      rw [String.toList_ofList]
      rfl
  · cases h
  · obtain ⟨taken, hrun, rfl⟩ := map_eq_some h
    rw [String.toList_ofList]
    exact (run_eq_some hrun).1

/-- What is read as an operator begins with it. -/
theorem operator_eq_some {operators : List (List Char)} {value : String}
    (h : operator operators text = some (value, rest)) : text = value.toList ++ rest := by
  obtain ⟨taken, left, hrun, hvalue⟩ := bind_eq_some h
  split at hvalue
  · cases hvalue
    rw [String.toList_ofList]
    exact (run_eq_some hrun).1
  · cases hvalue

/-- What is read as a number begins with its digits. -/
theorem number_eq_some {value : Nat} (h : number text = some (value, rest)) :
    ∃ digits, text = digits ++ rest ∧ (∀ c ∈ digits, isDecimal c = true) ∧
      value = decimalNumber digits := by
  obtain ⟨digits, hrun, rfl⟩ := map_eq_some h
  obtain ⟨htext, -, hdigits⟩ := run_eq_some hrun
  exact ⟨digits, htext, hdigits, rfl⟩

/-- Nothing is read at the end. -/
theorem atEnd_eq_some (h : atEnd text = some ((), rest)) : text = [] ∧ rest = [] := by
  rw [atEnd] at h
  split at h
  · next hempty =>
    cases h
    exact ⟨List.isEmpty_iff.1 hempty, rfl⟩
  · cases h

/-- The rest of a line is all of it. -/
theorem restOfLine_eq_some {value : String} (h : restOfLine text = some (value, rest)) :
    text = value.toList ∧ rest = [] := by
  rw [restOfLine] at h
  split at h
  · cases h
  · cases h
    exact ⟨String.toList_ofList.symm, rfl⟩

/-- A digit stands for less than ten. -/
theorem decimalValue_lt (c : Char) : decimalValue c < 10 := by
  rw [decimalValue]
  split
  · exact Nat.mod_lt _ (by omega)
  · omega

/-- So many digits write less than the least number with more digits. -/
theorem decimalNumber_lt (digits : List Char) :
    decimalNumber digits < Instruction.leastLonger digits.length := by
  induction digits using List.reverseRecOn with
  | nil => exact Nat.one_pos
  | append_singleton digits c ih =>
    have hnumber : decimalNumber (digits ++ [c]) = 10 * decimalNumber digits + decimalValue c := by
      rw [decimalNumber, List.foldl_append]
      rfl
    have hvalue := decimalValue_lt c
    rw [hnumber, List.length_append, List.length_singleton]
    show _ < Instruction.leastLonger digits.length * 10
    omega

end Scanner

namespace Instruction

open Scanner

variable {text : List Char} {result : Instruction × List Char} {instruction : Instruction}

/-! ## What instructions are read from -/

/-- A call is read from its text, up to how the count is written. -/
inductive IsCallOf (front : List Char) (target : Option String) :
    List Char → Instruction → Prop where
  | intro {function : String} {digits : List Char} : IsName function.toList →
      (∀ c ∈ digits, isDecimal c = true) →
      IsCallOf front target (front ++ (['c', 'a', 'l', 'l', ' '] ++ (function.toList ++
        ([',', ' '] ++ digits)))) (.call function (decimalNumber digits) target)

section
variable {front : List Char} {target : Option String}

/-- What is read as a call is a call. -/
theorem IsCallOf.eq_call (h : IsCallOf front target text instruction) :
    ∃ (function : String) (count : Nat), instruction = .call function count target := by
  cases h
  exact ⟨_, _, rfl⟩

/-- A call without a target is proper. -/
theorem IsCallOf.isProper (h : IsCallOf front none text instruction) : instruction.IsProper := by
  cases h with
  | intro hfunction => exact .call hfunction

/-- A call with a target is proper. -/
theorem IsCallOf.isProper_stored {target : String}
    (h : IsCallOf front (some target) text instruction) (htarget : IsName target.toList) :
    instruction.IsProper := by
  cases h with
  | intro hfunction => exact .storedCall htarget hfunction

end

/-- What a call is read from. -/
theorem scanCall_eq_some {target : Option String} (front : List Char)
    (h : scanCall target text = some result) :
    IsCallOf front target (front ++ text) result.1 := by
  obtain ⟨_, _, hword, h⟩ := bind_eq_some h
  obtain ⟨function, _, hname, h⟩ := bind_eq_some h
  obtain ⟨_, _, hcomma, h⟩ := bind_eq_some h
  obtain ⟨count, _, hnumber, h⟩ := bind_eq_some h
  obtain ⟨_, _, hend, h⟩ := bind_eq_some h
  obtain ⟨digits, hdigits, hdecimal, rfl⟩ := number_eq_some hnumber
  obtain ⟨hfunction, hisName⟩ := name_eq_some hname
  obtain ⟨rfl, rfl⟩ := atEnd_eq_some hend
  cases h
  rw [exactly_eq_some hword, hfunction, exactly_eq_some hcomma, hdigits, List.append_nil]
  exact .intro hisName hdecimal

/-- What is read from a text: an instruction with this text, or a call with this text up to how its
count is written. -/
def IsReadFrom (text : List Char) (instruction : Instruction) : Prop :=
  instruction.text.toList = text ∨ IsCallOf [] none text instruction ∨
    ∃ target : String, IsName target.toList ∧
      IsCallOf (target.toList ++ [' ', '=', ' ']) (some target) text instruction

/-- What a call whose value is stored is read from. -/
theorem scanStoredCall_eq_some (h : scanStoredCall text = some result) :
    IsReadFrom text result.1 := by
  obtain ⟨target, _, hname, h⟩ := bind_eq_some h
  obtain ⟨_, rest, harrow, h⟩ := bind_eq_some h
  obtain ⟨htarget, hisName⟩ := name_eq_some hname
  refine .inr (.inr ⟨target, hisName, ?_⟩)
  rw [htarget, exactly_eq_some harrow, ← List.append_assoc]
  exact scanCall_eq_some _ h

/-- What an assignment with two operands is read from. -/
theorem scanBinary_eq_some (h : scanBinary text = some result) : result.1.text.toList = text := by
  obtain ⟨target, _, hname, h⟩ := bind_eq_some h
  obtain ⟨_, _, harrow, h⟩ := bind_eq_some h
  obtain ⟨first, _, hfirst, h⟩ := bind_eq_some h
  obtain ⟨_, _, hspace, h⟩ := bind_eq_some h
  obtain ⟨sign, _, hsign, h⟩ := bind_eq_some h
  obtain ⟨_, _, hspace', h⟩ := bind_eq_some h
  obtain ⟨second, _, hsecond, h⟩ := bind_eq_some h
  obtain ⟨_, _, hend, h⟩ := bind_eq_some h
  obtain ⟨rfl, rfl⟩ := atEnd_eq_some hend
  cases h
  rw [(name_eq_some hname).1, exactly_eq_some harrow, operand_eq_some hfirst,
    exactly_eq_some hspace, operator_eq_some hsign, exactly_eq_some hspace',
    operand_eq_some hsecond]
  simp [Instruction.text, assignText, operandText]

/-- What an assignment with one operand and an operator is read from. -/
theorem scanUnary_eq_some (h : scanUnary text = some result) : result.1.text.toList = text := by
  obtain ⟨target, _, hname, h⟩ := bind_eq_some h
  obtain ⟨_, _, harrow, h⟩ := bind_eq_some h
  obtain ⟨sign, _, hsign, h⟩ := bind_eq_some h
  obtain ⟨_, _, hspace, h⟩ := bind_eq_some h
  obtain ⟨first, _, hfirst, h⟩ := bind_eq_some h
  obtain ⟨_, _, hend, h⟩ := bind_eq_some h
  obtain ⟨rfl, rfl⟩ := atEnd_eq_some hend
  cases h
  rw [(name_eq_some hname).1, exactly_eq_some harrow, operator_eq_some hsign,
    exactly_eq_some hspace, operand_eq_some hfirst]
  simp [Instruction.text, assignText, operandText]

/-- What an assignment without an operator is read from. -/
theorem scanCopy_eq_some (h : scanCopy text = some result) : result.1.text.toList = text := by
  obtain ⟨target, _, hname, h⟩ := bind_eq_some h
  obtain ⟨_, _, harrow, h⟩ := bind_eq_some h
  obtain ⟨first, _, hfirst, h⟩ := bind_eq_some h
  obtain ⟨_, _, hend, h⟩ := bind_eq_some h
  obtain ⟨rfl, rfl⟩ := atEnd_eq_some hend
  cases h
  rw [(name_eq_some hname).1, exactly_eq_some harrow, operand_eq_some hfirst]
  simp [Instruction.text, assignText, operandText]

/-- What a label is read from. -/
theorem scanLabel_eq_some (h : scanLabel text = some result) : result.1.text.toList = text := by
  obtain ⟨place, _, hname, h⟩ := bind_eq_some h
  obtain ⟨_, _, hcolon, h⟩ := bind_eq_some h
  obtain ⟨_, _, hend, h⟩ := bind_eq_some h
  obtain ⟨rfl, rfl⟩ := atEnd_eq_some hend
  cases h
  rw [(name_eq_some hname).1, exactly_eq_some hcolon]
  simp [Instruction.text]

/-- What a jump is read from. -/
theorem scanJump_eq_some (h : scanJump text = some result) : result.1.text.toList = text := by
  obtain ⟨_, _, hword, h⟩ := bind_eq_some h
  obtain ⟨goal, _, hname, h⟩ := bind_eq_some h
  obtain ⟨_, _, hend, h⟩ := bind_eq_some h
  obtain ⟨rfl, rfl⟩ := atEnd_eq_some hend
  cases h
  rw [exactly_eq_some hword, (name_eq_some hname).1]
  simp [Instruction.text]

/-- What a jump under a condition is read from. -/
theorem scanBranch_eq_some (h : scanBranch text = some result) : result.1.text.toList = text := by
  obtain ⟨_, _, hword, h⟩ := bind_eq_some h
  obtain ⟨condition, _, hcondition, h⟩ := bind_eq_some h
  obtain ⟨_, _, hgoto, h⟩ := bind_eq_some h
  obtain ⟨goal, _, hname, h⟩ := bind_eq_some h
  obtain ⟨_, _, hend, h⟩ := bind_eq_some h
  obtain ⟨rfl, rfl⟩ := atEnd_eq_some hend
  cases h
  rw [exactly_eq_some hword, operand_eq_some hcondition, exactly_eq_some hgoto,
    (name_eq_some hname).1]
  simp [Instruction.text]

/-- What a parameter is read from. -/
theorem scanParam_eq_some (h : scanParam text = some result) : result.1.text.toList = text := by
  obtain ⟨_, _, hword, h⟩ := bind_eq_some h
  obtain ⟨item, _, hitem, h⟩ := bind_eq_some h
  cases h
  rw [exactly_eq_some hword, (restOfLine_eq_some hitem).1]
  simp [Instruction.text]

/-- What any instruction is read from. -/
theorem scan_eq_some (h : scan text = some result) : IsReadFrom text result.1 := by
  rcases orElse_eq_some h with h | h
  · exact scanStoredCall_eq_some h
  rcases orElse_eq_some h with h | h
  · exact .inr (.inl (scanCall_eq_some [] h))
  left
  rcases orElse_eq_some h with h | h
  · exact scanBinary_eq_some h
  rcases orElse_eq_some h with h | h
  · exact scanUnary_eq_some h
  rcases orElse_eq_some h with h | h
  · exact scanCopy_eq_some h
  rcases orElse_eq_some h with h | h
  · exact scanLabel_eq_some h
  rcases orElse_eq_some h with h | h
  · exact scanJump_eq_some h
  rcases orElse_eq_some h with h | h
  · exact scanBranch_eq_some h
  · exact scanParam_eq_some h

/-! ## Reading again -/

/-- The more digits there may be, the greater are the numbers that have more. -/
theorem leastLonger_le {digits more : Nat} (h : digits ≤ more) :
    leastLonger digits ≤ leastLonger more := Nat.pow_le_pow_right (by omega) h

/-- Blanks around a line do not count. -/
theorem ofLine_congr {line other : String} (h : trim line.toList = trim other.toList) :
    ofLine line = ofLine other := by
  rw [ofLine, ofLine, ofLine?, ofLine?, h]

/-- A call that was read from a text with few enough digits does not count too many parameters. -/
theorem IsCallOf.hasLongCount {front : List Char} {target : Option String}
    (h : IsCallOf front target text instruction) (hfew : trailingDigits text ≤ maxCountDigits) :
    instruction.hasLongCount = false := by
  obtain @⟨function, digits, -, hdigits⟩ := h
  have htext : front ++ (['c', 'a', 'l', 'l', ' '] ++ (function.toList ++ ([',', ' '] ++ digits))) =
      (front ++ (['c', 'a', 'l', 'l', ' '] ++ function.toList)) ++ ([',', ' '] ++ digits) := by
    simp only [List.append_assoc]
  rw [htext, trailingDigits_append _ hdigits] at hfew
  have hlt : decimalNumber digits < leastLonger maxCountDigits :=
    Nat.lt_of_lt_of_le (decimalNumber_lt digits) (leastLonger_le hfew)
  exact Bool.eq_false_iff.2 fun hlong => Nat.not_le.2 hlt (hasLongCount_call.1 hlong)

/-- A line that is read as a call has few enough digits at its end. -/
theorem trailingDigits_le {line function : String} {count : Int} {target : Option String}
    (h : ofLine line = .ok (.call function count target)) :
    trailingDigits (trim line.toList) ≤ maxCountDigits := by
  rw [ofLine] at h
  split at h
  · split at h
    · cases h
    · next hfew => exact Nat.not_lt.1 hfew
  · next hother hfound =>
    cases h
    exact absurd rfl (hother _ _ _)
  · cases h

/-- A line that is read as an instruction is one that it is read from. -/
theorem isReadFrom_of_ofLine {line : String} (h : ofLine line = .ok instruction) :
    IsReadFrom (trim line.toList) instruction := by
  obtain ⟨⟨found, rest⟩, hscan, hfound⟩ := Option.map_eq_some_iff.1 (ofLine?_of_ofLine h)
  cases hfound
  exact scan_eq_some hscan

/-- A call that was read is read back from its text. -/
theorem IsCallOf.ofLine_text {front : List Char} {target : Option String} {line : String}
    (h : IsCallOf front target (trim line.toList) instruction) (hproper : instruction.IsProper)
    (hread : ofLine line = .ok instruction) : ofLine instruction.text = .ok instruction := by
  obtain ⟨function, count, rfl⟩ := h.eq_call
  rw [hproper.ofLine_text, h.hasLongCount (trailingDigits_le hread)]
  rfl

/-- Reading is stable: what was read from a line is read back from its text, and so is every proper
instruction that does not count too many parameters. With too many, the numeral is refused here when
it is read; it would be refused before that already, when the text is written (`text`). -/
theorem ofLine_text_stable :
    (∀ line instruction, ofLine line = .ok instruction →
      ofLine instruction.text = .ok instruction) ∧
    ∀ instruction : Instruction, instruction.IsProper → ofLine instruction.text =
      if instruction.hasLongCount then .error .longCount else .ok instruction := by
  refine ⟨fun line instruction h => ?_, fun instruction h => h.ofLine_text⟩
  rcases isReadFrom_of_ofLine h with htext | hcall | ⟨target, htarget, hcall⟩
  · rw [← h]
    exact ofLine_congr (by rw [htext, trim_trim])
  · exact hcall.ofLine_text hcall.isProper h
  · exact hcall.ofLine_text (hcall.isProper_stored htarget) h

/-- A line with signs for operands and a text with digits of another script are stable, and so is
a jump under a condition that is written like an arrow. -/
theorem ofLine_text_stable_signs :
    ofLine "  x = - = " = .ok (.assign "x" (some "=") (some "-") none) ∧
      ofLine (assign "x" (some "=") (some "-") none).text =
        .ok (.assign "x" (some "=") (some "-") none) ∧
      ofLine "call f, 0\u0663" = .ok (.call "f" 3 none) ∧
      ofLine (Instruction.call "f" 3 none).text = .ok (.call "f" 3 none) ∧
      (branch "=" "goto").IsProper ∧
      ofLine (branch "=" "goto").text = .ok (.branch "=" "goto") := by
  have hsigns : ofLine "  x = - = " = .ok (.assign "x" (some "=") (some "-") none) := by
    decide +kernel
  have hcount : ofLine "call f, 0\u0663" = .ok (.call "f" 3 none) := by decide +kernel
  have hbranch : (branch "=" "goto").IsProper :=
    .branch (.bare nofun (List.all_eq_true.1 rfl)) (IsWord.of_all rfl rfl).isName
  exact ⟨hsigns, ofLine_text_stable.1 _ _ hsigns, hcount, ofLine_text_stable.1 _ _ hcount, hbranch,
    ofLine_text_stable.2 _ hbranch⟩

/-- A proper call that counts too many parameters is not read back. -/
theorem ofLine_text_ne : (Instruction.call "f" (leastLonger maxCountDigits) none).IsProper ∧
    ofLine (Instruction.call "f" (leastLonger maxCountDigits) none).text ≠
      .ok (.call "f" (leastLonger maxCountDigits) none) := by
  have hproper : (Instruction.call "f" (leastLonger maxCountDigits) none).IsProper :=
    .call (IsWord.of_all rfl rfl).isName
  refine ⟨hproper, ?_⟩
  rw [hproper.ofLine_text, hasLongCount_call.2 (Nat.le_refl _)]
  exact nofun

end Instruction

end ThreeAddress
