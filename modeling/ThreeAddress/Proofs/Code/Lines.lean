import ThreeAddress.Proofs.Code.Reading
import ThreeAddress.Proofs.Sequence

/-!
# Code is read back from its lines

Lines of code are read back as the instructions that they are the texts of. The one thing in the
way is a count with more digits than may be read, and so many parameters take a longer text than
any that is ever written.
-/

namespace ThreeAddress

open Text

/-! ## Blanks at the ends -/

namespace Text

/-- A text begins with a character that is not blank. -/
def Begins (text : List Char) : Prop := ∃ c others, text = c :: others ∧ isBlank c = false

/-- A text ends in a character that is not blank. -/
def Ends (text : List Char) : Prop := ∃ others c, text = others ++ [c] ∧ isBlank c = false

variable {text others : List Char}

/-- What follows a beginning does not change it. -/
theorem Begins.append (h : Begins text) (others : List Char) : Begins (text ++ others) := by
  obtain ⟨c, rest, rfl, hc⟩ := h
  exact ⟨c, rest ++ others, rfl, hc⟩

/-- What stands in front of an end does not change it. -/
theorem Ends.append (h : Ends text) (others : List Char) : Ends (others ++ text) := by
  obtain ⟨rest, c, rfl, hc⟩ := h
  exact ⟨others ++ rest, c, (List.append_assoc _ _ _).symm, hc⟩

/-- A text without blanks at its ends is not trimmed. -/
theorem trim_eq (hbegins : Begins text) (hends : Ends text) : trim text = text := by
  have hdrop : ∀ {text : List Char}, Begins text → text.dropWhile isBlank = text := by
    rintro _ ⟨c, rest, rfl, hc⟩
    rw [List.dropWhile_cons, hc]
    rfl
  have hreverse : Begins text.reverse := by
    obtain ⟨rest, c, rfl, hc⟩ := hends
    exact ⟨c, rest.reverse, by simp, hc⟩
  rw [trim, hdrop hbegins, hdrop hreverse, List.reverse_reverse]

/-- What is left of a text without the blanks at its ends has none there. -/
theorem begins_ends_trim (h : trim text ≠ []) : Begins (trim text) ∧ Ends (trim text) := by
  have hhead : ∀ {text : List Char}, text.dropWhile isBlank ≠ [] →
      Begins (text.dropWhile isBlank) := by
    intro text hne
    obtain ⟨c, others, heq⟩ := List.exists_cons_of_ne_nil hne
    exact ⟨c, others, heq, by simpa [heq] using List.head_dropWhile_not isBlank hne⟩
  have hne : (text.dropWhile isBlank).reverse.dropWhile isBlank ≠ [] :=
    fun hnil => h (by rw [trim, hnil, List.reverse_nil])
  obtain ⟨d, rest, hrest, hd⟩ := hhead hne
  have hends : trim text = rest.reverse ++ [d] := by rw [trim, hrest, List.reverse_cons]
  -- What is dropped from the end leaves a part from the start on.
  obtain ⟨dropped, hdropped⟩ : trim text <+: text.dropWhile isBlank := by
    have hsuffix := List.dropWhile_suffix isBlank (l := (text.dropWhile isBlank).reverse)
    simpa [trim] using List.reverse_prefix.2 hsuffix
  have hfront : text.dropWhile isBlank ≠ [] := by
    rw [← hdropped]
    exact List.append_ne_nil_of_left_ne_nil h dropped
  obtain ⟨c, others, hothers, hc⟩ := hhead hfront
  refine ⟨?_, ⟨rest.reverse, d, hends, hd⟩⟩
  cases htrim : trim text with
  | nil => exact absurd htrim h
  | cons e kept =>
    rw [htrim, hothers] at hdropped
    cases hdropped
    exact ⟨_, kept, rfl, hc⟩

/-- A text is trimmed once. -/
theorem trim_trim (text : List Char) : trim (trim text) = trim text := by
  by_cases h : trim text = []
  · rw [h]
    rfl
  · obtain ⟨hbegins, hends⟩ := begins_ends_trim h
    exact trim_eq hbegins hends

/-- A text that begins with a character is not blank. -/
theorem isBlankText_of_begins (h : Begins text) : isBlankText text = false := by
  obtain ⟨c, rest, rfl, hc⟩ := h
  rw [isBlankText, List.all_cons, hc, Bool.false_and]

/-- A text whose characters are not blank has no blanks at its ends. -/
theorem begins_ends_of_forall (hne : text ≠ []) (h : ∀ c ∈ text, isBlank c = false) :
    Begins text ∧ Ends text := by
  refine ⟨?_, ?_⟩
  · cases text with
    | nil => exact absurd rfl hne
    | cons c others => exact ⟨c, others, rfl, h c (.head _)⟩
  · exact ⟨_, _, (List.dropLast_append_getLast hne).symm, h _ (List.getLast_mem hne)⟩

end Text

/-- Operands have no blanks at their ends. -/
theorem IsOperand.begins_ends {text : List Char} (h : IsOperand text) :
    Begins text ∧ Ends text := by
  cases h with
  | bare hne htext =>
    refine begins_ends_of_forall hne fun c hc => ?_
    have hbare := htext c hc
    rw [Scanner.isBare, Bool.and_eq_true] at hbare
    exact Bool.not_eq_true' _ ▸ hbare.1
  | plain => exact ⟨⟨_, _, rfl, rfl⟩, ⟨['\x27', _], _, rfl, rfl⟩⟩
  | escaped => exact ⟨⟨_, _, rfl, rfl⟩, ⟨['\x27', '\\', _], _, rfl, rfl⟩⟩

/-! ## Numerals -/

namespace Instruction

/-- The instructions that a program is lowered to: names and operands are words, numbers or
characters, operators are among those that can be read, and a print has at most so many
parameters. -/
inductive IsWritten (bound : Nat) : Instruction → Prop where
  | copy {target first : String} : IsWord target.toList → IsOperandText first.toList →
      IsWritten bound (.assign target (some first) none none)
  | unary {target first operator : String} : IsWord target.toList →
      operator.toList ∈ unaryOperators → IsOperandText first.toList →
      IsWritten bound (.assign target (some first) (some operator) none)
  | binary {target first second operator : String} : IsWord target.toList →
      IsOperandText first.toList → operator.toList ∈ binaryOperators →
      IsOperandText second.toList →
      IsWritten bound (.assign target (some first) (some operator) (some second))
  | jump {goal : String} : IsWord goal.toList → IsWritten bound (.jump goal)
  | branch {condition goal : String} : IsOperandText condition.toList → IsWord goal.toList →
      IsWritten bound (.branch condition goal)
  | label {name : String} : IsWord name.toList → IsWritten bound (.label name)
  | param {operand : String} : IsOperandText operand.toList → '\n' ∉ operand.toList →
      IsWritten bound (.param operand)
  | format {text : String} {body : List Char} : text.toList = '\x22' :: (body ++ ['\x22']) →
      '\n' ∉ text.toList → IsWritten bound (.param text)
  | read {target : String} : IsWord target.toList →
      IsWritten bound (.call "input" 0 (some target))
  | print {count : Nat} : count ≤ bound → IsWritten bound (.call "printf" count none)

/-- The least number that has more than so many digits. -/
def leastLonger (digits : Nat) : Nat := Nat.pow 10 digits

/-- Some numbers have no more digits. -/
theorem leastLonger_pos (digits : Nat) : 0 < leastLonger digits := Nat.pow_pos (by omega)

/-- The least number that is longer is greater than how many digits there may be. -/
theorem lt_leastLonger (digits : Nat) : digits < leastLonger digits :=
  Nat.lt_pow_self (by omega)

/-- The numbers below have no more digits. -/
theorem length_toString_le_iff {digits count : Nat} (h : digits ≠ 0) :
    (toString count).toList.length ≤ digits ↔ count < leastLonger digits := by
  have hrepr : (toString count).toList = Nat.toDigits 10 count := Nat.toList_repr
  rw [hrepr]
  exact Nat.length_toDigits_le_iff (by omega) (Nat.pos_of_ne_zero h)

/-- The digits at the end of a line that ends in them. -/
theorem trailingDigits_append (text : List Char) {digits : List Char}
    (h : ∀ c ∈ digits, isDecimal c = true) :
    trailingDigits (text ++ ([',', ' '] ++ digits)) = digits.length := by
  have hreverse : (text ++ ([',', ' '] ++ digits)).reverse =
      digits.reverse ++ (' ' :: ',' :: text.reverse) := by simp
  have hdigits : ∀ c ∈ digits.reverse, isDecimal c = true := fun c hc =>
    h c (List.mem_reverse.1 hc)
  obtain ⟨htake, -⟩ := takeWhile_append_stop hdigits (' ' :: ',' :: text.reverse)
    (Scanner.stops rfl)
  rw [trailingDigits, hreverse, htake, List.length_reverse]

variable {instruction : Instruction} {text : List Char} {bound : Nat}

/-- A line with a numeral at its end does not end in a blank. -/
theorem ends_count (front : List Char) (count : Nat) :
    Ends (front ++ ([',', ' '] ++ (toString count).toList)) := by
  have hne : (toString count).toList ≠ [] := by
    show (Nat.repr count).toList ≠ []
    rw [Nat.toList_repr]
    exact Nat.toDigits_ne_nil
  have hdigits := begins_ends_of_forall hne fun c hc =>
    isBlank_of_isDigit (isDigit_of_isDecimal (Scanner.isDecimal_of_mem_toString hc))
  exact (hdigits.2.append [',', ' ']).append front

/-- The text of a call. -/
theorem toList_callText (function : String) (count : Nat) :
    (callText function count none).toList =
      (['c', 'a', 'l', 'l', ' '] ++ function.toList) ++
        ([',', ' '] ++ (toString count).toList) := by
  show ("call " ++ function ++ ", " ++ toString count).toList = _
  rw [String.toList_append, String.toList_append, String.toList_append, List.append_assoc]
  rfl

/-- The text of a call whose value is stored. -/
theorem toList_storedCallText (function : String) (count : Nat) {target : String}
    (h : IsName target.toList) : (callText function count (some target)).toList =
      (target.toList ++ ([' ', '=', ' '] ++ (['c', 'a', 'l', 'l', ' '] ++ function.toList))) ++
        ([',', ' '] ++ (toString count).toList) := by
  have hne : target ≠ "" := by
    rintro rfl
    obtain ⟨_, _, hnil, -⟩ := h
    cases hnil
  have htext : callText function count (some target) =
      target ++ " = " ++ callText function count none := if_neg hne
  rw [htext, String.toList_append, String.toList_append, toList_callText]
  simp only [List.append_assoc]
  rfl

/-! ## Instructions and their texts -/

/-- The instructions that have a text of their own: names and operands can be read as such, an
assignment has one of the three forms, and the text of a parameter is an operand or begins with the
mark of a string and does not end in a blank. -/
inductive IsProper : Instruction → Prop where
  | copy {target first : String} : IsName target.toList → IsOperand first.toList →
      IsProper (.assign target (some first) none none)
  | unary {target first operator : String} : IsName target.toList →
      operator.toList ∈ unaryOperators → IsOperand first.toList →
      IsProper (.assign target (some first) (some operator) none)
  | binary {target first second operator : String} : IsName target.toList →
      IsOperand first.toList → operator.toList ∈ binaryOperators → IsOperand second.toList →
      IsProper (.assign target (some first) (some operator) (some second))
  | jump {goal : String} : IsName goal.toList → IsProper (.jump goal)
  | branch {condition goal : String} : IsOperand condition.toList → IsName goal.toList →
      IsProper (.branch condition goal)
  | label {name : String} : IsName name.toList → IsProper (.label name)
  | param {operand : String} : IsOperand operand.toList → '\n' ∉ operand.toList →
      IsProper (.param operand)
  | format {text : String} {others : List Char} : text.toList = '\x22' :: others →
      Ends text.toList → '\n' ∉ text.toList → IsProper (.param text)
  | call {function : String} {count : Nat} : IsName function.toList →
      IsProper (.call function count none)
  | storedCall {function target : String} {count : Nat} : IsName target.toList →
      IsName function.toList → IsProper (.call function count (some target))

/-- The name of the function that reads is a word. -/
theorem isWord_input : IsWord "input".toList := IsWord.of_all rfl rfl

/-- The name of the function that prints is a word. -/
theorem isWord_printf : IsWord "printf".toList := IsWord.of_all rfl rfl

/-- What is written is proper. -/
theorem IsWritten.isProper (h : instruction.IsWritten bound) : instruction.IsProper := by
  cases h with
  | copy htarget hfirst => exact .copy htarget.isName hfirst.isOperand
  | unary htarget hoperator hfirst => exact .unary htarget.isName hoperator hfirst.isOperand
  | binary htarget hfirst hoperator hsecond =>
    exact .binary htarget.isName hfirst.isOperand hoperator hsecond.isOperand
  | jump hgoal => exact .jump hgoal.isName
  | branch hcondition hgoal => exact .branch hcondition.isOperand hgoal.isName
  | label hname => exact .label hname.isName
  | param hoperand hbreak => exact .param hoperand.isOperand hbreak
  | @format text body hbody hbreak =>
    exact .format hbody (hbody ▸ ⟨'\x22' :: body, '\x22', rfl, rfl⟩) hbreak
  | read htarget => exact .storedCall htarget.isName isWord_input.isName
  | print => exact .call isWord_printf.isName

/-- A text in which an instruction is found: it has no blanks at its ends, and nothing is left. -/
structure Holds (text : List Char) (instruction : Instruction) : Prop where
  begins : Begins text
  ends : Ends text
  scanned : scan text = some (instruction, [])

/-- A parameter is found in its text, which is no arrow. -/
theorem holds_param {operand : String} (hne : operand.toList ≠ []) (hends : Ends operand.toList)
    (hbreak : '\n' ∉ operand.toList) (harrow : arrow (' ' :: operand.toList) = none) :
    Holds (Instruction.param operand).text.toList (.param operand) := by
  have htext : (Instruction.param operand).text.toList =
      ['p', 'a', 'r', 'a', 'm', ' '] ++ operand.toList := by
    simp [Instruction.text]
  have hscan := scan_param hne hbreak harrow
  rw [String.ofList_toList] at hscan
  exact htext ▸ ⟨⟨_, _, rfl, rfl⟩, hends.append _, hscan⟩

/-- A proper instruction is found in its text. -/
theorem IsProper.holds (h : instruction.IsProper) : Holds instruction.text.toList instruction := by
  cases h with
  | @copy target first htarget hfirst =>
    have htext : (assign target (some first) none none).text.toList =
        target.toList ++ ([' ', '=', ' '] ++ first.toList) := by
      simp [Instruction.text, assignText, operandText]
    have hscan := scan_copy htarget hfirst
    simp only [String.ofList_toList] at hscan
    have hbegins := htarget.isOperand.begins_ends.1.append ([' ', '=', ' '] ++ first.toList)
    exact htext ▸ ⟨hbegins, (hfirst.begins_ends.2.append _).append _, hscan⟩
  | @unary target first operator htarget hoperator hfirst =>
    have htext : (assign target (some first) (some operator) none).text.toList =
        target.toList ++ ([' ', '=', ' '] ++ (operator.toList ++ ([' '] ++ first.toList))) := by
      simp [Instruction.text, assignText, operandText]
    have hscan := scan_unary htarget hoperator hfirst
    simp only [String.ofList_toList] at hscan
    have hbegins := htarget.isOperand.begins_ends.1.append
      ([' ', '=', ' '] ++ (operator.toList ++ ([' '] ++ first.toList)))
    have hends := (hfirst.begins_ends.2.append [' ']).append operator.toList
    exact htext ▸ ⟨hbegins, (hends.append _).append _, hscan⟩
  | @binary target first second operator htarget hfirst hoperator hsecond =>
    have htext : (assign target (some first) (some operator) (some second)).text.toList =
        target.toList ++ ([' ', '=', ' '] ++ (first.toList ++ ([' '] ++ (operator.toList ++
          ([' '] ++ second.toList))))) := by
      simp [Instruction.text, assignText, operandText]
    have hscan := scan_binary htarget hfirst hoperator hsecond
    simp only [String.ofList_toList] at hscan
    have hbegins := htarget.isOperand.begins_ends.1.append ([' ', '=', ' '] ++ (first.toList ++
      ([' '] ++ (operator.toList ++ ([' '] ++ second.toList)))))
    have hends := (((hsecond.begins_ends.2.append [' ']).append operator.toList).append
      [' ']).append first.toList
    exact htext ▸ ⟨hbegins, (hends.append _).append _, hscan⟩
  | @jump goal hgoal =>
    have htext : (Instruction.jump goal).text.toList =
        ['g', 'o', 't', 'o', ' '] ++ goal.toList := by
      simp [Instruction.text]
    have hscan := scan_jump hgoal
    rw [String.ofList_toList] at hscan
    exact htext ▸ ⟨⟨_, _, rfl, rfl⟩, hgoal.isOperand.begins_ends.2.append _, hscan⟩
  | @branch condition goal hcondition hgoal =>
    have htext : (Instruction.branch condition goal).text.toList = ['i', 'f', ' '] ++
        (condition.toList ++ ([' ', 'g', 'o', 't', 'o', ' '] ++ goal.toList)) := by
      simp [Instruction.text]
    have hscan := scan_branch hcondition hgoal
    simp only [String.ofList_toList] at hscan
    have hends := (hgoal.isOperand.begins_ends.2.append
      [' ', 'g', 'o', 't', 'o', ' ']).append condition.toList
    exact htext ▸ ⟨⟨_, _, rfl, rfl⟩, hends.append _, hscan⟩
  | @label name hname =>
    have htext : (Instruction.label name).text.toList = name.toList ++ [':'] := by
      simp [Instruction.text]
    have hscan := scan_label hname
    rw [String.ofList_toList] at hscan
    exact htext ▸ ⟨hname.isOperand.begins_ends.1.append [':'], ⟨_, _, rfl, rfl⟩, hscan⟩
  | @param operand hoperand hbreak =>
    obtain ⟨⟨c, others, htext, -⟩, hends⟩ := hoperand.begins_ends
    refine holds_param (by simp [htext]) hends hbreak ?_
    cases harrow : arrow (' ' :: operand.toList) with
    | none => rfl
    | some result =>
      rw [← List.append_nil operand.toList] at harrow
      have hstop : ∀ c ∈ ([] : List Char).head?, Scanner.isBare c = false := nofun
      obtain ⟨-, hnil⟩ := eq_of_arrow hoperand hstop harrow
      cases hnil
  | @format text others htext hends hbreak =>
    refine holds_param (by simp [htext]) hends hbreak ?_
    rw [htext]
    exact arrow_eq_none fun _ heq => by cases heq
  | @call function count hfunction =>
    have hscan := scan_call hfunction count
    rw [String.ofList_toList, ← List.append_assoc] at hscan
    exact toList_callText function count ▸ ⟨⟨_, _, rfl, rfl⟩, ends_count _ count, hscan⟩
  | @storedCall function target count htarget hfunction =>
    have hscan := scan_storedCall htarget hfunction count
    simp only [String.ofList_toList] at hscan
    have hassoc : (target.toList ++ ([' ', '=', ' '] ++ (['c', 'a', 'l', 'l', ' '] ++
        function.toList))) ++ ([',', ' '] ++ (toString count).toList) =
        target.toList ++ ([' ', '=', ' '] ++ (['c', 'a', 'l', 'l', ' '] ++ (function.toList ++
          ([',', ' '] ++ (toString count).toList)))) := by
      simp only [List.append_assoc]
    rw [← hassoc] at hscan
    have hbegins := (htarget.isOperand.begins_ends.1.append ([' ', '=', ' '] ++
      (['c', 'a', 'l', 'l', ' '] ++ function.toList))).append
        ([',', ' '] ++ (toString count).toList)
    exact toList_storedCallText function count htarget ▸ ⟨hbegins, ends_count _ count, hscan⟩

/-! ## Single lines -/

/-- A line without blanks at its ends is read as what is found in it. -/
theorem Holds.ofLine? (h : Holds text instruction) : ofLine? text = some instruction := by
  rw [Instruction.ofLine?, trim_eq h.begins h.ends, h.scanned]
  rfl

/-- What is written can be read back. -/
theorem IsWritten.ofLine?_text (h : instruction.IsWritten bound) :
    Instruction.ofLine? instruction.text.toList = some instruction :=
  h.isProper.holds.ofLine?

/-- Whether an instruction counts so many parameters that their number is too long to be read. -/
def hasLongCount : Instruction → Bool
  | .call _ count _ => (leastLonger maxCountDigits : Int) ≤ count
  | _ => false

/-- The counts of calls that are too long to be read. -/
theorem hasLongCount_call {function : String} {count : Nat} {target : Option String} :
    (Instruction.call function count target).hasLongCount = true ↔
      leastLonger maxCountDigits ≤ count := by
  rw [hasLongCount, decide_eq_true_iff, Int.ofNat_le]

/-- The digits at the end of a call are those of its count. -/
theorem IsProper.trailingDigits_text {function : String} {count : Nat} {target : Option String}
    (h : (Instruction.call function count target).IsProper) :
    trailingDigits (Instruction.call function count target).text.toList =
      (toString count).toList.length := by
  have hdigits : ∀ c ∈ (toString count).toList, isDecimal c = true := fun c =>
    Scanner.isDecimal_of_mem_toString
  show trailingDigits (callText function count target).toList = _
  cases h with
  | call => rw [toList_callText, trailingDigits_append _ hdigits]
  | storedCall htarget =>
    rw [toList_storedCallText _ _ htarget, trailingDigits_append _ hdigits]

/-- A proper instruction is read back from its text, unless it counts too many parameters. -/
theorem IsProper.ofLine_text (h : instruction.IsProper) : ofLine instruction.text =
    if instruction.hasLongCount then .error .longCount else .ok instruction := by
  have hheld := h.holds
  rw [ofLine, hheld.ofLine?]
  cases instruction with
  | call function count target =>
    obtain ⟨count, rfl⟩ : ∃ number : Nat, count = number := by
      cases h with
      | call | storedCall => exact ⟨_, rfl⟩
    have hlong : maxCountDigits < (toString count).toList.length ↔
        (Instruction.call function count target).hasLongCount = true := by
      rw [← Nat.not_le, length_toString_le_iff (by simp [maxCountDigits]), Nat.not_lt,
        hasLongCount_call]
    simp only [trim_eq hheld.begins hheld.ends, IsProper.trailingDigits_text h, hlong]
  | _ => rfl

/-- An instruction is read back from its text, which is not blank, unless it counts too many
parameters. -/
def IsReadBack (bound : Nat) (instruction : Instruction) : Prop :=
  Begins instruction.text.toList ∧
    (ofLine instruction.text = .ok instruction ∨
      (ofLine instruction.text = .error .longCount ∧ leastLonger maxCountDigits ≤ bound))

/-- What is written is read back. -/
theorem IsWritten.isReadBack (h : instruction.IsWritten bound) :
    instruction.IsReadBack bound := by
  refine ⟨h.isProper.holds.begins, ?_⟩
  rw [h.isProper.ofLine_text]
  split
  · next hlong =>
    refine .inr ⟨rfl, ?_⟩
    cases h with
    | print hle => exact Nat.le_trans (hasLongCount_call.1 hlong) hle
    | read =>
      have hle : leastLonger maxCountDigits ≤ 0 := hasLongCount_call.1 hlong
      exact absurd hle (Nat.not_le.2 (leastLonger_pos _))
    | _ => cases hlong
  · exact .inl rfl

/-- What is written has no number that is too long, unless it is a print. -/
theorem IsWritten.print_or (h : instruction.IsWritten bound) :
    instruction.IsWritten 0 ∨ ∃ count : Nat, instruction = .call "printf" count none := by
  cases h with
  | copy htarget hfirst => exact .inl (.copy htarget hfirst)
  | unary htarget hoperator hfirst => exact .inl (.unary htarget hoperator hfirst)
  | binary htarget hfirst hoperator hsecond =>
    exact .inl (.binary htarget hfirst hoperator hsecond)
  | jump hgoal => exact .inl (.jump hgoal)
  | branch hcondition hgoal => exact .inl (.branch hcondition hgoal)
  | label hname => exact .inl (.label hname)
  | param hoperand hbreak => exact .inl (.param hoperand hbreak)
  | format hbody hbreak => exact .inl (.format hbody hbreak)
  | read htarget => exact .inl (.read htarget)
  | print => exact .inr ⟨_, rfl⟩

/-- What is no print is read back. -/
theorem IsWritten.ofLine_eq (h : instruction.IsWritten 0) :
    ofLine instruction.text = .ok instruction :=
  h.isReadBack.2.resolve_right fun hlong => Nat.not_le.2 (leastLonger_pos _) hlong.2

/-- What is read from a line is what the line writes. -/
theorem ofLine?_of_ofLine {line : String} (h : ofLine line = .ok instruction) :
    ofLine? line.toList = some instruction := by
  rw [ofLine] at h
  split at h
  · next hfound =>
    split at h
    · cases h
    · cases h
      exact hfound
  · next hfound =>
    cases h
    exact hfound
  · cases h

end Instruction

/-! ## All lines -/

namespace CUnit

/-- A line that is not blank is read before the others. -/
theorem readLines_cons {line : String} (h : Begins line.toList) (lines : List String) :
    readLines (line :: lines) = do
      let instruction ← Instruction.ofLine line
      let instructions ← readLines lines
      return instruction :: instructions := by
  have hkept : (line :: lines).filter (fun line => !isBlankText line.toList) =
      line :: lines.filter fun line => !isBlankText line.toList :=
    List.filter_cons_of_pos (by rw [isBlankText_of_begins h, Bool.not_false])
  rw [readLines, hkept, List.mapM_cons]
  rfl

/-- Code is read back from its lines, unless a call counts too many parameters. -/
theorem readLines_text {code : List Instruction} {bound : Nat}
    (h : ∀ instruction ∈ code, instruction.IsWritten bound) :
    readLines (code.map (·.text)) = .ok code ∨
      (readLines (code.map (·.text)) = .error .longCount ∧
        Instruction.leastLonger Instruction.maxCountDigits ≤ bound) := by
  induction code with
  | nil => exact .inl rfl
  | cons instruction code ih =>
    obtain ⟨hinstruction, hcode⟩ := List.forall_mem_cons.1 h
    obtain ⟨hbegins, hline⟩ := hinstruction.isReadBack
    rw [List.map_cons, readLines_cons hbegins]
    rcases hline with hline | ⟨hline, hbound⟩
    · rcases ih hcode with hcode | ⟨hcode, hbound⟩
      · rw [hline, hcode]
        exact .inl rfl
      · rw [hline, hcode]
        exact .inr ⟨rfl, hbound⟩
    · rw [hline]
      exact .inr ⟨rfl, hbound⟩

/-- Code that is read back from its lines is so line by line. -/
theorem ofLine_of_readLines {code : List Instruction} {bound : Nat}
    (h : ∀ instruction ∈ code, instruction.IsWritten bound)
    (hread : readLines (code.map (·.text)) = .ok code) :
    ∀ instruction ∈ code, Instruction.ofLine instruction.text = .ok instruction := by
  induction code with
  | nil => nofun
  | cons instruction code ih =>
    obtain ⟨hinstruction, hcode⟩ := List.forall_mem_cons.1 h
    rw [List.map_cons, readLines_cons hinstruction.isReadBack.1] at hread
    obtain ⟨found, hline, hread⟩ := Sequence.except_bind_ok.1 hread
    obtain ⟨others, hlines, heq⟩ := Sequence.except_bind_ok.1 hread
    cases heq
    exact List.forall_mem_cons.2 ⟨hline, ih hcode hlines⟩

/-- Code is read back from its lines iff it is so line by line. -/
theorem readLines_iff {code : List Instruction} {bound : Nat}
    (h : ∀ instruction ∈ code, instruction.IsWritten bound) :
    readLines (code.map (·.text)) = .ok code ↔
      ∀ instruction ∈ code, Instruction.ofLine instruction.text = .ok instruction := by
  refine ⟨ofLine_of_readLines h, fun hlines => ?_⟩
  induction code with
  | nil => rfl
  | cons instruction code ih =>
    obtain ⟨hinstruction, hcode⟩ := List.forall_mem_cons.1 h
    obtain ⟨hline, hothers⟩ := List.forall_mem_cons.1 hlines
    rw [List.map_cons, readLines_cons hinstruction.isReadBack.1, hline, ih hcode hothers]
    rfl

end CUnit

end ThreeAddress
