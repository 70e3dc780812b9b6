import ThreeAddress.Proofs.Text.Classes
import ThreeAddress.Text.Lines

/-!
# Texts without line breaks

A text that holds no line break is one line. Texts that are written one line each are found again
when what has been written is cut into lines (`splitLines_intercalate`, `splitLines_join`).
-/

namespace ThreeAddress.Text

/-- A text without line breaks. -/
def IsUnbroken (text : String) : Prop := ∀ c ∈ text.toList, isLineBreak c = false

instance (text : String) : Decidable (IsUnbroken text) :=
  List.decidableBAll (isLineBreak · = false) text.toList

/-- Two texts without line breaks are one. -/
@[simp] theorem isUnbroken_append {first second : String} :
    IsUnbroken (first ++ second) ↔ IsUnbroken first ∧ IsUnbroken second := by
  rw [IsUnbroken, String.toList_append, List.forall_mem_append]
  rfl

variable {c : Char}

/-- A line break is a blank. -/
theorem isBlank_of_isLineBreak (h : isLineBreak c = true) : isBlank c = true := by
  simp only [isLineBreak, Bool.or_eq_true, Bool.and_eq_true, beq_iff_eq, decide_eq_true_eq,
    Char.le_def, UInt32.le_iff_toNat_le] at h
  rcases h with (((h | h) | rfl) | rfl) | rfl
  · exact Ranges.contains_iff.2 ⟨(0x9, 0xd), .head _, Nat.le_trans (by decide) h.1, h.2⟩
  · exact Ranges.contains_iff.2
      ⟨(0x1c, 0x20), .tail _ (.head _), h.1, Nat.le_trans h.2 (by decide)⟩
  · decide
  · decide
  · decide

/-- What is not blank breaks no line. -/
theorem isLineBreak_of_isBlank (h : isBlank c = false) : isLineBreak c = false := by
  rw [Bool.eq_false_iff]
  intro hbreak
  rw [isBlank_of_isLineBreak hbreak] at h
  cases h

/-! ## Cutting what has been joined -/

variable {line rest : List Char}

/-- A line feed ends a line. -/
theorem splitLines_feed (rest : List Char) : splitLines ('\n' :: rest) = [] :: splitLines rest := by
  rw [splitLines, if_pos (show isLineBreak '\n' = true from rfl)]
  nofun

/-- A character that breaks no line stands in front of the first line of what follows it. -/
theorem splitLines_cons (h : isLineBreak c = false) (rest : List Char) :
    splitLines (c :: rest) = consLine c (splitLines rest) := by
  rw [splitLines, h]
  · rfl
  · rintro _ rfl
    cases h

/-- A text without line breaks stands in front of the first line of what follows it. -/
theorem splitLines_append (h : ∀ c ∈ line, isLineBreak c = false) (rest : List Char) :
    splitLines (line ++ rest) = line.foldr consLine (splitLines rest) := by
  induction line with
  | nil => rfl
  | cons c line ih =>
    obtain ⟨hc, hline⟩ := List.forall_mem_cons.1 h
    rw [List.cons_append, splitLines_cons hc, ih hline, List.foldr_cons]

/-- Where there is a first line, a text in front of it makes it longer. -/
theorem foldr_consLine_cons (line first : List Char) (others : List (List Char)) :
    line.foldr consLine (first :: others) = (line ++ first) :: others := by
  induction line with
  | nil => rfl
  | cons c line ih =>
    rw [List.foldr_cons, ih]
    rfl

/-- Where there is no line, a text that is not empty becomes one. -/
theorem foldr_consLine_nil (hne : line ≠ []) : line.foldr consLine [] = [line] := by
  rw [← List.dropLast_concat_getLast hne, List.foldr_append]
  exact foldr_consLine_cons _ _ _

/-- A line and the text behind its line feed. -/
theorem splitLines_append_feed (h : ∀ c ∈ line, isLineBreak c = false) (rest : List Char) :
    splitLines (line ++ '\n' :: rest) = line :: splitLines rest := by
  rw [splitLines_append h, splitLines_feed, foldr_consLine_cons, List.append_nil]

/-- A line that is not empty. -/
theorem splitLines_line (hne : line ≠ []) (h : ∀ c ∈ line, isLineBreak c = false) :
    splitLines line = [line] := by
  rw [← line.append_nil, splitLines_append h, List.append_nil]
  exact foldr_consLine_nil hne

/-- Lines that have been joined by line feeds are found again. -/
theorem splitLines_intercalate {lines : List String} (hne : ∀ line ∈ lines, line ≠ "")
    (h : ∀ line ∈ lines, IsUnbroken line) :
    splitLines ("\n".intercalate lines).toList = lines.map String.toList := by
  induction lines with
  | nil => rfl
  | cons line lines ih =>
    obtain ⟨hneLine, hneLines⟩ := List.forall_mem_cons.1 hne
    obtain ⟨hline, hlines⟩ := List.forall_mem_cons.1 h
    have hrest := ih hneLines hlines
    rw [String.toList_intercalate] at hrest ⊢
    cases lines with
    | nil =>
      rw [List.map_singleton, List.intercalate_singleton]
      exact splitLines_line (by simpa using hneLine) hline
    | cons next lines =>
      rw [List.map_cons, List.map_cons, List.intercalate_cons_cons, List.append_assoc]
      rw [List.map_cons] at hrest
      exact (splitLines_append_feed hline _).trans (congrArg _ hrest)

/-- Lines that have been written with a line feed behind each are found again. -/
theorem splitLines_join {lines : List String} (h : ∀ line ∈ lines, IsUnbroken line) :
    splitLines (String.join (lines.map (· ++ "\n"))).toList = lines.map String.toList := by
  induction lines with
  | nil => rfl
  | cons line lines ih =>
    obtain ⟨hline, hlines⟩ := List.forall_mem_cons.1 h
    rw [List.map_cons, String.join_cons, String.toList_append, String.toList_append,
      List.append_assoc]
    exact (splitLines_append_feed hline _).trans (congrArg _ (ih hlines))

/-- Where there is no carriage return, every line end is a line feed already. -/
theorem unifyLineEnds_of_notMem {text : List Char} (h : '\r' ∉ text) :
    unifyLineEnds text = text := by
  induction text with
  | nil => rfl
  | cons c text ih =>
    rw [List.mem_cons, not_or] at h
    rw [unifyLineEnds, ih h.2]
    · rintro _ rfl
      exact absurd rfl h.1
    · rintro rfl
      exact h.1 rfl

end ThreeAddress.Text
