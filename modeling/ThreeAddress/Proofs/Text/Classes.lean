import ThreeAddress.Text.Blank
import ThreeAddress.Text.Word

/-!
# Classes of characters

How the classes that tokens and instructions are made of lie to each other. Classes are lists of
ranges, so that two of them are disjoint is a comparison of their ranges.
-/

namespace ThreeAddress.Text

variable {c : Char} {first second : Ranges}

/-- A character is in a class iff one of its ranges holds it. -/
theorem Ranges.contains_iff :
    first.contains c = true ↔ ∃ range ∈ first, range.1 ≤ c.toNat ∧ c.toNat ≤ range.2 := by
  simp [Ranges.contains]

/-- A character in a class is not in a class that is disjoint from it. -/
theorem Ranges.contains_eq_false (h : first.contains c = true)
    (hdisjoint : ∀ range ∈ first, ∀ other ∈ second, range.2 < other.1 ∨ other.2 < range.1) :
    second.contains c = false := by
  obtain ⟨range, hrange, hlower, hupper⟩ := contains_iff.1 h
  rw [Bool.eq_false_iff]
  intro hcontains
  obtain ⟨other, hother, hlower', hupper'⟩ := contains_iff.1 hcontains
  have := hdisjoint range hrange other hother
  omega

/-- Digits are those of the two lists. -/
theorem contains_of_isDigit (h : isDigit c = true) :
    (decimalRanges ++ otherDigitRanges).contains c = true := by
  rw [Ranges.contains, List.any_append]
  exact h

/-- The characters that start names lie between the letters of ASCII. -/
theorem contains_of_isNameStart (h : isNameStart c = true) :
    Ranges.contains [(0x41, 0x7a)] c = true := by
  simp only [isNameStart, Bool.or_eq_true, Bool.and_eq_true, beq_iff_eq, decide_eq_true_eq,
    Char.le_def, UInt32.le_iff_toNat_le] at h
  refine Ranges.contains_iff.2 ⟨_, .head _, ?_⟩
  rcases h with (rfl | h) | h
  · decide
  · exact ⟨Nat.le_trans (by decide) h.1, h.2⟩
  · exact ⟨h.1, Nat.le_trans h.2 (by decide)⟩

/-- A digit starts no name. -/
theorem isNameStart_of_isDigit (h : isDigit c = true) : isNameStart c = false := by
  rw [Bool.eq_false_iff]
  intro hstart
  have hnot := (contains_of_isDigit h).symm.trans
    (Ranges.contains_eq_false (contains_of_isNameStart hstart) (by decide))
  cases hnot

/-- A digit is not blank. -/
theorem isBlank_of_isDigit (h : isDigit c = true) : isBlank c = false :=
  Ranges.contains_eq_false (contains_of_isDigit h) (by decide)

/-- The start of a name is not blank. -/
theorem isBlank_of_isNameStart (h : isNameStart c = true) : isBlank c = false :=
  Ranges.contains_eq_false (contains_of_isNameStart h) (by decide)

/-- What may start a name may also stand inside it. -/
theorem isWordChar_of_isNameStart (h : isNameStart c = true) : isWordChar c = true := by
  simp only [isNameStart, Bool.or_eq_true, Bool.and_eq_true, beq_iff_eq, decide_eq_true_eq,
    Char.le_def, UInt32.le_iff_toNat_le] at h
  rw [isWordChar, Bool.or_eq_true, Bool.or_eq_true, beq_iff_eq]
  rcases h with (h | h) | h
  · exact .inl (.inl h)
  · exact .inr (Ranges.contains_iff.2 ⟨(0x61, 0x7a), .tail _ (.head _), h⟩)
  · exact .inr (Ranges.contains_iff.2 ⟨(0x41, 0x5a), .head _, h⟩)

/-- A word character is not blank. -/
theorem isBlank_of_isWordChar (h : isWordChar c = true) : isBlank c = false := by
  rw [isWordChar, Bool.or_eq_true, Bool.or_eq_true, beq_iff_eq] at h
  rcases h with (rfl | h) | h
  · rfl
  · exact isBlank_of_isDigit h
  · exact Ranges.contains_eq_false h (by decide +kernel)

end ThreeAddress.Text
