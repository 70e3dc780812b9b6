import ThreeAddress.Proofs.Text.Breaks
import ThreeAddress.Proofs.Token.Partition

/-!
# The lines of tokens

A token stands on the line that it has been cut out of, and there are eleven ways to end a line. The
end token stands behind the line feeds, which are only one of them. So the lines of tokens never go
back before the end token, and at the end token they do wherever a token stands behind more breaks
than there are line feeds (`tokenize_lines`).
-/

namespace ThreeAddress

open Text

/-- Every line break is a line feed, or a carriage return in front of one. -/
def BreaksAtFeeds : List Char → Prop
  | [] => True
  | c :: rest =>
    (isLineBreak c = true → c = '\n' ∨ c = '\r' ∧ rest.head? = some '\n') ∧ BreaksAtFeeds rest

instance BreaksAtFeeds.decidable : (text : List Char) → Decidable (BreaksAtFeeds text)
  | [] => inferInstanceAs (Decidable True)
  | _ :: rest =>
    have := decidable rest
    inferInstanceAs (Decidable (_ ∧ _))

/-- Where all lines end at line feeds, there is at most one line more than line feeds. -/
theorem BreaksAtFeeds.length_le {text : List Char} (h : BreaksAtFeeds text) :
    (splitLines text).length ≤ text.count '\n' + 1 := by
  induction text using splitLines.induct with
  | case1 => exact Nat.zero_le 1
  | case2 rest ih =>
    rw [splitLines, List.length_cons, List.count_cons_of_ne (by decide), List.count_cons_self]
    exact Nat.succ_le_succ (ih h.2.2)
  | case3 c rest hpair hbreak ih =>
    rcases h.1 hbreak with rfl | ⟨rfl, hfeed⟩
    · rw [splitLines_feed, List.length_cons, List.count_cons_self]
      exact Nat.succ_le_succ (ih h.2)
    · obtain ⟨others, rfl⟩ := List.head?_eq_some_iff.1 hfeed
      exact (hpair others rfl rfl).elim
  | case4 c rest hpair hbreak ih =>
    have hrest := ih h.2
    have hfeed : c ≠ '\n' := by
      rintro rfl
      exact hbreak rfl
    rw [splitLines_cons (by simpa using hbreak), List.count_cons_of_ne hfeed]
    cases hlines : splitLines rest with
    | nil => exact Nat.succ_le_succ (Nat.zero_le _)
    | cons first others =>
      rw [hlines] at hrest
      exact hrest

/-- The tokens of lines stand on these lines in their order. -/
theorem scanLines_ordered (line : Line) (texts : List (List Char)) :
    (scanLines line texts).Pairwise (·.line ≤ ·.line) := by
  induction texts generalizing line with
  | nil => exact .nil
  | cons text texts ih =>
    rw [scanLines, List.pairwise_append]
    refine ⟨List.pairwise_of_forall_mem_list fun first hfirst second hsecond => ?_, ih _,
      fun first hfirst second hsecond => ?_⟩
    · exact Int.le_of_eq
        ((line_of_mem_scanLine hfirst).trans (line_of_mem_scanLine hsecond).symm)
    · rw [line_of_mem_scanLine hfirst]
      have hlater := (line_of_mem_scanLines hsecond).1
      dsimp only [Line] at *
      omega

/-- No token stands behind a line iff none of the lines behind it has one. -/
theorem line_le_iff {texts : List (List Char)} {count : Nat} :
    (∀ token ∈ scanLines 1 texts, token.line ≤ (count + 1 : Line)) ↔
      ∀ (index : Nat) (text : List Char), texts[index]? = some text → count < index →
        CutsInto (index + 1) text [] := by
  constructor
  · intro hall index text htext hindex
    rw [cutsInto_iff, eq_comm, List.eq_nil_iff_forall_not_mem]
    intro token hmem
    rw [Int.add_comm] at hmem
    have hline := hall token (mem_scanLines_iff.2 ⟨index, text, htext, hmem⟩)
    rw [line_of_mem_scanLine hmem] at hline
    dsimp only [Line] at hline
    omega
  · intro hbare token hmem
    obtain ⟨index, text, htext, hmem⟩ := mem_scanLines_iff.1 hmem
    rw [line_of_mem_scanLine hmem]
    by_contra hbehind
    have hcut := hbare index text htext (by dsimp only [Line] at hbehind; omega)
    rw [cutsInto_iff, Int.add_comm] at hcut
    rw [← hcut] at hmem
    cases hmem

/-- The lines of all tokens are in order iff no token stands behind the end token. -/
theorem tokenize_ordered_iff {source : String} :
    (tokenize source).Pairwise (·.line ≤ ·.line) ↔
      ∀ token ∈ scanLines 1 (splitLines source.toList),
        token.line ≤ (source.toList.count '\n' + 1 : Line) := by
  have hordered := scanLines_ordered 1 (splitLines source.toList)
  simp [tokenize, List.pairwise_append, hordered, endToken]

/-- Before the end token, the lines of tokens never go back. At the end token they do not either iff
there is no token on any line with more breaks in front of it than the text has line feeds. That is
so in every text that ends its lines at line feeds. -/
theorem tokenize_lines (source : String) :
    (tokenize source).dropLast.Pairwise (·.line ≤ ·.line) ∧
    ((tokenize source).Pairwise (·.line ≤ ·.line) ↔
      ∀ (index : Nat) (text : List Char), (splitLines source.toList)[index]? = some text →
        source.toList.count '\n' < index → CutsInto (index + 1) text []) ∧
    (BreaksAtFeeds source.toList → (tokenize source).Pairwise (·.line ≤ ·.line)) := by
  refine ⟨?_, tokenize_ordered_iff.trans line_le_iff, fun hfeeds => ?_⟩
  · rw [tokenize, List.dropLast_concat]
    exact scanLines_ordered 1 _
  · rw [tokenize_ordered_iff]
    intro token hmem
    have hline := (line_of_mem_scanLines hmem).2
    have hlength := hfeeds.length_le
    dsimp only [Line] at *
    omega

/-- Behind a carriage return there may be a comment, and a line feed. -/
theorem tokenize_lines_comment :
    (¬BreaksAtFeeds "a\r// b".toList ∧ (tokenize "a\r// b").Pairwise (·.line ≤ ·.line)) ∧
      BreaksAtFeeds "a\r\nb".toList ∧ (tokenize "a\r\nb").Pairwise (·.line ≤ ·.line) := by
  have hlines : splitLines "a\r// b".toList = [['a'], ['/', '/', ' ', 'b']] := by decide +kernel
  have hbare : ∀ (index : Nat) (text : List Char),
      (splitLines "a\r// b".toList)[index]? = some text →
        "a\r// b".toList.count '\n' < index → CutsInto (index + 1) text [] := by
    rw [hlines]
    rintro (_ | _ | index) text htext hindex
    · cases hindex
    · cases htext
      exact .comment isGap_nil ⟨[' ', 'b'], rfl⟩
    · cases htext
  have hfeeds : BreaksAtFeeds "a\r\nb".toList := by decide +kernel
  exact ⟨⟨by decide +kernel, (tokenize_lines "a\r// b").2.1.2 hbare⟩, hfeeds,
    (tokenize_lines "a\r\nb").2.2 hfeeds⟩

/-- A carriage return alone ends a line, and there is no line feed. -/
theorem tokenize_lines_return : ¬(tokenize "a\rb").Pairwise (·.line ≤ ·.line) := by
  decide +kernel

end ThreeAddress
