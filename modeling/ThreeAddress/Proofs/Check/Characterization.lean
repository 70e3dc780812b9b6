import ThreeAddress.Proofs.Check.Acceptance
import ThreeAddress.Proofs.Grammar.Sources

/-!
# What the checker accepts

The checker accepts a program iff it is well-typed (`Tree.checkProgram_ok_iff`), as far as the
nesting leaves it to decide. The types of the names do not have to be guessed: those in the last
table are such types, and a name that has a value has the same in all of them.
-/

namespace ThreeAddress

open Sequence Check

namespace Table

variable {table : Table}

/-- The types of names in a table. A name without one may have any. -/
def typeOf (table : Table) (name : String) : DataType :=
  match table.find? name with
  | some entry => if entry.type = .unknown then .int else entry.type
  | none => .int

/-- The types that a table knows are among the types of its names. -/
theorem holds_typeOf (table : Table) : table.Holds table.typeOf := by
  intro name entry hfind hknown
  rw [typeOf, hfind]
  exact (if_neg hknown).symm

/-- The types of the names in a plain table can be stored. -/
theorem IsPlain.storable_typeOf (h : table.IsPlain) (name : String) :
    (table.typeOf name).isStorable = true := by
  rw [typeOf]
  split
  · next entry hfind =>
    split
    · rfl
    · next hknown => exact h.isStorable hfind hknown
  · rfl

/-- The empty table has no types in it at all. -/
theorem isPlain_empty : empty.IsPlain := nofun

end Table

namespace Tree

variable {types : String → DataType} {tree : Tree} {nodes : List Node} {after : Table}

/-- What is checked is well-typed, with the types of the last table. -/
theorem Checks.isWellTyped (h : tree.Checks .empty nodes after) :
    tree.IsWellTyped after.typeOf where
  ordered := (h.records .empty).ordered
  storable := (h.typed Table.isPlain_empty).1.storable_typeOf
  agrees := h.agrees (Table.holds_typeOf after)

/-- The type that the last table has for a name with a value is the one that the name has to
have. -/
theorem Checks.type_eq (h : tree.Checks .empty nodes after) (hagrees : tree.Agrees types)
    {name : String} (hname : name ∈ tree.mentions.filterMap Mention.assigned?) :
    ∃ entry, after.find? name = some entry ∧ entry.type = types name := by
  obtain ⟨entry, hfind, hknown⟩ := (h.records .empty).known_iff.1 hname
  exact ⟨entry, hfind, h.holds Table.holds_empty hagrees name entry hfind hknown⟩

/-- A well-typed program is checked, or the budget is used up. -/
theorem IsWellTyped.passes (h : tree.IsWellTyped types) (hderives : tree.Derives .program)
    (budget : Nat) : Passes tree.spelling.length budget (tree.checkProgram budget) {}
      fun _ after => ∃ items, tree.Checks .empty items after.table := by
  obtain ⟨statements, line, rfl, hstatements⟩ := hderives.isAccepted
  cases budget with
  | zero => exact check_zero_passes _
  | succ budget =>
    have hready : (block statements line).IsReady types [] .empty :=
      ⟨Table.holds_empty, .empty, h.ordered, h.agrees⟩
    rw [checkProgram, check]
    refine EndsOr.get ?_
    refine (deeper_ends (hstatements budget _ types [] (Nat.succ_ne_zero _) hready)).bind ?_
    rintro items _ ⟨last, ⟨-, hitems⟩, rfl⟩
    exact .pure ⟨items, hitems⟩

/-- The checker accepts the well-typed programs and no others, unless it stops because of the
nesting; and with a budget above the number of tokens it never stops at a well-typed one. The last
table has for each name with a value the type that the name has to have. -/
theorem checkProgram_ok_iff {readBudget checkBudget : Nat} {tokens : List Token}
    (hspelled : ∀ token ∈ tokens, token.IsSpelled)
    (hread : ofTokens readBudget tokens = .ok tree) :
    ((∃ root state, tree.checkProgram checkBudget {} = .ok root state) ↔
      (∃ types, tree.IsWellTyped types) ∧
        ∀ state, tree.checkProgram checkBudget {} ≠ .error .tooDeep state) ∧
    ((∃ types, tree.IsWellTyped types) → tokens.length < checkBudget →
      ∃ root state, tree.checkProgram checkBudget {} = .ok root state) ∧
    ∀ root state types, tree.checkProgram checkBudget {} = .ok root state →
      tree.IsWellTyped types → ∀ name ∈ tree.mentions.filterMap Mention.assigned?,
        ∃ entry, state.table.find? name = some entry ∧ entry.type = types name := by
  obtain ⟨hderives, htokens⟩ := derives_of_ofTokens hspelled hread
  have hlength := htokens.length_le
  rw [List.length_map] at hlength
  have hchecks {root : Node} {state : CheckState}
      (hrun : tree.checkProgram checkBudget {} = .ok root state) :
      ∃ items, tree.Checks .empty items state.table := by
    obtain ⟨statements, line, rfl, hends⟩ := hderives.checkProgram_ends checkBudget .empty
    obtain ⟨items, -, hitems⟩ := hends.of_ok hrun
    exact ⟨items, hitems⟩
  refine ⟨⟨?_, ?_⟩, ?_, ?_⟩
  · rintro ⟨root, state, hrun⟩
    obtain ⟨items, hitems⟩ := hchecks hrun
    exact ⟨⟨_, hitems.isWellTyped⟩, by simp [hrun]⟩
  · rintro ⟨⟨types, hwell⟩, hnesting⟩
    rcases hwell.passes hderives checkBudget with ⟨root, state, hrun, -⟩ | ⟨_, state, hrun, rfl, -⟩
    · exact ⟨root, state, hrun⟩
    · exact absurd hrun (hnesting state)
  · rintro ⟨types, hwell⟩ hbudget
    rcases hwell.passes hderives checkBudget with ⟨root, state, hrun, -⟩ | ⟨_, _, -, -, hle⟩
    · exact ⟨root, state, hrun⟩
    · omega
  · intro root state types hrun hwell name hname
    obtain ⟨items, hitems⟩ := hchecks hrun
    exact hitems.type_eq hwell.agrees hname

/-- A name that gets its type in a body, and is used behind it. -/
theorem checkProgram_ok_iff_body : ∃ tree, ∃ types : String → DataType,
    ofTokens 16 (tokenize "let mut x; while true \x7b x = 0.5; \x7d; output \"%f\", x;") =
      .ok tree ∧ types "x" = .float ∧ tree.IsWellTyped types := by
  let tree := block [letMutable "x" absent 1, loop (literal .boolLit "true" 1)
    (block [assignment "x" (literal .floatLit "0.5" 1) 1] 1) 1, output "\"%f\"" [var "x" 1] 1] 1
  have htokens : tokenize "let mut x; while true \x7b x = 0.5; \x7d; output \"%f\", x;" =
      [⟨.kwLet, "let", 1⟩, ⟨.kwMut, "mut", 1⟩, ⟨.ident, "x", 1⟩, ⟨.semicolon, ";", 1⟩,
        ⟨.kwWhile, "while", 1⟩, ⟨.boolLit, "true", 1⟩, ⟨.lbrace, "\x7b", 1⟩, ⟨.ident, "x", 1⟩,
        ⟨.assign, "=", 1⟩, ⟨.floatLit, "0.5", 1⟩, ⟨.semicolon, ";", 1⟩, ⟨.rbrace, "\x7d", 1⟩,
        ⟨.semicolon, ";", 1⟩, ⟨.kwOutput, "output", 1⟩, ⟨.stringLit, "\"%f\"", 1⟩,
        ⟨.comma, ",", 1⟩, ⟨.ident, "x", 1⟩, ⟨.semicolon, ";", 1⟩,
        ⟨.endOfFile, "end of file", 1⟩] := by decide +kernel
  have hread : ofTokens 16
      (tokenize "let mut x; while true \x7b x = 0.5; \x7d; output \"%f\", x;") = .ok tree := by
    rw [htokens]
    rfl
  have hrun : tree.checkProgram 5 {} =
      .ok (.program [.loop (.literal "true" ⟨some 1, .bool⟩)
          (.block [.assignment "x" (.literal "0.5" ⟨some 1, .float⟩) false ⟨some 1, .void⟩]
            ⟨some 1, .void⟩) ⟨some 1, .void⟩,
          .output (.format "\"%f\"" ⟨some 1, .string⟩) [.var "x" ⟨some 1, .float⟩]
            ⟨some 1, .void⟩] ⟨some 1, .void⟩)
        ⟨⟨[⟨"x", .float, true, false⟩], by simp⟩, 0, 4⟩ := rfl
  obtain ⟨hiff, -, htable⟩ := checkProgram_ok_iff (fun _ => isSpelled_of_mem_tokenize) hread
  obtain ⟨⟨types, hwell⟩, -⟩ := hiff.1 ⟨_, _, hrun⟩
  obtain ⟨entry, hfind, htype⟩ := htable _ _ types hrun hwell "x" (by decide)
  refine ⟨tree, types, hread, htype ▸ ?_, hwell⟩
  rw [List.mem_singleton.1 (Table.mem_of_find? hfind).1]

end Tree

end ThreeAddress
