import ThreeAddress.Proofs.Check.Parentheses
import ThreeAddress.Proofs.Compilation.Layout

/-!
# Redundant parentheses do not matter

How the expressions of a program are parenthesised goes into the checked tree and nowhere else. A
source that is accepted may have every expression written in full, with every operator in
parentheses of its own, and is compiled to the same code with the same table and the same C text
(`compile_parentheses`). Only the nesting can be in the way, where the budgets do not allow as many
tokens.
-/

namespace ThreeAddress

open Sequence

/-- An error that says that something is nested too deeply. -/
def CompileError.IsNesting : CompileError → Prop
  | grammar (.tooDeep _ _) | check .tooDeep | lower .tooDeep => True
  | _ => False

/-! ## Tokens with given texts -/

/-- A source with the texts of a tree and an end has the tokens of the tree and an end token. -/
theorem Tree.IsProper.exists_read {tree : Tree} (h : tree.IsProper) {source : String}
    (htexts : (tokenize source).map Token.lexeme = tree.texts ++ ["end of file"]) :
    ∃ read last, tokenize source = read ++ [last] ∧ read.map Token.piece = tree.spelling ∧
      last.kind = .endOfFile := by
  refine ⟨_, _, rfl, ?_, rfl⟩
  rw [tokenize, List.map_append] at htexts
  obtain ⟨hread, -⟩ := List.append_inj' htexts rfl
  refine Piece.eq_of_texts ?_ ?_ ?_
  · exact List.forall_mem_map.2 fun token htoken =>
      Piece.isTold_of_mem_tokenize (List.mem_append_left _ htoken)
  · intro piece hpiece
    obtain ⟨-, -, other, token, htoken, rfl⟩ := h piece hpiece
    exact Piece.isTold_of_mem_tokenize htoken
  · rw [List.map_map]
    exact hread

/-- The tokens of a proper tree can be written apart. -/
theorem Tree.IsProper.exists_source {tree : Tree} (h : tree.IsProper) :
    ∃ source, (tokenize source).map Token.lexeme = tree.texts ++ ["end of file"] := by
  let separators := List.replicate (tree.spelling.length - 1) " "
  have hseparators : ∀ separator ∈ separators, IsSeparator separator := by
    intro separator hmem
    rw [List.eq_of_mem_replicate hmem]
    decide
  refine ⟨printed tree.spelling separators, ?_⟩
  rw [tokenize, List.map_append, scanLines_printed h hseparators List.length_replicate]
  refine congrArg (· ++ ["end of file"]) (List.ext_getElem? fun index => ?_)
  rw [List.getElem?_map, List.getElem?_mapIdx, Tree.texts, List.getElem?_map, Option.map_map]
  rfl

/-- The tree of a source is proper. -/
theorem Tree.isProper_of_ofSource {concurrent : Bool} {budget : Nat} {source : String} {tree : Tree}
    (h : ofSource concurrent budget source = .ok tree) : tree.IsProper := by
  obtain ⟨hderives, hcut⟩ := derives_of_ofSource h
  intro piece hpiece
  obtain ⟨hvalid, hend⟩ := hderives.proper piece hpiece
  obtain ⟨hlexeme, hunbroken⟩ := hcut.lexemes piece hpiece
  exact Piece.isProper_iff.2 ⟨hlexeme.admits hvalid hend, hunbroken⟩

/-! ## Trees that are equal up to lines -/

variable {budgets : Budgets} {request : Request} {source : String} {tree : Tree}
  {compilation : Compilation}

/-- Two compilations that are equal up to the lines of their checked trees. -/
structure Compilation.IsEqualUnlined (compilation other : Compilation) : Prop where
  root : other.root.unlined = compilation.root.unlined
  table : other.table = compilation.table
  lines : other.lines = compilation.lines
  c : other.c = compilation.c

/-- Checked trees that are equal up to lines are compiled alike. -/
theorem compileRoot_unlined {root other : Node} {table : Table}
    (hsame : other.unlined = root.unlined)
    (h : compileRoot budgets request root table = .ok compilation) :
    ∃ compilation', compileRoot budgets request other table = .ok compilation' ∧
      compilation.IsEqualUnlined compilation' := by
  have hother := @compileRoot_reline (fun _ => 0) budgets request other table
  have hroot := @compileRoot_reline (fun _ => 0) budgets request root table
  change other.reline _ = root.reline _ at hsame
  rw [hsame, hroot, h] at hother
  cases hcompile : compileRoot budgets request other table with
  | error error =>
    rw [hcompile] at hother
    cases hother
  | ok compilation' =>
    rw [hcompile] at hother
    have heq := Except.ok.inj hother.symm
    exact ⟨compilation', rfl, congrArg (·.root) heq, congrArg (·.table) heq,
      congrArg (·.lines) heq, congrArg (·.c) heq⟩

/-- The tokens of a checked program in full are compiled alike, unless there are too many of them
for the budgets. -/
theorem Tree.IsRewritten.compileTokens {full : Tree} {items : List Node} {table : Table}
    {line : Line} {read : List Token} {last : Token}
    (h : IsRewritten .program tree .empty items table full)
    (hspelled : ∀ token ∈ read ++ [last], token.IsSpelled)
    (hread : read.map Token.piece = full.spelling) (hlast : last.kind = .endOfFile)
    (hcompile : compileRoot budgets request (.program items ⟨some line, .void⟩) table =
      .ok compilation) :
    (∃ compilation', ThreeAddress.compileTokens budgets request (read ++ [last]) =
      .ok compilation' ∧ compilation.IsEqualUnlined compilation') ∨
    ∃ error, ThreeAddress.compileTokens budgets request (read ++ [last]) = .error error ∧
      error.IsNesting ∧ (budgets.reading < 10 * (read ++ [last]).length ∨
        budgets.checking < (read ++ [last]).length) := by
  have hlength : (read ++ [last]).length = full.spelling.length + 1 := by
    rw [List.length_append, ← hread, List.length_map, List.length_singleton]
  unfold ThreeAddress.compileTokens
  rcases h.derives.readFrom budgets.reading hread hlast with
    ⟨result, cursor, hrun, hresult⟩ | ⟨hdeep, lexeme, line', cursor, hrun⟩
  · have hok : ofTokens budgets.reading (read ++ [last]) = .ok result :=
      ofTokens_ok_iff.2 ⟨cursor, hrun⟩
    obtain ⟨hderives, -⟩ := derives_of_ofTokens hspelled hok
    have hspelling : result.spelling = full.spelling := by
      rw [← spelling_unlined result, hresult, spelling_unlined]
    obtain ⟨others, hothers, hnodes⟩ := h.checks.of_unlined_eq h.derives hderives hresult
    simp only [hok, compileTree]
    rcases hothers.passes hderives budgets.checking with
      ⟨_, state, hcheck, ⟨line', rfl⟩, rfl⟩ | ⟨_, state, hcheck, rfl, hle⟩
    · have hsame : (Node.program others ⟨some line', .void⟩).unlined =
          (Node.program items ⟨some line, .void⟩).unlined := by
        simp [hnodes, Function.comp_def]
      rw [hcheck]
      exact .inl (compileRoot_unlined hsame hcompile)
    · rw [hcheck]
      refine .inr ⟨_, rfl, trivial, .inr ?_⟩
      rw [hspelling] at hle
      omega
  · have herror : ofTokens budgets.reading (read ++ [last]) = .error (.tooDeep lexeme line') := by
      rw [ofTokens, hrun]
    rw [herror]
    refine .inr ⟨_, rfl, trivial, .inl ?_⟩
    have hrank := Phrase.program.rank_lt
    rw [Phrase.need] at hdeep
    omega

/-- Redundant parentheses do not matter. The tokens of a source that is accepted are those of its
tree, with those of its expressions among them. There are sources with every expression in full
instead, with each operator in parentheses of its own and what is negated in one more pair. All of
them are compiled to the same tree up to lines, the same table, the same code and the same C text,
or the nesting is reported as too deep, where there are more tokens than the budgets are sure to
allow. -/
theorem compile_parentheses
    (hread : Tree.ofSource request.concurrent budgets.reading source = .ok tree)
    (h : (compile budgets request source).1 = .ok compilation) :
    (tokenize source).map Token.lexeme =
      tree.written (fun part _ => part.texts) compilation.root.children ++ ["end of file"] ∧
    (∃ other, (tokenize other).map Token.lexeme =
      tree.written (fun _ node => node.full) compilation.root.children ++ ["end of file"]) ∧
    ∀ other, (tokenize other).map Token.lexeme =
        tree.written (fun _ node => node.full) compilation.root.children ++ ["end of file"] →
      (∃ compilation', (compile budgets request other).1 = .ok compilation' ∧
        compilation'.root.unlined = compilation.root.unlined ∧
        compilation'.table = compilation.table ∧ compilation'.lines = compilation.lines ∧
        compilation'.c = compilation.c) ∨
      ∃ error, (compile budgets request other).1 = .error error ∧ error.IsNesting ∧
        (budgets.reading < 10 * (tokenize other).length ∨
          budgets.checking < (tokenize other).length) := by
  obtain ⟨_, state, builder, hfollows⟩ := compile_follows h
  cases hread.symm.trans hfollows.read
  obtain ⟨hderives, -⟩ := Tree.derives_of_ofSource hread
  obtain ⟨-, statements, line, items, -, hroot, hchecks, -⟩ := hfollows.lowers
  obtain ⟨full, hfull⟩ := hderives.exists_rewritten (Tree.isProper_of_ofSource hread) hchecks
  have hcompile : compileRoot budgets request compilation.root state.table = .ok compilation := by
    rw [compile_eq, compileTokens, ← Tree.ofSource_eq request.concurrent, hread] at h
    simpa only [compileTree, hfollows.checked] using h
  have hitems : compilation.root.children = items := by rw [hroot, Node.children]
  rw [hitems, ← hfull.texts]
  refine ⟨?_, hfull.proper.exists_source, fun other hother => ?_⟩
  · rw [hderives.written_texts hchecks, Tree.texts]
    have hpieces := congrArg (List.map Prod.snd) (Tree.pieces_of_ofSource hread)
    rwa [List.map_map, List.map_append] at hpieces
  obtain ⟨read, last, htokens, hpieces, hlast⟩ := hfull.proper.exists_read hother
  rw [compile_eq, htokens]
  rcases hfull.compileTokens (htokens ▸ fun _ => isSpelled_of_mem_tokenize) hpieces hlast
    (hroot ▸ hcompile) with ⟨compilation', hcompile', heq⟩ | hnesting
  · exact .inl ⟨compilation', hcompile', heq.root, heq.table, heq.lines, heq.c⟩
  · exact .inr hnesting

/-- Operators of all levels, with and without their parentheses. -/
theorem compile_parentheses_levels :
    let source := "let a = !(1 - 2 - 3 * -4 < 5 && true || false);"
    let other := "let a = (!((((((1 - 2) - (3 * (-4))) < 5) && true) || false)));"
    let request : Request := { concurrent := false }
    ∃ tree compilation compilation', Tree.ofSource false 1000 source = .ok tree ∧
      (compile {} request source).1 = .ok compilation ∧
      (compile {} request other).1 = .ok compilation' ∧
      (tokenize other).map Token.lexeme =
        tree.written (fun _ node => node.full) compilation.root.children ++ ["end of file"] ∧
      compilation'.root.unlined = compilation.root.unlined ∧
      compilation'.table = compilation.table ∧ compilation'.lines = compilation.lines ∧
      compilation'.c = compilation.c := by
  intro source other request
  have hfull : ((Tree.ofSource false 1000 source).toOption.bind fun tree =>
      (compile {} request source).1.toOption.map fun compilation =>
        tree.written (fun _ node => node.full) compilation.root.children ++ ["end of file"]) =
      some ((tokenize other).map Token.lexeme) := by decide +kernel
  have hcount : (tokenize other).length < 100 := by decide +kernel
  cases hread : Tree.ofSource false 1000 source with
  | error error =>
    rw [hread] at hfull
    cases hfull
  | ok tree =>
    rw [hread] at hfull
    obtain ⟨compilation, h, hfull⟩ := exists_of_part _ hfull
    obtain ⟨-, -, hall⟩ := @compile_parentheses {} request source tree compilation hread h
    rcases hall other hfull.symm with ⟨compilation', hcompile, heq⟩ | ⟨_, -, -, hbudget⟩
    · exact ⟨tree, compilation, compilation', rfl, h, hcompile, hfull.symm, heq⟩
    · have hbudget : 1000 < 10 * (tokenize other).length ∨ 500 < (tokenize other).length :=
        hbudget
      omega

end ThreeAddress
