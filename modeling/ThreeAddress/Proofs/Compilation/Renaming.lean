import Mathlib.Data.Finset.Lattice.Fold
import ThreeAddress.Proofs.Code.Renaming
import ThreeAddress.Proofs.Compilation.Names
import ThreeAddress.Proofs.Compilation.Tokens
import ThreeAddress.Proofs.Grammar.Invariance

/-!
# Compiling with other names

Which names a program has does not matter as long as different names stay different. With other
names in all its tokens a program fails with an error of the same kind on the same line, or it is
compiled to the same code up to names (`compile_renamed`). The other names may look like those of
temporaries; then the temporaries have other numbers, but they stand at the same places.
-/

namespace ThreeAddress

open Sequence

/-! ## Outcomes -/

/-- What kind of error a report is about. -/
inductive Report.Kind where
  | lexical
  | grammar
  | semantic
  | internal (stage : String)
  | lowering
  | emission
  | other
  | breakdown (cause : Breakdown)
  deriving DecidableEq, Repr

/-- The kind of the error that is reported. -/
def Report.kind : Report → Kind
  | lexical .. => .lexical
  | grammar .. => .grammar
  | semantic .. => .semantic
  | internal stage _ => .internal stage
  | lowering _ => .lowering
  | emission _ => .emission
  | other _ => .other
  | breakdown cause => .breakdown cause

/-- Two compilations with the same code up to names, those of the temporaries included. -/
structure Compilation.IsRenamed (names all : String → String) (code : List Instruction)
    (compilation other : Compilation) : Prop where
  /-- Different names stay different. -/
  injective : Set.InjOn all {name | name ∈ compilation.table}
  /-- The names of the program have the names that are given for them. -/
  declared : ∀ name ∈ compilation.table.declared, all name = names name
  entries : other.table.entries = compilation.table.entries.map (Entry.rename all)
  program : (other.table.entries.filter fun entry => !entry.temporary) =
    (compilation.table.entries.filter fun entry => !entry.temporary).map (Entry.rename names)
  temporaries : other.table.temporaries = compilation.table.temporaries.map all
  lines : compilation.lines = code.map (·.text)
  otherLines : other.lines = (code.map (Instruction.rename all)).map (·.text)
  /-- The lines tell the code. -/
  writes : ∀ instruction ∈ code, Instruction.ofLine? instruction.text.toList = some instruction
  otherWrites : ∀ instruction ∈ code.map (Instruction.rename all),
    Instruction.ofLine? instruction.text.toList = some instruction
  /-- All names in the code are names of the table. -/
  knows : ∀ instruction ∈ code, ∀ name, instruction.Involves name → name ∈ compilation.table

/-- Two outcomes that are the same up to names: errors of one kind on one line, or compilations
with the same code. -/
def AreAlike (names : String → String) (outcome other : Except CompileError Compilation) : Prop :=
  match outcome with
  | .error error => ∃ error', other = .error error' ∧
    error'.report.kind = error.report.kind ∧ error'.report.line? = error.report.line?
  | .ok compilation => ∃ compilation' all code, other = .ok compilation' ∧
    compilation.IsRenamed names all code compilation'

/-- An error about a token is about the same line whatever the name of the token is. -/
theorem GrammarError.IsRenamed.report {names : String → String} {error other : GrammarError}
    (h : error.IsRenamed names other) :
    other.report.kind = error.report.kind ∧ other.report.line? = error.report.line? := by
  rcases h with rfl | rfl
  · exact ⟨rfl, rfl⟩
  · cases error <;> exact ⟨rfl, rfl⟩

/-- An error about another name is of the same kind and about the same line. -/
theorem CheckError.report_rename (names : String → String) (error : CheckError) :
    (error.rename names).report.kind = error.report.kind ∧
      (error.rename names).report.line? = error.report.line? := by
  cases error with
  | names error line => cases error <;> exact ⟨rfl, rfl⟩
  | _ => exact ⟨rfl, rfl⟩

/-! ## The stages -/

section
variable {users : Table} {given all : String → String} {request : Request} {root root' : Node}
  {builder builder' : Builder} {code code' : List Instruction} {bound bound' : Nat}

/-- Corresponding code that can be emitted gives corresponding compilations. -/
theorem Corresponds.isRenamed {compilation other : Compilation}
    (h : Corresponds users given all compilation.table other.table code code' [] [])
    (hdeclared : ∀ name ∈ compilation.table.declared, name ∈ users)
    (hwritten : ∀ instruction ∈ code, instruction.IsWritten bound)
    (hwritten' : ∀ instruction ∈ code', instruction.IsWritten bound')
    (hlines : compilation.lines = code.map (·.text)) (hlines' : other.lines = code'.map (·.text)) :
    compilation.IsRenamed given all code other := by
  obtain rfl := h.renamed
  have hgiven : ∀ name ∈ compilation.table.declared, all name = given name :=
    fun name hname => (h.tables.users name (hdeclared name hname)).2
  refine ⟨h.tables.injOn, hgiven, h.tables.entries, ?_, ?_, hlines, hlines',
    fun instruction hmem => (hwritten instruction hmem).ofLine?_text,
    fun instruction hmem => (hwritten' instruction hmem).ofLine?_text, h.knows⟩
  · have hkind : (fun entry : Entry => !entry.temporary) ∘ Entry.rename all =
        fun entry => !entry.temporary := rfl
    rw [h.tables.entries, List.filter_map, hkind]
    refine List.map_congr_left fun entry hentry => ?_
    rw [Entry.rename, Entry.rename, hgiven entry.name (List.mem_map_of_mem hentry)]
  · rw [Table.temporaries, Table.temporaries, h.tables.entries, List.filter_map, List.map_map,
      List.map_map]
    rfl

/-- Code is emitted alike. -/
theorem compileCode_alike
    (h : Corresponds users given all builder.table builder'.table builder.instructions.toList
      builder'.instructions.toList [] [])
    (hdeclared : ∀ name ∈ builder.table.declared, name ∈ users)
    (hemitted : CUnit.IsEmitted builder.table bound builder.instructions.toList)
    (hemitted' : CUnit.IsEmitted builder'.table bound' builder'.instructions.toList) :
    AreAlike given (compileCode request root builder.lines builder)
      (compileCode request root' builder'.lines builder') := by
  have hread := Instruction.ofLine_rename_iff hemitted.isWritten (h.renamed ▸ hemitted'.isWritten)
  rw [← h.renamed] at hread
  have hunits := (hemitted'.unit_iff { table := builder'.table }).trans
    (hread.trans (hemitted.unit_iff { table := builder.table }).symm)
  have hrenamed {compilation other : Compilation} (htable : compilation.table = builder.table)
      (hlines : compilation.lines = builder.lines) (htable' : other.table = builder'.table)
      (hlines' : other.lines = builder'.lines) :
      compilation.IsRenamed given all builder.instructions.toList other := by
    rw [← htable, ← htable'] at h
    exact h.isRenamed (htable ▸ hdeclared) hemitted.isWritten hemitted'.isWritten hlines hlines'
  simp only [compileCode]
  cases request.emitC with
  | false => exact ⟨_, all, _, rfl, hrenamed rfl rfl rfl rfl⟩
  | true =>
    have hends := hemitted.unit_ends { table := builder.table }
    have hends' := hemitted'.unit_ends { table := builder'.table }
    rw [← Builder.lines] at hends hends' hunits
    rw [← Builder.lines] at hunits
    rcases hends with ⟨result, hunit⟩ | ⟨hunit, -⟩
    · obtain ⟨result', hunit'⟩ := hunits.2 ⟨result, hunit⟩
      simp only [hunit, hunit', if_true]
      exact ⟨_, all, _, rfl, hrenamed rfl rfl rfl rfl⟩
    · rcases hends' with hunit' | ⟨hunit', -⟩
      · obtain ⟨result, hresult⟩ := hunits.1 hunit'
        rw [hunit] at hresult
        cases hresult
      · simp only [hunit, hunit', if_true]
        exact ⟨_, rfl, rfl, rfl⟩

end

section
variable {names : String ↪ String} {tree : Tree} {bound bound' : Nat}

/-- The checked trees of programs are lowered and emitted alike. -/
theorem Tree.Checks.compileRoot_alike {statements statements' : List Tree} {line : Line}
    {items : List Node} {table : Table}
    (h : (Tree.block statements line).Checks .empty items table)
    (hcut : (Tree.block statements line).IsCut bound)
    (h' : (Tree.block statements' line).Checks .empty (items.map (Node.rename names))
      (table.rename names)) (hcut' : (Tree.block statements' line).IsCut bound')
    (budgets : Budgets) (request : Request) (mark : Mark) :
    AreAlike names (compileRoot budgets request (.program items mark) table)
      (compileRoot budgets request (.program (items.map (Node.rename names)) mark)
        (table.rename names)) := by
  have hdescends := Node.lowerProgram_descends (.program items mark) budgets.lowering none { table }
  have hdescends' := Node.lowerProgram_descends (.program (items.map (Node.rename names)) mark)
    budgets.lowering none { table := table.rename names }
  have hlevels : (Node.program (items.map (Node.rename names)) mark).levels =
      (Node.program items mark).levels := by
    rw [← Node.renameAll_eq]
    exact Node.levels_rename names (.program items mark)
  rw [hlevels] at hdescends'
  unfold compileRoot
  rcases h.lowerProgram_ends mark budgets.lowering table with
    ⟨_, builder, hrun, rfl, hlowers⟩ | ⟨_, builder, hrun, rfl⟩
  · rcases h'.lowerProgram_ends mark budgets.lowering (table.rename names) with
      ⟨_, builder', hrun', rfl, hlowers'⟩ | ⟨_, builder', hrun', rfl⟩
    · have hsound := h.isSound hcut
      have htables : table.Translates names names table (table.rename names) :=
        ⟨rfl, fun name hname => ⟨hname, rfl⟩⟩
      obtain ⟨all, -, hcorresponds, -⟩ := hlowers.corresponds hlowers' rfl htables hsound
      have hdeclared := (hlowers.isFrugal (fun _ hname => hname) hsound).declared
      have husers : ∀ name ∈ builder.table.declared, name ∈ table := fun name hname =>
        (Table.mem_declared h.temporaries).1 (hdeclared ▸ hname)
      rw [hrun, hrun']
      exact compileCode_alike hcorresponds husers (h.isEmitted hcut hlowers)
        (h'.isEmitted hcut' hlowers')
    · have hlt := hdescends'.of_error hrun' rfl
      exact absurd (hdescends.of_ok hrun) (Nat.not_le.2 hlt)
  · rcases h'.lowerProgram_ends mark budgets.lowering (table.rename names) with
      ⟨_, builder', hrun', -⟩ | ⟨_, builder', hrun', rfl⟩
    · have hlt := hdescends.of_error hrun rfl
      exact absurd (hdescends'.of_ok hrun') (Nat.not_le.2 hlt)
    · rw [hrun, hrun']
      exact ⟨_, rfl, rfl, rfl⟩

/-- Trees are compiled alike. -/
theorem compileTree_alike (hderives : tree.Derives .program) (hcut : tree.IsCut bound)
    (hderives' : (tree.rename names).Derives .program) (hcut' : (tree.rename names).IsCut bound')
    (budgets : Budgets) (request : Request) :
    AreAlike names (compileTree budgets request tree)
      (compileTree budgets request (tree.rename names)) := by
  have hrenamed := Tree.checkProgram_renamed names budgets.checking tree {}
  have hempty : ({} : CheckState).rename names = {} := rfl
  rw [hempty] at hrenamed
  unfold compileTree
  cases hrun : tree.checkProgram budgets.checking {} with
  | error error state =>
    rw [hrun] at hrenamed
    rw [hrenamed]
    exact ⟨_, rfl, CheckError.report_rename names error⟩
  | ok root state =>
    rw [hrun] at hrenamed
    rw [hrenamed]
    obtain ⟨statements, line, rfl, hends⟩ := hderives.checkProgram_ends budgets.checking .empty
    obtain ⟨items, rfl, hchecks⟩ := hends.of_ok hrun
    obtain ⟨statements', line', hblock, hends'⟩ :=
      hderives'.checkProgram_ends budgets.checking .empty
    obtain ⟨items', hroot, hchecks'⟩ := hends'.of_ok hrenamed
    rw [Tree.rename] at hblock
    cases hblock
    simp only [Node.rename, Node.renameAll_eq] at hroot ⊢
    cases hroot
    exact hchecks.compileRoot_alike hcut hchecks' hcut' budgets request _

/-- Tokens are compiled alike. -/
theorem compileTokens_alike {tokens : List Token} (hcut : ∀ token ∈ tokens, token.IsCut)
    (hcut' : ∀ token ∈ tokens, (token.rename names).IsCut) (budgets : Budgets) (request : Request) :
    AreAlike names (compileTokens budgets request tokens)
      (compileTokens budgets request (tokens.map (Token.rename names))) := by
  have hrenamed := Tree.ofTokens_renamed names budgets.reading tokens
  unfold compileTokens
  cases hread : Tree.ofTokens budgets.reading tokens with
  | error error =>
    rw [hread] at hrenamed
    obtain ⟨error', herror', hsame⟩ := hrenamed
    rw [herror']
    exact ⟨_, rfl, hsame.report⟩
  | ok tree =>
    rw [hread] at hrenamed
    obtain ⟨hderives, htree⟩ := Tree.cut_of_ofTokens hcut (Nat.le_succ _) hread
    obtain ⟨hderives', htree'⟩ := Tree.cut_of_ofTokens (List.forall_mem_map.2 hcut') (Nat.le_succ _)
      hrenamed
    simp only [hrenamed]
    exact compileTree_alike hderives htree hderives' htree' budgets request

end

/-! ## Names that the lexer knows -/

/-- A text that the lexer cuts out of some source as a name. -/
def IsIdentifier (name : String) : Prop :=
  ∃ source, ∃ token ∈ tokenize source, token.kind = .ident ∧ token.lexeme = name

/-- The names among tokens. -/
def identifiers (tokens : List Token) : Set String :=
  {name | ∃ token ∈ tokens, token.kind = .ident ∧ token.lexeme = name}

/-- Names that keep the names among tokens apart go on to names that keep all texts apart. -/
theorem exists_embedding {names : String → String} {tokens : List Token}
    (h : Set.InjOn names (identifiers tokens)) :
    ∃ all : String ↪ String, ∀ name ∈ identifiers tokens, all name = names name := by
  classical
  obtain ⟨bound, hbound⟩ : ∃ bound, ∀ token ∈ tokens, (names token.lexeme).length ≤ bound :=
    ⟨tokens.toFinset.sup fun token => (names token.lexeme).length, fun token hmem =>
      Finset.le_sup (f := fun token => (names token.lexeme).length) (List.mem_toFinset.2 hmem)⟩
  -- All other texts get so long a beginning that they are none of the names.
  let stem := String.ofList (List.replicate (bound + 1) 'a')
  have hne {first second : String} (hfirst : first ∈ identifiers tokens) :
      names first ≠ stem ++ second := by
    obtain ⟨token, hmem, -, rfl⟩ := hfirst
    intro heq
    have hlength := hbound token hmem
    rw [heq, String.length_append, String.length_ofList, List.length_replicate] at hlength
    omega
  refine ⟨⟨fun name => if name ∈ identifiers tokens then names name else stem ++ name, ?_⟩,
    fun name hname => if_pos hname⟩
  intro first second heq
  simp only at heq
  split at heq
  · next hfirst =>
    split at heq
    · next hsecond => exact h hfirst hsecond heq
    · exact absurd heq (hne hfirst)
  · split at heq
    · next hsecond => exact absurd heq.symm (hne hsecond)
    · exact append_right_injective heq

/-- A token with a name that the lexer knows is cut out of some source. -/
theorem Token.IsCut.rename {names : String → String} {token : Token} (h : token.IsCut)
    (hnames : token.kind = .ident → IsIdentifier (names token.lexeme)) :
    (token.rename names).IsCut := by
  by_cases hkind : token.kind = .ident
  · obtain ⟨source, other, hmem, hother, hlexeme⟩ := hnames hkind
    have hcut := isCut_of_mem_tokenize hmem
    rw [IsCut, hother, hlexeme] at hcut
    rwa [IsCut, kind_rename, lexeme_rename names hkind, hkind]
  · rwa [rename_of_ne names hkind]

/-- The names of the program are among those that the lexer has cut out of the source. -/
theorem Compilation.Follows.mem_identifiers {budgets : Budgets} {request : Request}
    {source : String} {tree : Tree} {state : CheckState} {builder : Builder}
    {compilation : Compilation}
    (h : compilation.Follows budgets request source tree state builder) :
    ∀ name ∈ compilation.table.declared, name ∈ identifiers (tokenize source) := by
  obtain ⟨-, statements, line, items, rfl, -, hchecks, -⟩ := h.lowers
  have hread := h.read
  rw [Tree.ofSource_eq] at hread
  obtain ⟨-, htokens⟩ := Tree.derives_of_ofTokens (fun _ => isSpelled_of_mem_tokenize) hread
  intro name hname
  rcases hchecks.quoted_table htokens.subset name (h.mem_declared.1 hname) with hnone | hpiece
  · cases hnone
  · obtain ⟨token, hmem, hpiece⟩ := List.mem_map.1 hpiece
    exact ⟨token, hmem, congrArg Prod.fst hpiece, congrArg Prod.snd hpiece⟩

/-- Only the names of the program matter. -/
theorem Compilation.IsRenamed.congr {names names' all : String → String} {code : List Instruction}
    {compilation other : Compilation} (h : compilation.IsRenamed names all code other)
    (hsame : ∀ name ∈ compilation.table.declared, names name = names' name) :
    compilation.IsRenamed names' all code other where
  injective := h.injective
  declared name hname := (h.declared name hname).trans (hsame name hname)
  entries := h.entries
  program := by
    rw [h.program]
    refine List.map_congr_left fun entry hentry => ?_
    rw [Entry.rename, Entry.rename, hsame entry.name (List.mem_map_of_mem hentry)]
  temporaries := h.temporaries
  lines := h.lines
  otherLines := h.otherLines
  writes := h.writes
  otherWrites := h.otherWrites
  knows := h.knows

/-- Compilation commutes with other names. If the names in the tokens of a source get other names
that the lexer knows, different ones for different names, then compiling the tokens fails with an
error of the same kind on the same line, or it yields the same code up to names. -/
theorem compile_renamed (budgets : Budgets) (request : Request) {source : String}
    {names : String → String} (hinjective : Set.InjOn names (identifiers (tokenize source)))
    (hnames : ∀ name ∈ identifiers (tokenize source), IsIdentifier (names name)) :
    AreAlike names (compile budgets request source).1
      (compileTokens budgets request ((tokenize source).map (Token.rename names))) := by
  obtain ⟨all, hall⟩ := exists_embedding hinjective
  have hsame : ∀ token ∈ tokenize source, token.rename all = token.rename names :=
    fun token hmem => Token.rename_congr fun hkind => hall token.lexeme ⟨token, hmem, hkind, rfl⟩
  have hcut : ∀ token ∈ tokenize source, (token.rename all).IsCut := fun token hmem =>
    hsame token hmem ▸ (isCut_of_mem_tokenize hmem).rename fun hkind =>
      hnames token.lexeme ⟨token, hmem, hkind, rfl⟩
  have halike := compileTokens_alike (fun _ => isCut_of_mem_tokenize) hcut budgets request
  rw [← compile_eq, List.map_congr_left hsame] at halike
  cases hcompile : (compile budgets request source).1 with
  | error error => rwa [hcompile] at halike
  | ok compilation =>
    rw [hcompile] at halike
    obtain ⟨tree, state, builder, hfollows⟩ := compile_follows hcompile
    obtain ⟨other, extended, code, hother, hrenamed⟩ := halike
    exact ⟨other, extended, code, hother, hrenamed.congr fun name hname =>
      hall name (hfollows.mem_identifiers name hname)⟩

/-- Names that look like a temporary and like a label: the temporaries have the next numbers. -/
theorem compile_renamed_shifted :
    let source := "let x = 1 + 2; let y = x * 3;"
    let names := fun name => if name = "x" then "t1" else "L3"
    ∃ compilation other all code, (compile {} {} source).1 = .ok compilation ∧
      compileTokens {} {} ((tokenize source).map (Token.rename names)) = .ok other ∧
      compilation.IsRenamed names all code other ∧
      compilation.lines = ["t1 = 1 + 2", "x = t1", "t2 = x * 3", "y = t2"] ∧
      other.lines = ["t2 = 1 + 2", "t1 = t2", "t3 = t1 * 3", "L3 = t3"] ∧
      all "x" = "t1" ∧ all "y" = "L3" ∧ all "t1" = "t2" ∧ all "t2" = "t3" := by
  intro source names
  have hidentifiers : ∀ token ∈ tokenize source, token.kind = .ident →
      token.lexeme = "x" ∨ token.lexeme = "y" := by decide +kernel
  have hinjective : Set.InjOn names (identifiers (tokenize source)) := by
    rintro _ ⟨first, hfirst, hkind, rfl⟩ _ ⟨second, hsecond, hkind', rfl⟩ heq
    rcases hidentifiers first hfirst hkind with h | h <;>
      rcases hidentifiers second hsecond hkind' with h' | h' <;> simp_all [names]
  have hnames : ∀ name ∈ identifiers (tokenize source), IsIdentifier (names name) := by
    rintro _ ⟨token, hmem, hkind, rfl⟩
    rcases hidentifiers token hmem hkind with h | h
    · rw [h]
      exact ⟨"t1", ⟨.ident, "t1", 1⟩, by decide +kernel⟩
    · rw [h]
      exact ⟨"L3", ⟨.ident, "L3", 1⟩, by decide +kernel⟩
  have hfirst : (match (compile {} {} source).1 with
      | .ok compilation =>
        some (compilation.lines, compilation.table.declared, compilation.table.temporaries)
      | .error _ => none) = some (["t1 = 1 + 2", "x = t1", "t2 = x * 3", "y = t2"], ["x", "y"],
        ["t1", "t2"]) := by decide +kernel
  have hsecond : (match compileTokens {} {} ((tokenize source).map (Token.rename names)) with
      | .ok compilation => some (compilation.lines, compilation.table.temporaries)
      | .error _ => none) = some (["t2 = 1 + 2", "t1 = t2", "t3 = t1 * 3", "L3 = t3"],
        ["t2", "t3"]) := by decide +kernel
  have halike := compile_renamed {} {} hinjective hnames
  cases hcompile : (compile {} {} source).1 with
  | error error =>
    rw [hcompile] at hfirst
    cases hfirst
  | ok compilation =>
    rw [hcompile] at hfirst halike
    obtain ⟨other, all, code, hother, hrenamed⟩ := halike
    rw [hother] at hsecond
    obtain ⟨hlines, htables⟩ := Prod.mk.inj (Option.some.inj hfirst)
    obtain ⟨hdeclared, htemporaries⟩ := Prod.mk.inj htables
    obtain ⟨hlines', htemporaries'⟩ := Prod.mk.inj (Option.some.inj hsecond)
    have hx := hrenamed.declared "x" (by simp [hdeclared])
    have hy := hrenamed.declared "y" (by simp [hdeclared])
    have hshifted := hrenamed.temporaries
    rw [htemporaries, htemporaries'] at hshifted
    obtain ⟨hone, hrest⟩ := List.cons.inj hshifted
    obtain ⟨htwo, -⟩ := List.cons.inj hrest
    exact ⟨compilation, other, all, code, rfl, hother, hrenamed, hlines, hlines', hx, hy,
      hone.symm, htwo.symm⟩

end ThreeAddress
