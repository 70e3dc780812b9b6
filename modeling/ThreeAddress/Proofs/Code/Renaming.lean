import Mathlib.Data.Set.Function
import ThreeAddress.Proofs.Check.Renaming
import ThreeAddress.Proofs.Code.Levels
import ThreeAddress.Proofs.Code.Operands

/-!
# Lowering a tree with other names

Two trees that are the same up to names are lowered to code that is the same up to names
(`Node.Lowers.corresponds`). The temporaries need not have the same numbers, because other numbers
are passed over, but they are taken in the same order. So the names of the program that are given
extend to names for the temporaries, one at each place where one is taken; and since no table has a
name twice, different names stay different.
-/

namespace ThreeAddress

namespace Instruction

/-- An operand with another name, if it is a variable. -/
def renameOperand (names : String → String) (operand : String) : String :=
  if isVariable operand then names operand else operand

/-- An instruction with other names for its variables. -/
def rename (names : String → String) : Instruction → Instruction
  | .assign target first operator second =>
    .assign (names target) (first.map (renameOperand names)) operator
      (second.map (renameOperand names))
  | .jump goal => .jump goal
  | .branch condition goal => .branch (renameOperand names condition) goal
  | .label name => .label name
  | .param operand => .param (renameOperand names operand)
  | .call function count target => .call function count (target.map names)

variable {names names' : String → String} {operand : String} {instruction : Instruction}
  {code : List Instruction}

/-- A variable gets its other name. -/
theorem renameOperand_variable (h : isVariable operand = true) :
    renameOperand names operand = names operand := if_pos h

/-- A literal stays as it is. -/
theorem renameOperand_literal (h : isVariable operand = false) :
    renameOperand names operand = operand := if_neg (by simp [h])

/-- An operand depends on its own name only. -/
theorem renameOperand_congr (h : isVariable operand = true → names' operand = names operand) :
    renameOperand names' operand = renameOperand names operand := by
  unfold renameOperand
  split
  · next hvariable => exact h hvariable
  · rfl

/-- An instruction depends on the names in it only. -/
theorem rename_congr (h : ∀ name, instruction.Involves name → names' name = names name) :
    instruction.rename names' = instruction.rename names := by
  have hoperand {operand : String} (hmem : operand ∈ instruction.reads) :
      renameOperand names' operand = renameOperand names operand :=
    renameOperand_congr fun hvariable => h operand (.inl ⟨hmem, hvariable⟩)
  cases instruction with
  | assign target first operator second =>
    have htarget : names' target = names target := h target (.inr rfl)
    have hfirst : first.map (renameOperand names') = first.map (renameOperand names) :=
      Option.map_congr fun _ hmem => hoperand (List.mem_append_left _ (by simpa using hmem))
    have hsecond : second.map (renameOperand names') = second.map (renameOperand names) :=
      Option.map_congr fun _ hmem => hoperand (List.mem_append_right _ (by simpa using hmem))
    rw [rename, rename, htarget, hfirst, hsecond]
  | jump | label => rfl
  | branch condition goal => rw [rename, rename, hoperand (.head _)]
  | param operand => rw [rename, rename, hoperand (.head _)]
  | call function count target =>
    have htarget : target.map names' = target.map names :=
      Option.map_congr fun name hmem => h name (.inr hmem)
    rw [rename, rename, htarget]

end Instruction

open Instruction

/-! ## Code with other names -/

/-- The names of a table stay the same when there are names for more. -/
def Table.Keeps (table : Table) (names names' : String → String) : Prop :=
  ∀ name ∈ table, names' name = names name

/-- The second table is the first one with other names. The names of the program have the names
that are given for them. -/
structure Table.Translates (users : Table) (given names : String → String) (table other : Table) :
    Prop where
  entries : other.entries = table.entries.map (Entry.rename names)
  users : ∀ name ∈ users, name ∈ table ∧ names name = given name

/-- The second code and its operands to hand on are the first ones with other names, and the tables
after them know the names. -/
structure Corresponds (users : Table) (given names : String → String) (table other : Table)
    (code code' : List Instruction) (handed handed' : List String) : Prop where
  tables : users.Translates given names table other
  renamed : code' = code.map (rename names)
  renamedOperands : handed' = handed.map (renameOperand names)
  knows : ∀ instruction ∈ code, ∀ name, instruction.Involves name → name ∈ table
  knowsOperands : ∀ operand ∈ handed, isVariable operand = true → operand ∈ table

section
variable {users table other between between' after after' : Table}
  {given names names' : String → String} {code code' others others' : List Instruction}
  {handed handed' more more' : List String}

/-- The names of a table stay the same twice. -/
theorem Table.Keeps.trans {names₁ names₂ : String → String} (h : table.Keeps names names₁)
    (h' : between.Keeps names₁ names₂) (hgrows : table.Grows between) :
    table.Keeps names names₂ :=
  fun name hname => (h' name (hgrows.mem hname)).trans (h name hname)

/-- The names are distinct, since they are the names of a table. -/
theorem Table.Translates.injOn (h : users.Translates given names table other) :
    Set.InjOn names {name | name ∈ table} := by
  have hnodup := other.distinct
  rw [h.entries, Entry.map_name_rename] at hnodup
  exact fun first hfirst second hsecond heq => List.inj_on_of_nodup_map hnodup hfirst hsecond heq

/-- Two temporaries become names of each other. -/
theorem Table.Translates.take (h : users.Translates given names between between')
    {first second : String} {type : DataType} (htable : between.addTemporary first type = .ok after)
    (htable' : between'.addTemporary second type = .ok after') :
    between.Keeps names (Function.update names first second) ∧
      users.Translates given (Function.update names first second) after after' := by
  obtain ⟨isNew, rfl⟩ := addTemporary_ok htable
  obtain ⟨isNew', rfl⟩ := addTemporary_ok htable'
  have hsame : between.Keeps names (Function.update names first second) := fun name hname =>
    Function.update_of_ne (by rintro rfl; exact isNew hname) _ _
  refine ⟨hsame, ?_, fun name hname => ?_⟩
  · have hentries : between.entries.map (Entry.rename (Function.update names first second)) =
        between.entries.map (Entry.rename names) := by
      refine List.map_congr_left fun entry hentry => ?_
      rw [Entry.rename, Entry.rename, hsame entry.name (List.mem_map_of_mem hentry)]
    simp [push, hentries, h.entries, Entry.rename]
  · obtain ⟨hmem, hgiven⟩ := h.users name hname
    exact ⟨(grows_push isNew).mem hmem, (hsame name hmem).trans hgiven⟩

namespace Corresponds

/-- Operands that are handed on without code. -/
theorem nil (h : users.Translates given names table other)
    (hhanded : handed' = handed.map (renameOperand names))
    (hknows : ∀ operand ∈ handed, isVariable operand = true → operand ∈ table) :
    Corresponds users given names table other [] [] handed handed' :=
  ⟨h, rfl, hhanded, nofun, hknows⟩

/-- Names for more do not change the code and the operands. -/
theorem extend (h : Corresponds users given names table other code code' handed handed')
    (hsame : table.Keeps names names') :
    code' = code.map (rename names') ∧ handed' = handed.map (renameOperand names') := by
  rw [h.renamed, h.renamedOperands]
  constructor
  · exact List.map_congr_left fun instruction hmem =>
      (rename_congr fun name hinvolves => hsame name (h.knows instruction hmem name hinvolves)).symm
  · exact List.map_congr_left fun operand hmem =>
      (renameOperand_congr fun hvariable =>
        hsame operand (h.knowsOperands operand hmem hvariable)).symm

/-- Code and more code. -/
theorem append (h : Corresponds users given names between between' code code' handed handed')
    (h' : Corresponds users given names' after after' others others' more more')
    (hsame : between.Keeps names names') (hgrows : between.Grows after) :
    Corresponds users given names' after after' (code ++ others) (code' ++ others')
      (handed ++ more) (handed' ++ more') := by
  obtain ⟨hcode, hhanded⟩ := h.extend hsame
  refine ⟨h'.tables, ?_, ?_, List.forall_mem_append.2 ⟨?_, h'.knows⟩,
    List.forall_mem_append.2 ⟨?_, h'.knowsOperands⟩⟩
  · rw [hcode, h'.renamed, List.map_append]
  · rw [hhanded, h'.renamedOperands, List.map_append]
  · exact fun instruction hmem name hinvolves =>
      hgrows.mem (h.knows instruction hmem name hinvolves)
  · exact fun operand hmem hvariable => hgrows.mem (h.knowsOperands operand hmem hvariable)

/-- Instructions that take what is handed on. -/
theorem consume (h : Corresponds users given names table other code code' handed handed')
    (hothers : others' = others.map (rename names))
    (hknows : ∀ instruction ∈ others, ∀ name, instruction.Involves name → name ∈ table) :
    Corresponds users given names table other (code ++ others) (code' ++ others') [] [] where
  tables := h.tables
  renamed := by rw [h.renamed, hothers, List.map_append]
  renamedOperands := rfl
  knows := List.forall_mem_append.2 ⟨h.knows, hknows⟩
  knowsOperands := nofun

/-- Labels and jumps, which have no names. -/
theorem plain (h : Corresponds users given names table other code code' [] [])
    (others : List Instruction) (hothers : others.map (rename names) = others)
    (hreads : operands others = []) (htargets : targets others = []) :
    Corresponds users given names table other (code ++ others) (code' ++ others) [] [] := by
  refine h.consume hothers.symm fun instruction hmem name hinvolves => ?_
  rcases hinvolves with ⟨hname, -⟩ | hname
  · have hoperand := List.mem_flatMap_of_mem hmem hname
    rw [← operands, hreads] at hoperand
    cases hoperand
  · have htarget := List.mem_filterMap.2 ⟨instruction, hmem, hname⟩
    rw [← targets, htargets] at htarget
    cases htarget

/-- A copy of an operand to a name of the program. -/
theorem copy {target value value' : String}
    (h : Corresponds users given names table other code code' [value] [value'])
    (htarget : target ∈ users) :
    Corresponds users given names table other (code ++ [.assign target (some value) none none])
      (code' ++ [.assign (given target) (some value') none none]) [] [] := by
  obtain ⟨hmem, hgiven⟩ := h.tables.users target htarget
  obtain ⟨rfl, -⟩ := List.cons.inj h.renamedOperands
  refine h.consume ?_ (List.forall_mem_singleton.2 ?_)
  · rw [List.map_singleton, rename, hgiven, Option.map_some, Option.map_none]
  · rintro name (⟨hname, hvariable⟩ | hname)
    · exact h.knowsOperands name (by simpa [reads] using hname) hvariable
    · cases hname
      exact hmem

/-- A print of operands under a format text. -/
theorem printed {format : String}
    (h : Corresponds users given names table other code code' handed handed')
    (hformat : isVariable format = false) :
    Corresponds users given names table other
      (code ++ ((format :: handed).map .param ++ [.call "printf" (handed.length + 1) none]))
      (code' ++ ((format :: handed').map .param ++ [.call "printf" (handed'.length + 1) none]))
      [] [] := by
  refine h.consume ?_ (List.forall_mem_append.2 ⟨List.forall_mem_map.2 ?_, ?_⟩)
  · rw [h.renamedOperands]
    simp [rename, renameOperand_literal hformat, Function.comp_def]
  · rintro operand hmem name (⟨hname, hvariable⟩ | hname)
    · cases List.mem_singleton.1 hname
      rcases List.mem_cons.1 hmem with rfl | hmem
      · rw [hformat] at hvariable
        cases hvariable
      · exact h.knowsOperands _ hmem hvariable
    · cases hname
  · refine List.forall_mem_singleton.2 ?_
    rintro name (⟨hname, -⟩ | hname) <;> cases hname

/-- A condition in front of a body. -/
theorem opening {operand operand' : String}
    (h : Corresponds users given names table other code code' [operand] [operand'])
    (inside exit : String) :
    Corresponds users given names table other
      (code ++ [.branch operand inside, .jump exit, .label inside])
      (code' ++ [.branch operand' inside, .jump exit, .label inside]) [] [] := by
  obtain ⟨rfl, -⟩ := List.cons.inj h.renamedOperands
  have hbranch : Corresponds users given names table other (code ++ [.branch operand inside])
      (code' ++ [.branch (renameOperand names operand) inside]) [] [] := by
    refine h.consume rfl (List.forall_mem_singleton.2 ?_)
    rintro name (⟨hname, hvariable⟩ | hname)
    · exact h.knowsOperands name hname hvariable
    · cases hname
  have hplain := hbranch.plain [.jump exit, .label inside] rfl rfl rfl
  simpa using hplain

/-- An instruction takes what is handed on and stores its value in a new temporary. -/
theorem take (h : Corresponds users given names between between' code code' handed handed')
    {first second : Nat} {type : DataType} (instruction instruction' : Instruction)
    (htable : between.addTemporary (Temporaries.nameOf first) type = .ok after)
    (htable' : between'.addTemporary (Temporaries.nameOf second) type = .ok after')
    (hdefines : instruction.defines? = some (Temporaries.nameOf first))
    (hreads : instruction.reads ⊆ handed)
    (hrename : ∀ names' : String → String,
      names' (Temporaries.nameOf first) = Temporaries.nameOf second →
      handed' = handed.map (renameOperand names') → instruction' = instruction.rename names') :
    ∃ names', between.Keeps names names' ∧
      Corresponds users given names' after after' (code ++ [instruction]) (code' ++ [instruction'])
        [Temporaries.nameOf first] [Temporaries.nameOf second] := by
  obtain ⟨hsame, htables⟩ := h.tables.take htable htable'
  obtain ⟨hcode, hhanded⟩ := h.extend hsame
  have hgrows := Table.grows_of_addTemporary htable
  have hmem := Table.mem_iff_find?.2 ⟨_, Table.find?_of_addTemporary htable⟩
  have htarget := Function.update_self (Temporaries.nameOf first) (Temporaries.nameOf second) names
  refine ⟨_, hsame, htables, ?_, ?_, ?_, fun operand hoperand _ => ?_⟩
  · rw [hcode, hrename _ htarget hhanded, List.map_append, List.map_singleton]
  · rw [List.map_singleton, renameOperand_variable (Temporaries.isVariable_nameOf first), htarget]
  · refine List.forall_mem_append.2 ⟨fun instruction hmem name hinvolves =>
      hgrows.mem (h.knows instruction hmem name hinvolves), List.forall_mem_singleton.2 ?_⟩
    rintro name (⟨hread, hvariable⟩ | htaken)
    · exact hgrows.mem (h.knowsOperands name (hreads hread) hvariable)
    · cases hdefines.symm.trans htaken
      exact hmem
  · rw [List.mem_singleton.1 hoperand]
    exact hmem

end Corresponds

end

/-! ## Lowered code -/

namespace Node

mutual
/-- Other names do not change how many levels there are. -/
theorem levels_rename (names : String → String) : ∀ node : Node,
    (node.rename names).levels = node.levels
  | absent | bare _ | literal .. | format .. | var .. | input _ => rfl
  | program statements _ | block statements _ => by
    rw [rename, levels, levels, levelsAll_rename names statements]
  | assignment _ value _ _ => by rw [rename, levels, levels, levels_rename names value]
  | output _ arguments _ => by rw [rename, levels, levels, levelsAll_rename names arguments]
  | conditional parts _ => by rw [rename, levels, levels, levelsParts_rename names parts]
  | loop condition body _ => by
    rw [rename, levels, levels, levels_rename names condition, levels_rename names body]
  | binary _ left right _ => by
    rw [rename, levels, levels, levels_rename names left, levels_rename names right]
  | unary _ operand _ => by rw [rename, levels, levels, levels_rename names operand]

/-- Other names do not change how many levels there are. -/
theorem levelsAll_rename (names : String → String) : ∀ nodes : List Node,
    levelsAll (renameAll names nodes) = levelsAll nodes
  | [] => rfl
  | node :: nodes => by
    rw [renameAll, levelsAll, levelsAll, levels_rename names node, levelsAll_rename names nodes]

/-- Other names do not change how many levels there are. -/
theorem levelsParts_rename (names : String → String) : ∀ parts : List Node,
    levelsParts (renameAll names parts) = levelsParts parts
  | [] => rfl
  | [body] => by
    have hbody := levels_rename names body
    cases body with
    | absent => rfl
    | _ => exact hbody
  | condition :: body :: parts => by
    rw [renameAll, renameAll, levelsParts, levelsParts, levels_rename names condition,
      levels_rename names body, levelsParts_rename names parts]
end

variable {users table after other after' : Table} {given names : String → String} {node : Node}
  {code code' : List Instruction} {operand operand' : String}

/-- The code of an expression and its operand are the same up to names. -/
theorem Computes.corresponds (h : node.Computes table code operand after)
    (h' : (node.rename given).Computes other code' operand' after')
    (htables : users.Translates given names table other) (hsound : node.IsSound users) :
    ∃ names', table.Keeps names names' ∧
      Corresponds users given names' after after' code code' [operand] [operand'] := by
  induction h generalizing names other code' operand' after' with
  | literal =>
    cases h'
    obtain ⟨-, hliteral, -⟩ := (isSound_iff.1 hsound).1
    refine ⟨names, fun _ _ => rfl, .nil htables ?_ ?_⟩
    · rw [List.map_singleton, renameOperand_literal hliteral]
    · exact List.forall_mem_singleton.2 fun hvariable => absurd hvariable (by simp [hliteral])
  | var =>
    cases h'
    obtain ⟨⟨-, entry, hfind, -⟩, hvariable⟩ := (isSound_iff.1 hsound).1
    obtain ⟨hmem, hgiven⟩ := htables.users _ (Table.mem_iff_find?.2 ⟨entry, hfind⟩)
    refine ⟨names, fun _ _ => rfl, .nil htables ?_ (List.forall_mem_singleton.2 fun _ => hmem)⟩
    rw [List.map_singleton, renameOperand_variable hvariable, hgiven]
  | input htable =>
    cases h' with
    | input htable' =>
      have hnone : Corresponds users given names _ _ [] [] [] [] := .nil htables rfl nofun
      refine hnone.take (.call "input" 0 _) (.call "input" 0 _) htable htable' rfl
        (List.nil_subset _) fun names' htarget _ => ?_
      rw [Instruction.rename, Option.map_some, htarget]
  | @unary _ _ _ operator _ _ _ value _ hvalue htable ih =>
    cases h' with
    | @unary _ _ _ _ _ _ _ value' _ hvalue' htable' =>
      obtain ⟨names₁, hsame₁, hoperand⟩ := ih hvalue' htables ((isSound_iff.1 hsound).2 _ (.head _))
      have htaken := hoperand.take (.assign _ (some value) (some operator) none)
        (.assign _ (some value') (some operator) none) htable htable' rfl (by simp [reads]) <| by
          intro names' htarget hhanded
          obtain ⟨rfl, -⟩ := List.cons.inj hhanded
          rw [Instruction.rename, Option.map_some, Option.map_none, htarget]
      obtain ⟨names₂, hsame₂, hresult⟩ := htaken
      exact ⟨names₂, hsame₁.trans hsame₂ hvalue.grows, hresult⟩
  | @binary _ _ _ _ operator _ _ _ _ _ first second _ hleft hright htable ihLeft ihRight =>
    cases h' with
    | @binary _ _ _ _ _ _ _ _ _ _ first' second' _ hleft' hright' htable' =>
      obtain ⟨-, hchildren⟩ := isSound_iff.1 hsound
      obtain ⟨names₁, hsame₁, hfirst⟩ := ihLeft hleft' htables (hchildren _ (.head _))
      obtain ⟨names₂, hsame₂, hsecond⟩ := ihRight hright' hfirst.tables
        (hchildren _ (.tail _ (.head _)))
      have hboth := hfirst.append hsecond hsame₂ hright.grows
      have htaken := hboth.take (.assign _ (some first) (some operator) (some second))
        (.assign _ (some first') (some operator) (some second')) htable htable' rfl
        (by simp [reads]) <| by
          intro names' htarget hhanded
          obtain ⟨rfl, hrest⟩ := List.cons.inj hhanded
          obtain ⟨rfl, -⟩ := List.cons.inj hrest
          rw [Instruction.rename, Option.map_some, Option.map_some, htarget]
      obtain ⟨names₃, hsame₃, hresult⟩ := htaken
      rw [List.append_assoc, List.append_assoc] at hresult
      exact ⟨names₃, hsame₁.trans (hsame₂.trans hsame₃ hright.grows) hleft.grows, hresult⟩

/-- The code of arguments and their operands are the same up to names. -/
theorem ComputesAll.corresponds {nodes : List Node} {operands operands' : List String}
    (h : ComputesAll table nodes code operands after)
    (h' : ComputesAll other (nodes.map (Node.rename given)) code' operands' after')
    (htables : users.Translates given names table other)
    (hsound : ∀ node ∈ nodes, node.IsSound users) :
    ∃ names', table.Keeps names names' ∧
      Corresponds users given names' after after' code code' operands operands' := by
  induction h generalizing names other code' operands' after' with
  | nil =>
    cases h'
    exact ⟨names, fun _ _ => rfl, .nil htables rfl nofun⟩
  | cons hnode hnodes ih =>
    obtain ⟨hsoundNode, hsoundNodes⟩ := List.forall_mem_cons.1 hsound
    cases h' with
    | cons hnode' hnodes' =>
      obtain ⟨names₁, hsame₁, hfirst⟩ := hnode.corresponds hnode' htables hsoundNode
      obtain ⟨names₂, hsame₂, hothers⟩ := ih hnodes' hfirst.tables hsoundNodes
      exact ⟨names₂, hsame₁.trans hsame₂ hnode.grows, hfirst.append hothers hsame₂ hnodes.grows⟩

/-- The code of statements and of the parts of a conditional is the same up to names, with the same
labels. -/
theorem Lowers.corresponds {supply after other after' : Supply} {shape : Shape} {nodes : List Node}
    (h : Lowers supply shape nodes code after)
    (h' : Lowers other shape (nodes.map (Node.rename given)) code' after')
    (hlabels : other.labels = supply.labels)
    (htables : users.Translates given names supply.table other.table)
    (hsound : ∀ node ∈ nodes, node.IsSound users) :
    ∃ names', supply.table.Keeps names names' ∧
      Corresponds users given names' after.table after'.table code code' [] [] ∧
      after'.labels = after.labels := by
  induction h generalizing names other code' after' with
  | nil =>
    cases h'
    exact ⟨names, fun _ _ => rfl, .nil htables rfl nofun, hlabels⟩
  | noElse =>
    cases h'
    exact ⟨names, fun _ _ => rfl, .nil htables rfl nofun, hlabels⟩
  | assignment hvalue hnodes ih =>
    obtain ⟨hassignment, hothers⟩ := List.forall_mem_cons.1 hsound
    obtain ⟨⟨⟨-, -, entry, hfind, -⟩, -⟩, hchildren⟩ := isSound_iff.1 hassignment
    rw [List.map_cons, rename] at h'
    cases h' with
    | assignment hvalue' hnodes' =>
      obtain ⟨names₁, hsame₁, hoperand⟩ := hvalue.corresponds hvalue' htables
        (hchildren _ (.head _))
      obtain ⟨names₂, hsame₂, hrest, hlast⟩ := ih hnodes' hlabels hoperand.tables hothers
      have hcopy := hoperand.copy (Table.mem_iff_find?.2 ⟨entry, hfind⟩)
      refine ⟨names₂, hsame₁.trans hsame₂ hvalue.grows, ?_, hlast⟩
      simpa using hcopy.append hrest hsame₂ hnodes.grows
  | @output _ _ _ format _ _ _ _ _ _ _ harguments hnodes ih =>
    obtain ⟨houtput, hothers⟩ := List.forall_mem_cons.1 hsound
    obtain ⟨hformat, hsoundArguments⟩ := List.forall_mem_cons.1 (isSound_iff.1 houtput).2
    rw [List.map_cons, rename, rename, renameAll_eq] at h'
    cases h' with
    | output harguments' hnodes' =>
      obtain ⟨names₁, hsame₁, hoperands⟩ := harguments.corresponds harguments' htables
        hsoundArguments
      obtain ⟨names₂, hsame₂, hrest, hlast⟩ := ih hnodes' hlabels hoperands.tables hothers
      have htext : isVariable format = false := by
        rw [isVariable, (isSound_iff.1 hformat).1.2]
        rfl
      have hprinted := hoperands.printed htext
      refine ⟨names₂, hsame₁.trans hsame₂ harguments.grows, ?_, hlast⟩
      simpa using hprinted.append hrest hsame₂ hnodes.grows
  | @conditional supply _ _ _ _ _ _ _ hparts hnodes ihParts ihNodes =>
    obtain ⟨hconditional, hothers⟩ := List.forall_mem_cons.1 hsound
    rw [List.map_cons, rename, renameAll_eq] at h'
    cases h' with
    | conditional hparts' hnodes' =>
      rw [hlabels] at hparts'
      obtain ⟨names₁, hsame₁, hcode, hbetween⟩ := ihParts hparts' rfl htables
        (isSound_iff.1 hconditional).2
      obtain ⟨names₂, hsame₂, hrest, hlast⟩ := ihNodes hnodes' hbetween hcode.tables hothers
      have hlabel := hcode.plain [.label (Labels.nameOf (supply.labels + 1))] rfl rfl rfl
      refine ⟨names₂, hsame₁.trans hsame₂ hparts.grows, ?_, hlast⟩
      rw [hlabels]
      simpa using hlabel.append hrest hsame₂ hnodes.grows
  | @loop supply _ _ _ _ _ _ _ _ _ _ _ _ hcondition hbody hnodes ihBody ihNodes =>
    obtain ⟨hloop, hothers⟩ := List.forall_mem_cons.1 hsound
    obtain ⟨hsoundCondition, hblock⟩ := List.forall_mem_cons.1 (isSound_iff.1 hloop).2
    rw [List.map_cons, rename, rename, renameAll_eq] at h'
    cases h' with
    | loop hcondition' hbody' hnodes' =>
      rw [hlabels] at hbody'
      obtain ⟨names₁, hsame₁, hoperand⟩ := hcondition.corresponds hcondition' htables
        hsoundCondition
      obtain ⟨names₂, hsame₂, hinner, hbetween⟩ := ihBody hbody' rfl hoperand.tables
        (isSound_iff.1 (List.forall_mem_singleton.1 hblock)).2
      obtain ⟨names₃, hsame₃, hrest, hlast⟩ := ihNodes hnodes' hbetween hinner.tables hothers
      have hnone : Corresponds users given names supply.table other.table [] [] [] [] :=
        .nil htables rfl nofun
      have htop := hnone.plain [.label (Labels.nameOf (supply.labels + 1))] rfl rfl rfl
      have hopening := (htop.append hoperand hsame₁ hcondition.grows).opening
        (Labels.nameOf (supply.labels + 2)) (Labels.nameOf (supply.labels + 3))
      have hclosing := (hopening.append hinner hsame₂ hbody.grows).plain
        [.jump (Labels.nameOf (supply.labels + 1)), .label (Labels.nameOf (supply.labels + 3))]
        rfl rfl rfl
      refine ⟨names₃, hsame₁.trans (hsame₂.trans hsame₃ hbody.grows) hcondition.grows, ?_, hlast⟩
      rw [hlabels]
      simpa using hclosing.append hrest hsame₃ hnodes.grows
  | otherwise hitems ih =>
    rw [List.map_singleton, rename, renameAll_eq] at h'
    cases h' with
    | otherwise hitems' =>
      exact ih hitems' hlabels htables (isSound_iff.1 (List.forall_mem_singleton.1 hsound)).2
  | @branch supply _ _ _ final condition _ _ _ _ _ _ _ hcondition hbody hparts ihBody ihParts =>
    obtain ⟨hsoundCondition, hothers⟩ := List.forall_mem_cons.1 hsound
    obtain ⟨hblock, hsoundParts⟩ := List.forall_mem_cons.1 hothers
    rw [List.map_cons, List.map_cons, rename, renameAll_eq] at h'
    generalize htest : condition.rename given = test at h'
    cases h' with
    | branch hcondition' hbody' hparts' =>
      subst htest
      rw [hlabels] at hbody'
      obtain ⟨names₁, hsame₁, hoperand⟩ := hcondition.corresponds hcondition' htables
        hsoundCondition
      obtain ⟨names₂, hsame₂, hinner, hbetween⟩ := ihBody hbody' rfl hoperand.tables
        (isSound_iff.1 hblock).2
      obtain ⟨names₃, hsame₃, hrest, hlast⟩ := ihParts hparts' hbetween hinner.tables hsoundParts
      have hopening := hoperand.opening (Labels.nameOf (supply.labels + 1))
        (Labels.nameOf (supply.labels + 2))
      have hclosing := (hopening.append hinner hsame₂ hbody.grows).plain
        [.jump final, .label (Labels.nameOf (supply.labels + 2))] rfl rfl rfl
      refine ⟨names₃, hsame₁.trans (hsame₂.trans hsame₃ hbody.grows) hcondition.grows, ?_, hlast⟩
      rw [hlabels]
      simpa using hclosing.append hrest hsame₃ hparts.grows

end Node

/-! ## Lines -/

namespace Instruction

variable {names : String → String} {bound bound' : Nat} {instruction : Instruction}
  {code : List Instruction}

/-- A print is one of its own, whatever the names are. -/
theorem eq_print_of_rename {count : Int}
    (h : instruction.rename names = .call "printf" count none) :
    instruction = .call "printf" count none := by
  cases instruction with
  | call function found target =>
    cases target with
    | none => exact h
    | some => cases h
  | _ => cases h

/-- Names do not matter to whether code is read back from its lines. -/
theorem ofLine_rename_iff (h : ∀ instruction ∈ code, instruction.IsWritten bound)
    (h' : ∀ instruction ∈ code.map (rename names), instruction.IsWritten bound') :
    (∀ instruction ∈ code.map (rename names), ofLine instruction.text = .ok instruction) ↔
      ∀ instruction ∈ code, ofLine instruction.text = .ok instruction := by
  rw [List.forall_mem_map] at h' ⊢
  refine forall₂_congr fun instruction hmem => ?_
  rcases (h instruction hmem).print_or with hwritten | ⟨count, rfl⟩
  · rcases (h' instruction hmem).print_or with hwritten' | ⟨count, hprint⟩
    · exact iff_of_true hwritten'.ofLine_eq hwritten.ofLine_eq
    · rw [hprint, eq_print_of_rename hprint]
  · rfl

end Instruction

end ThreeAddress
