import ThreeAddress.Command.Script
import ThreeAddress.Proofs.Command.Files

/-!
# What the command writes

After a compilation the command writes up to four outputs one after the other, and prints lines in
between (`Script.writes_success`). How this ends is decided by the first output that cannot be
written (`Script.Writes.exit_perform`), and that is known before anything is written. If there is
none and the outputs have different places, each of them is in its place at the end, and all other
files are as they were (`FileTree.file?_writeAll`).
-/

namespace ThreeAddress

/-- What the command may write. -/
inductive Output where
  | drawing | code | symbols | c
  deriving DecidableEq, Repr

namespace Settings

/-- Whether a path asks for an output that may be left out; an empty one does not. -/
def asksFor (path : Option String) : Bool := path.any (· ≠ "")

/-- The outputs that are asked for, in the order in which they are written. -/
def outputs (settings : Settings) : List Output :=
  (if asksFor settings.dot then [.drawing] else []) ++ [.code] ++
    (if asksFor settings.symbols then [.symbols] else []) ++ if settings.noC then [] else [.c]

/-- The path for an output. -/
def path? (settings : Settings) : Output → Option String
  | .drawing => settings.dot
  | .code => settings.tac
  | .symbols => settings.symbols
  | .c => some settings.output

/-- Why an output cannot be written, if so. -/
def refusal? (settings : Settings) (files : FileTree) (output : Output) : Option Exit :=
  match settings.path? output with
  | none => some .noPath
  | some path =>
    match files.target path with
    | .ok _ => none
    | .error .zeroInPath => some .badPath
    | .error _ => some (.status 1)

end Settings

/-- The text of an output. -/
def Compilation.text (compilation : Compilation) : Output → String
  | .drawing => compilation.root.drawing
  | .code => String.join (compilation.lines.map (· ++ "\n"))
  | .symbols => compilation.table.listing
  | .c => compilation.c.getD ""

/-! ## The script -/

namespace Script

/-- The steps write these outputs one after the other and print lines in between. An output without
a path is where they end. -/
inductive Writes (settings : Settings) (compilation : Compilation) :
    List Output → List Action → Prop where
  | nil : Writes settings compilation [] []
  | say {outputs : List Output} {actions : List Action} (line : String) :
      Writes settings compilation outputs actions →
      Writes settings compilation outputs (.say line :: actions)
  | write {outputs : List Output} {actions : List Action} {path : String} (output : Output) :
      settings.path? output = some path → Writes settings compilation outputs actions →
      Writes settings compilation (output :: outputs)
        (.write path (compilation.text output) :: actions)
  | halt {outputs : List Output} {actions : List Action} {output : Output} :
      settings.path? output = none →
      Writes settings compilation (output :: outputs) (.halt .noPath :: actions)

variable {settings : Settings} {compilation : Compilation} {outputs others : List Output}
  {actions rest : List Action}

namespace Writes

/-- Steps and more steps. -/
theorem append (h : Writes settings compilation outputs actions)
    (h' : Writes settings compilation others rest) :
    Writes settings compilation (outputs ++ others) (actions ++ rest) := by
  induction h with
  | nil => exact h'
  | say line _ ih => exact ih.say line
  | write output hpath _ ih => exact ih.write output hpath
  | halt hpath => exact .halt hpath

/-- Lines only. -/
theorem sayAll (lines : List String) : Writes settings compilation [] (lines.map .say) := by
  induction lines with
  | nil => exact .nil
  | cons line lines ih => exact ih.say line

/-- An output that may be left out. -/
theorem optional {path : Option String} {steps : String → List Action} {output : Output}
    (h : ∀ text, path = some text → Writes settings compilation [output] (steps text)) :
    Writes settings compilation (if Settings.asksFor path then [output] else [])
      (Script.optional path steps) := by
  cases path with
  | none => exact .nil
  | some text =>
    by_cases hempty : text = ""
    · subst hempty
      exact .nil
    · rw [if_pos (by simpa [Settings.asksFor] using hempty), Script.optional, if_neg hempty]
      exact h text rfl

end Writes

/-- The steps for the code. -/
theorem writes_code (settings : Settings) (compilation : Compilation) :
    Writes settings compilation [.code] (code compilation settings.tac) := by
  cases htac : settings.tac with
  | none => exact .halt htac
  | some path =>
    have hremarks : Writes settings compilation [] (if compilation.problems.isEmpty
        then [.say "✓ TAC validation passed"]
        else .say "\n⚠ TAC Validation Warnings:" ::
          compilation.problems.map fun problem => .say ("  - " ++ problem)) := by
      split
      · exact .sayAll ["✓ TAC validation passed"]
      · have hproblems : Writes settings compilation []
            ((compilation.problems.map ("  - " ++ ·)).map .say) := .sayAll _
        rw [List.map_map] at hproblems
        exact hproblems.say _
    exact .write .code htac ((hremarks.say _).say _)

/-- The steps after a compilation write the outputs that are asked for. -/
theorem writes_success (h : compilation.c.isSome = !settings.noC) :
    Writes settings compilation settings.outputs (success settings compilation) := by
  have hdrawing : Writes settings compilation
      (if Settings.asksFor settings.dot then [.drawing] else [])
      (optional settings.dot (drawing compilation)) :=
    .optional fun path hpath => .write .drawing hpath (.say _ .nil)
  have hsymbols : Writes settings compilation
      (if Settings.asksFor settings.symbols then [.symbols] else [])
      (optional settings.symbols (symbols compilation)) :=
    .optional fun path hpath => .write .symbols hpath (.say _ .nil)
  have hc : Writes settings compilation (if settings.noC then [] else [.c])
      (c compilation settings.output) := by
    rw [c]
    cases htext : compilation.c with
    | none =>
      rw [if_pos (by simpa [htext] using h)]
      exact .nil
    | some text =>
      have hoverall : compilation.text .c = text := by rw [Compilation.text, htext]; rfl
      rw [if_neg (by simpa [htext] using h), ← hoverall]
      exact .write .c rfl (.say _ .nil)
  have hnumbers : Writes settings compilation [] (numbers compilation) :=
    .say _ (.say _ (.say _ (.say _ .nil)))
  have hall := (hdrawing.append (writes_code settings compilation)).append hsymbols
  have hmost := (hall.append hc).append hnumbers
  rw [List.append_nil] at hmost
  exact .say _ hmost

end Script

/-! ## The run -/

namespace FileTree

/-- The tree with outputs written at their places. -/
def writeAll (tree : FileTree) (places : Output → Place) (text : Output → String)
    (outputs : List Output) : FileTree :=
  outputs.foldl (fun tree output => tree.put (places output) (text output).toUTF8) tree

end FileTree

namespace Script.Writes

open Outcome (perform)

variable {settings : Settings} {compilation : Compilation} {outputs : List Output}
  {actions : List Action} {files : FileTree} {outcome : Outcome} {status : Nat}

/-- The first output that cannot be written decides how the script ends; without such an output it
ends with its own status. That other outputs have been written before makes no difference. -/
theorem exit_perform (h : Writes settings compilation outputs actions)
    (hshape : files.SameShape outcome.files) :
    (perform status actions outcome).exit =
      (outputs.findSome? (settings.refusal? files)).getD (.status status) := by
  induction h generalizing outcome with
  | nil => rfl
  | say line _ ih => exact ih hshape
  | halt hpath =>
    rw [List.findSome?_cons, Settings.refusal?, hpath]
    rfl
  | @write _ _ path output hpath _ ih =>
    rw [List.findSome?_cons, Settings.refusal?, hpath]
    dsimp only
    rw [perform, FileTree.write_eq]
    cases htarget : outcome.files.target path with
    | ok place =>
      rw [hshape.target_ok.1 htarget]
      exact ih (hshape.trans (FileTree.sameShape_put (FileTree.hasDirectory_target htarget).1 _))
    | error error =>
      cases hfirst : files.target path with
      | ok place => cases htarget.symm.trans (hshape.target_ok.2 hfirst)
      | error error' =>
        -- The reasons may differ, but not in whether it is a zero in the path.
        have hzero : error = .zeroInPath ↔ error' = .zeroInPath := by
          have hiff := (outcome.files.target_zero_iff path).trans
            (files.target_zero_iff path).symm
          simpa [htarget, hfirst] using hiff
        cases error <;> cases error' <;> simp_all [Except.map]

/-- Outputs that can all be written are written at their places, one after the other. -/
theorem files_perform {places : Output → Place} (h : Writes settings compilation outputs actions)
    (hplaces : ∀ output ∈ outputs, ∃ path, settings.path? output = some path ∧
      files.target path = .ok (places output)) (hshape : files.SameShape outcome.files) :
    (perform status actions outcome).files =
      outcome.files.writeAll places compilation.text outputs := by
  induction h generalizing outcome with
  | nil => rfl
  | say line _ ih => exact ih hplaces hshape
  | halt hpath =>
    obtain ⟨path, hsome, -⟩ := hplaces _ (.head _)
    cases hpath.symm.trans hsome
  | write output hpath _ ih =>
    obtain ⟨⟨path, hsome, hfirst⟩, hothers⟩ := List.forall_mem_cons.1 hplaces
    cases hpath.symm.trans hsome
    have htarget := hshape.target_ok.2 hfirst
    rw [perform, FileTree.write_eq, htarget]
    exact ih hothers
      (hshape.trans (FileTree.sameShape_put (FileTree.hasDirectory_target htarget).1 _))

end Script.Writes

namespace FileTree

variable {places : Output → Place} {outputs : List Output}

/-- No file becomes a sink or is none any more. -/
theorem sinks_writeAll (tree : FileTree) (places : Output → Place) (text : Output → String)
    (outputs : List Output) : (tree.writeAll places text outputs).sinks = tree.sinks := by
  induction outputs generalizing tree with
  | nil => rfl
  | cons output outputs ih => exact (ih _).trans (sinks_put tree _ _)

/-- Outputs with different places are all there in the end, except in sinks, and the other files are
as they were. -/
theorem file?_writeAll (tree : FileTree) (text : Output → String)
    (hdistinct : (outputs.map places).Nodup) :
    (∀ output ∈ outputs, places output ∉ tree.sinks →
      (tree.writeAll places text outputs).file? (places output) = some (text output).toUTF8) ∧
    ∀ place ∉ outputs.map places, (tree.writeAll places text outputs).file? place =
      tree.file? place := by
  induction outputs generalizing tree with
  | nil => exact ⟨nofun, fun _ _ => rfl⟩
  | cons output outputs ih =>
    rw [List.map_cons, List.nodup_cons] at hdistinct
    obtain ⟨hnew, hdistinct⟩ := hdistinct
    obtain ⟨hwritten, hsame⟩ := ih (tree.put (places output) (text output).toUTF8) hdistinct
    rw [sinks_put] at hwritten
    refine ⟨List.forall_mem_cons.2 ⟨fun hkept => ?_, hwritten⟩, fun place hplace => ?_⟩
    · exact (hsame _ hnew).trans (file?_put_self hkept)
    · rw [List.map_cons, List.mem_cons, not_or] at hplace
      exact (hsame place hplace.2).trans (file?_put_of_ne hplace.1)

/-- Writing outputs changes no directory, as each of them has its place in one. -/
theorem sameShape_writeAll {tree : FileTree} {text : Output → String} (h : ∀ output ∈ outputs,
    tree.hasDirectory (places output).dropLast = true) :
    tree.SameShape (tree.writeAll places text outputs) := by
  induction outputs generalizing tree with
  | nil => exact .refl tree
  | cons output outputs ih =>
    obtain ⟨hself, hothers⟩ := List.forall_mem_cons.1 h
    have hput := sameShape_put hself (text output).toUTF8
    refine hput.trans (ih fun other hother => ?_)
    rw [hput.hasDirectory]
    exact hothers other hother

end FileTree

end ThreeAddress
