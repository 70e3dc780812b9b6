import ThreeAddress.Proofs.Analysis
import ThreeAddress.Proofs.Command.Ends
import ThreeAddress.Proofs.Compilation.Lines

/-!
# The command and the analysis

The command and the analysis compile the same text, but for whether C is wanted, and that is not
looked at before there is code (`Command.outcome_cases`). So they tell the same about a program
(`runCommand_analyze`): the status of the command is that of the kind of the diagnostic, and what
the command writes is what the answer holds.
-/

namespace ThreeAddress

/-- A request for everything there is to see of a program. -/
def AnalysisRequest.forAll (source : String) : AnalysisRequest :=
  { code := source, drawing := true, lines := true, c := true }

/-- The text of an output by an answer, and by the table of names where no answer tells it. -/
def AnalysisAnswer.text? (answer : AnalysisAnswer) (table : Table) : Output → Option String
  | .drawing => answer.drawing
  | .code => answer.code.map fun code => String.join (code.lines.map (· ++ "\n"))
  | .symbols => some table.listing
  | .c => answer.c

/-- Every output that is asked for has a path to its place, and no two have the same place. -/
structure Settings.HasPlaces (settings : Settings) (files : FileTree) (places : Output → Place) :
    Prop where
  target : ∀ output ∈ settings.outputs, ∃ path, settings.path? output = some path ∧
    files.target path = .ok (places output)
  distinct : (settings.outputs.map places).Nodup

namespace Outcome

/-- The outcome tells of an error what the diagnostic does: the status is that of the kind of the
diagnostic, and the files are as they were. -/
structure Refuses (outcome : Outcome) (files : FileTree) (diagnostic : Diagnostic) : Prop where
  files : outcome.files = files
  kind : diagnostic.kind ∈ ["lexer", "parser", "semantic", "internal"]
  grammar : outcome.exit = .status 2 ↔ diagnostic.kind = "lexer" ∨ diagnostic.kind = "parser"
  semantic : outcome.exit = .status 3 ↔ diagnostic.kind = "semantic"
  internal : outcome.exit = .status 4 ↔ diagnostic.kind = "internal"

/-- The outcome has every output that is asked for in the file at its path, unless that is a sink.
No other file has been written, and the directories are as they were. -/
structure Delivers (outcome : Outcome) (settings : Settings) (files : FileTree)
    (places : Output → Place) (text? : Output → Option String) : Prop where
  shape : files.SameShape outcome.files
  sinks : outcome.files.sinks = files.sinks
  others : ∀ place ∉ settings.outputs.map places, outcome.files.file? place = files.file? place
  written : ∀ output ∈ settings.outputs, ∃ path text, settings.path? output = some path ∧
    text? output = some text ∧
      (places output ∉ files.sinks → outcome.files.read path = .ok text.toUTF8)

end Outcome

/-! ## The same outcome -/

namespace Command

variable {budgets : Budgets} {words : List String} {files : FileTree} {settings : Settings}
  {source : String} {compilation : Compilation} {places : Output → Place}

/-- The command and the analysis end with the same error, or with the same compilation, whose C text
the command has if it is wanted. Otherwise C is not wanted, and emission fails for the analysis. -/
theorem outcome_cases (budgets : Budgets) (settings : Settings) (source : String) :
    (∃ error, outcome budgets settings source = .error error ∧
      (AnalysisRequest.forAll source).outcome budgets = .error error) ∨
    (∃ compilation c, outcome budgets settings source = .ok compilation ∧
      (AnalysisRequest.forAll source).outcome budgets = .ok (compilation.withC c) ∧
      (settings.noC = false → compilation.c = some c)) ∨
    settings.noC = true ∧ Instruction.leastLonger Instruction.maxCountDigits ≤ source.length := by
  have hfull : (AnalysisRequest.forAll source).outcome budgets = (compile budgets {} source).1 := by
    rw [AnalysisRequest.outcome, compile_eq, compile_eq]
    rfl
  cases hnoC : settings.noC with
  | false =>
    have hsame : (AnalysisRequest.forAll source).outcome budgets =
        outcome budgets settings source := by
      rw [hfull, outcome, hnoC]
      rfl
    cases houtcome : outcome budgets settings source with
    | error error => exact .inl ⟨error, rfl, hsame.trans houtcome⟩
    | ok compilation =>
      have hsome : compilation.c.isSome = true := by rw [isSome_c houtcome, hnoC]; rfl
      obtain ⟨c, hc⟩ := Option.isSome_iff_exists.1 hsome
      refine .inr (.inl ⟨compilation, c, rfl, ?_, fun _ => hc⟩)
      rw [hsame, houtcome, Compilation.withC, ← hc]
  | true =>
    have hwithC : IsWithC (outcome budgets settings source)
        ((AnalysisRequest.forAll source).outcome budgets) := by
      rw [hfull, outcome, hnoC]
      exact compile_withC budgets {} source
    have hlong (error : EmitError) :
        (AnalysisRequest.forAll source).outcome budgets = .error (.emit error) →
          Instruction.leastLonger Instruction.maxCountDigits ≤ source.length :=
      AnalysisRequest.length_of_emit
    generalize outcome budgets settings source = plain at hwithC ⊢
    generalize (AnalysisRequest.forAll source).outcome budgets = full at hwithC hlong ⊢
    cases hwithC with
    | failed error => exact .inl ⟨error, rfl, rfl⟩
    | emitted compilation c =>
      exact .inr (.inl ⟨compilation, c, rfl, rfl, fun hfalse => by cases hfalse⟩)
    | notEmitted compilation error => exact .inr (.inr ⟨rfl, hlong error rfl⟩)

/-! ## A program with an error -/

/-- The status for a report is that of the kind of its diagnostic. -/
theorem status_kind (report : Report) :
    let status := (Script.failure report).2
    let kind := (Diagnostic.ofReport report).kind
    (status = 2 ∧ (kind = "lexer" ∨ kind = "parser")) ∨ (status = 3 ∧ kind = "semantic") ∨
      (status = 4 ∧ kind = "internal") := by
  cases report with
  | lexical => exact .inl ⟨rfl, .inl rfl⟩
  | grammar => exact .inl ⟨rfl, .inr rfl⟩
  | semantic => exact .inr (.inl ⟨rfl, rfl⟩)
  | internal | lowering | emission | other | breakdown => exact .inr (.inr ⟨rfl, rfl⟩)

/-- An error is told by the status and by the diagnostic. -/
theorem refuses_of_error {outcome : Outcome} {report : Report}
    (hexit : outcome.exit = .status (Script.failure report).2) (hfiles : outcome.files = files) :
    outcome.Refuses files (Diagnostic.ofReport report) := by
  rcases status_kind report with ⟨hstatus, hkind | hkind⟩ | ⟨hstatus, hkind⟩ | ⟨hstatus, hkind⟩ <;>
    rw [hstatus] at hexit <;>
    exact ⟨hfiles, by simp [hkind], by simp [hexit, hkind], by simp [hexit, hkind],
      by simp [hexit, hkind]⟩

/-! ## A program that is compiled -/

/-- If all outputs have their places, the command ends well and has written them there. -/
theorem runCommand_of_places (hwords : Settings.ofWords words = .ok settings)
    (hreads : settings.Reads files source) (h : outcome budgets settings source = .ok compilation)
    (hplaces : settings.HasPlaces files places) :
    (runCommand budgets words files).exit = .status 0 ∧
      (runCommand budgets words files).files =
        files.writeAll places compilation.text settings.outputs := by
  constructor
  · have hnone : settings.outputs.findSome? (settings.refusal? files) = none :=
      List.findSome?_eq_none_iff.2 fun output houtput =>
        let ⟨path, hpath, htarget⟩ := hplaces.target output houtput
        Settings.refusal?_eq_none.2 ⟨path, places output, hpath, htarget⟩
    rw [runCommand_of_ok hwords hreads h, hnone]
    rfl
  · obtain ⟨warnings, hscript⟩ := ofSource_eq budgets settings source
    rw [runCommand_of_reads hwords hreads, hscript, h]
    exact (Script.writes_success (isSome_c h)).files_perform hplaces.target (.refl files)

/-- Outputs that have been written at their places are delivered. -/
theorem delivers_of_writeAll {outcome : Outcome} {text : Output → String}
    {text? : Output → Option String} (hplaces : settings.HasPlaces files places)
    (hfiles : outcome.files = files.writeAll places text settings.outputs)
    (htext : ∀ output ∈ settings.outputs, text? output = some (text output)) :
    outcome.Delivers settings files places text? := by
  obtain ⟨hwritten, hothers⟩ :=
    FileTree.file?_writeAll files text hplaces.distinct
  have hshape : files.SameShape outcome.files := by
    rw [hfiles]
    refine FileTree.sameShape_writeAll fun output houtput => ?_
    obtain ⟨path, -, htarget⟩ := hplaces.target output houtput
    exact (FileTree.hasDirectory_target htarget).1
  refine ⟨hshape, hfiles ▸ FileTree.sinks_writeAll .., hfiles ▸ hothers, fun output houtput => ?_⟩
  obtain ⟨path, hpath, htarget⟩ := hplaces.target output houtput
  refine ⟨path, text output, hpath, htext output houtput, fun hkept => ?_⟩
  exact FileTree.read_of_target (hshape.target_ok.2 htarget)
    (hfiles ▸ hwritten output houtput hkept)

/-- The answer holds the texts of the outputs that are asked for. -/
theorem text?_answer (source : String) {c : String}
    (hc : settings.noC = false → compilation.c = some c) :
    ∀ output ∈ settings.outputs,
      ((AnalysisRequest.forAll source).answer (.ok (compilation.withC c))).text? compilation.table
        output = some (compilation.text output) := by
  intro output houtput
  cases output with
  | drawing | code | symbols => rfl
  | c =>
    have hnoC : settings.noC = false := by
      by_contra hnoC
      simp [Settings.outputs, Settings.asksFor, hnoC] at houtput
    rw [Compilation.text, hc hnoC]
    rfl

/-- A text without carriage returns is read back from its bytes. -/
theorem decode?_toUTF8 {text : String} (h : '\r' ∉ text.toList) :
    Script.decode? text.toUTF8 = some text :=
  Script.decode?_eq_some.2 ⟨text, rfl, by rw [Text.unifyLineEnds_of_notMem h, String.ofList_toList]⟩

/-- The code is read back from its bytes, and its lines are found in it. -/
theorem decode?_code (h : outcome budgets settings source = .ok compilation) :
    Script.decode? (compilation.text .code).toUTF8 = some (compilation.text .code) ∧
      Text.splitLines (compilation.text .code).toList = compilation.lines.map String.toList := by
  obtain ⟨tree, state, builder, hfollows⟩ := compile_follows h
  have hlines := hfollows.isUnbroken_lines
  refine ⟨decode?_toUTF8 fun hreturn => ?_, Text.splitLines_join hlines⟩
  rw [Compilation.text, String.toList_join, List.flatMap_map] at hreturn
  obtain ⟨line, hline, hreturn⟩ := List.mem_flatMap.1 hreturn
  rw [String.toList_append, List.mem_append] at hreturn
  rcases hreturn with hreturn | hreturn
  · exact absurd (hlines line hline _ hreturn) (by decide)
  · exact absurd hreturn (by decide)

end Command

/-- The command and the analysis tell the same about a program. For all words that the command
understands as settings, if the file they name holds the program and the outputs they ask for have
different places: the command ends with the status zero iff the analysis finds nothing wrong.
Otherwise its status is that of the kind of the diagnostic, and no file is changed. If nothing is
wrong, the outputs are written as the answer tells them, and nothing else; the lines of the code are
found in what has been written. Only where C is not wanted, and the program has more characters than
any text there is, could the analysis find fault with the C text. -/
theorem runCommand_analyze {budgets : Budgets} {words : List String} {files : FileTree}
    {settings : Settings} {source : String} {places : Output → Place}
    (hwords : Settings.ofWords words = .ok settings)
    (hread : files.read settings.source = .ok source.toUTF8) (hfeeds : '\r' ∉ source.toList)
    (hplaces : settings.HasPlaces files places) :
    let outcome := runCommand budgets words files
    let answer := analyze budgets (.forAll source)
    ((outcome.exit = .status 0 ↔ answer.isOk = true) ∧
      (answer.isOk = false → ∃ diagnostic, answer.diagnostics = [diagnostic] ∧
        outcome.Refuses files diagnostic) ∧
      (answer.isOk = true → ∃ compilation,
        Command.outcome budgets settings source = .ok compilation ∧
        outcome.Delivers settings files places (answer.text? compilation.table) ∧
        ∃ code text, answer.code = some code ∧ answer.text? compilation.table .code = some text ∧
          Script.decode? text.toUTF8 = some text ∧
          Text.splitLines text.toList = code.lines.map String.toList)) ∨
    settings.noC = true ∧ Instruction.leastLonger Instruction.maxCountDigits ≤ source.length := by
  have hreads : settings.Reads files source :=
    ⟨source, hread, by rw [Text.unifyLineEnds_of_notMem hfeeds, String.ofList_toList]⟩
  intro outcome answer
  have hanswer : answer =
      (AnalysisRequest.forAll source).answer ((AnalysisRequest.forAll source).outcome budgets) :=
    AnalysisRequest.analyze_eq budgets _
  rcases Command.outcome_cases budgets settings source with
    ⟨error, herror, hfull⟩ | ⟨compilation, c, hok, hfull, hc⟩ | hlong
  · obtain ⟨hexit, hfiles⟩ := Command.runCommand_of_error hwords hreads herror
    rw [hfull] at hanswer
    have hrefuses := Command.refuses_of_error hexit hfiles
    refine .inl ⟨?_, fun _ => ⟨_, by rw [hanswer]; rfl, hrefuses⟩, fun hisOk => ?_⟩
    · refine iff_of_false (fun hzero => ?_) (by rw [hanswer]; nofun)
      have hstatus := hexit.symm.trans hzero
      rcases Command.status_failure error.report with h | h | h <;> rw [h] at hstatus <;>
        cases hstatus
    · rw [hanswer] at hisOk
      cases hisOk
  · obtain ⟨hexit, hfiles⟩ := Command.runCommand_of_places hwords hreads hok hplaces
    rw [hfull] at hanswer
    refine .inl ⟨iff_of_true hexit (by rw [hanswer]; rfl), fun hisOk => ?_, fun _ => ?_⟩
    · rw [hanswer] at hisOk
      cases hisOk
    · obtain ⟨hdecode, hsplit⟩ := Command.decode?_code hok
      rw [hanswer]
      have hdelivers := Command.delivers_of_writeAll hplaces hfiles
        (Command.text?_answer source hc)
      exact ⟨compilation, hok, hdelivers, _, _, rfl, rfl, hdecode, hsplit⟩
  · exact .inr hlong

/-- A program of which all four outputs are wanted, and one with an error. -/
theorem runCommand_analyze_outputs :
    let words := ["p.src", "out.c", "--dot", "t.dot", "--symbols=s.json"]
    let files (source : String) : FileTree := ⟨["w"], [], [(["w", "p.src"], source.toUTF8)], []⟩
    let outcome (source : String) := runCommand {} words (files source)
    let source := "let x = 7 % 2;"
    let wrong := "let x = 7; x = 2;"
    ((analyze {} (.forAll source)).isOk = true ∧ (outcome source).exit = .status 0 ∧
      (outcome source).files.read "output.tac" = .ok "t1 = 7 % 2\nx = t1\n".toUTF8 ∧
      ∃ c, (analyze {} (.forAll source)).c = some c ∧
        (outcome source).files.read "out.c" = .ok c.toUTF8) ∧
    (analyze {} (.forAll wrong)).diagnostics.map (·.kind) = ["semantic"] ∧
      (outcome wrong).exit = .status 3 ∧ (outcome wrong).files = files wrong := by
  intro words files outcome source wrong
  let settings : Settings :=
    { source := "p.src", output := "out.c", dot := some "t.dot", symbols := some "s.json" }
  let places : Output → Place
    | .drawing => ["w", "t.dot"]
    | .code => ["w", "output.tac"]
    | .symbols => ["w", "s.json"]
    | .c => ["w", "out.c"]
  have hwords : Settings.ofWords words = .ok settings := by decide +kernel
  have hread : ∀ text ∈ [source, wrong],
      (files text).read settings.source = .ok text.toUTF8 := by decide +kernel
  have htarget : ∀ text ∈ [source, wrong], ∀ output ∈ settings.outputs,
      (settings.path? output).map (files text).target = some (.ok (places output)) := by
    decide +kernel
  have hplaces (text : String) (hmem : text ∈ [source, wrong]) :
      settings.HasPlaces (files text) places :=
    ⟨fun output houtput => Option.map_eq_some_iff.1 (htarget text hmem output houtput), by decide⟩
  obtain ⟨hzero, -, hdelivered⟩ := (@runCommand_analyze {} _ _ _ _ _ hwords
    (hread source (.head _)) (by decide) (hplaces source (.head _))).resolve_right nofun
  obtain ⟨-, hrefused, -⟩ := (@runCommand_analyze {} _ _ _ _ _ hwords
    (hread wrong (.tail _ (.head _))) (by decide)
    (hplaces wrong (.tail _ (.head _)))).resolve_right nofun
  have hisOk : (analyze {} (.forAll source)).isOk = true := by decide +kernel
  have hlines : (analyze {} (.forAll source)).code.map (·.lines) =
      some ["t1 = 7 % 2", "x = t1"] := by decide +kernel
  have hkind : (analyze {} (.forAll wrong)).diagnostics.map (·.kind) = ["semantic"] := by
    decide +kernel
  obtain ⟨compilation, -, hdelivers, -⟩ := hdelivered hisOk
  refine ⟨⟨hisOk, hzero.2 hisOk, ?_, ?_⟩, hkind, ?_⟩
  · obtain ⟨path, text, hpath, htext, hwritten⟩ := hdelivers.written .code (by decide)
    cases hpath
    obtain ⟨code, hcode, rfl⟩ := Option.map_eq_some_iff.1 htext
    rw [hcode] at hlines
    have hcode : code.lines = ["t1 = 7 % 2", "x = t1"] := Option.some.inj hlines
    rw [hcode] at hwritten
    exact hwritten (by decide)
  · obtain ⟨path, c, hpath, hc, hwritten⟩ := hdelivers.written .c (by decide)
    cases hpath
    exact ⟨c, hc, hwritten (by decide)⟩
  · obtain ⟨diagnostic, hdiagnostic, hrefuses⟩ := hrefused (by decide +kernel)
    rw [hdiagnostic] at hkind
    exact ⟨hrefuses.semantic.2 (List.singleton_inj.1 hkind), hrefuses.files⟩

end ThreeAddress
