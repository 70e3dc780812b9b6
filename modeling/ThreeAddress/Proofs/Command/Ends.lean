import ThreeAddress.Proofs.Command.Outputs
import ThreeAddress.Proofs.Compilation.Stages

/-!
# How the command ends

The rules by which the command ends (`Command.Ends`) are complete and exclude each other
(`Command.ends_iff`). Most of them give it a status from zero to four. But it breaks off when the
source is no UTF-8 text, when a path holds a zero, and when there is no path for the code
(`runCommand_ends`).
-/

namespace ThreeAddress

/-! ## Texts in files -/

namespace Script

/-- Bytes are decoded to a text that they are the UTF-8 form of. -/
theorem fromUTF8?_eq_some {bytes : ByteArray} {text : String} :
    String.fromUTF8? bytes = some text ↔ text.toUTF8 = bytes := by
  rw [String.fromUTF8?]
  constructor
  · intro h
    split at h
    · cases h
      rfl
    · cases h
  · rintro rfl
    exact dif_pos text.isValidUTF8

/-- A source file is read as the text that its bytes stand for, with every line end a line feed. -/
theorem decode?_eq_some {bytes : ByteArray} {source : String} : decode? bytes = some source ↔
    ∃ text : String, text.toUTF8 = bytes ∧
      String.ofList (Text.unifyLineEnds text.toList) = source := by
  simp only [decode?, Option.map_eq_some_iff, fromUTF8?_eq_some]

/-- A source file is not read if its bytes stand for no text. -/
theorem decode?_eq_none {bytes : ByteArray} :
    decode? bytes = none ↔ ∀ text : String, text.toUTF8 ≠ bytes := by
  rw [decode?, Option.map_eq_none_iff, Option.eq_none_iff_forall_ne_some]
  exact forall_congr' fun text => fromUTF8?_eq_some.not

end Script

/-- The file that the settings name holds this source, when every line end in it is a line feed. -/
def Settings.Reads (settings : Settings) (files : FileTree) (source : String) : Prop :=
  ∃ text : String, files.read settings.source = .ok text.toUTF8 ∧
    String.ofList (Text.unifyLineEnds text.toList) = source

/-! ## The rules -/

namespace Command

/-- The outcome of compiling a source for the command. -/
def outcome (budgets : Budgets) (settings : Settings) (source : String) :
    Except CompileError Compilation :=
  (compile budgets { emitC := !settings.noC } source).1

/-- How the command ends. -/
inductive Ends (budgets : Budgets) (words : List String) (files : FileTree) : Exit → Prop where
  | help : Settings.ofWords words = .error .help → Ends budgets words files (.status 0)
  | usage : Settings.ofWords words = .error .usage → Ends budgets words files (.status 1)
  | badSource {settings : Settings} : Settings.ofWords words = .ok settings →
      '\x00' ∈ settings.source.toList → Ends budgets words files .badPath
  | unreadable {settings : Settings} {error : FileError} : Settings.ofWords words = .ok settings →
      files.read settings.source = .error error → error ≠ .zeroInPath →
      Ends budgets words files (.status 1)
  | notText {settings : Settings} {bytes : ByteArray} : Settings.ofWords words = .ok settings →
      files.read settings.source = .ok bytes → (∀ text : String, text.toUTF8 ≠ bytes) →
      Ends budgets words files .notText
  | failed {settings : Settings} {source : String} {error : CompileError} :
      Settings.ofWords words = .ok settings → settings.Reads files source →
      outcome budgets settings source = .error error →
      Ends budgets words files (.status (Script.failure error.report).2)
  | refused {settings : Settings} {source : String} {compilation : Compilation} {exit : Exit} :
      Settings.ofWords words = .ok settings → settings.Reads files source →
      outcome budgets settings source = .ok compilation →
      settings.outputs.findSome? (settings.refusal? files) = some exit →
      Ends budgets words files exit
  | done {settings : Settings} {source : String} {compilation : Compilation} :
      Settings.ofWords words = .ok settings → settings.Reads files source →
      outcome budgets settings source = .ok compilation →
      (∀ output ∈ settings.outputs, settings.refusal? files output = none) →
      Ends budgets words files (.status 0)

variable {budgets : Budgets} {words : List String} {files : FileTree} {settings : Settings}
  {source : String} {compilation : Compilation} {error : CompileError} {exit : Exit}

/-- There is a C text unless it is not wanted. -/
theorem isSome_c (h : outcome budgets settings source = .ok compilation) :
    compilation.c.isSome = !settings.noC := by
  obtain ⟨tree, state, builder, hfollows⟩ := compile_follows h
  have hemitted := hfollows.emitted
  cases hnoC : settings.noC with
  | true =>
    rw [if_neg (by simp [hnoC])] at hemitted
    rw [hemitted]
    rfl
  | false =>
    rw [if_pos (by simp [hnoC])] at hemitted
    obtain ⟨unit, counts, -, hc⟩ := hemitted
    rw [hc]
    rfl

/-- The script for a source depends on the outcome of compiling it, but for the warnings. -/
theorem ofSource_eq (budgets : Budgets) (settings : Settings) (source : String) :
    ∃ warnings, Script.ofSource budgets settings source =
      match outcome budgets settings source with
      | .ok compilation => ⟨warnings, Script.success settings compilation, 0⟩
      | .error error => ⟨warnings, [], (Script.failure error.report).2⟩ := by
  delta Script.ofSource outcome
  generalize compile budgets { emitC := !settings.noC } source = compiled
  obtain ⟨result, journal⟩ := compiled
  cases result <;> exact ⟨_, rfl⟩

/-- Once the source is read, what the command does is in the script for it. -/
theorem runCommand_of_reads (hwords : Settings.ofWords words = .ok settings)
    (hreads : settings.Reads files source) :
    runCommand budgets words files = .ofScript (Script.ofSource budgets settings source) files := by
  obtain ⟨text, hread, rfl⟩ := hreads
  rw [runCommand, hwords]
  dsimp only
  rw [hread]
  dsimp only
  rw [Script.decode?_eq_some.2 ⟨text, rfl, rfl⟩]

/-- A source with an error leaves the files as they are. -/
theorem runCommand_of_error (hwords : Settings.ofWords words = .ok settings)
    (hreads : settings.Reads files source) (h : outcome budgets settings source = .error error) :
    (runCommand budgets words files).exit = .status (Script.failure error.report).2 ∧
      (runCommand budgets words files).files = files := by
  obtain ⟨warnings, hscript⟩ := ofSource_eq budgets settings source
  rw [runCommand_of_reads hwords hreads, hscript, h]
  exact ⟨rfl, rfl⟩

/-- The end after a compilation is decided by the first output that cannot be written. -/
theorem runCommand_of_ok (hwords : Settings.ofWords words = .ok settings)
    (hreads : settings.Reads files source) (h : outcome budgets settings source = .ok compilation) :
    (runCommand budgets words files).exit =
      (settings.outputs.findSome? (settings.refusal? files)).getD (.status 0) := by
  obtain ⟨warnings, hscript⟩ := ofSource_eq budgets settings source
  rw [runCommand_of_reads hwords hreads, hscript, h]
  exact (Script.writes_success (isSome_c h)).exit_perform (.refl files)

/-- A source file that cannot be read leaves the files as they are. -/
theorem runCommand_of_unreadable (budgets : Budgets)
    (hwords : Settings.ofWords words = .ok settings)
    (h : ∀ text : String, files.read settings.source ≠ .ok text.toUTF8) :
    (runCommand budgets words files).files = files ∧
      (runCommand budgets words files).stdout = "" := by
  rw [runCommand, hwords]
  dsimp only
  cases hread : files.read settings.source with
  | error error => cases error <;> exact ⟨rfl, rfl⟩
  | ok bytes =>
    have hnone : Script.decode? bytes = none :=
      Script.decode?_eq_none.2 fun text htext => h text (htext ▸ hread)
    dsimp only
    rw [hnone]
    exact ⟨rfl, rfl⟩

/-- The command ends as the rules say. -/
theorem Ends.exit_eq (h : Ends budgets words files exit) :
    (runCommand budgets words files).exit = exit := by
  cases h with
  | help hwords | usage hwords =>
    rw [runCommand, hwords]
    rfl
  | badSource hwords hzero =>
    rw [runCommand, hwords]
    dsimp only
    rw [FileTree.read_zero_iff.2 hzero]
    rfl
  | @unreadable settings error hwords hread hzero =>
    rw [runCommand, hwords]
    dsimp only
    rw [hread]
    cases error with
    | zeroInPath => exact absurd rfl hzero
    | _ => rfl
  | notText hwords hread htext =>
    rw [runCommand, hwords]
    dsimp only
    rw [hread]
    dsimp only
    rw [Script.decode?_eq_none.2 htext]
    rfl
  | failed hwords hreads h => exact (runCommand_of_error hwords hreads h).1
  | refused hwords hreads h hrefused => rw [runCommand_of_ok hwords hreads h, hrefused]; rfl
  | done hwords hreads h hall =>
    rw [runCommand_of_ok hwords hreads h, List.findSome?_eq_none_iff.2 hall]
    rfl

/-- There is a rule for every command. -/
theorem exists_ends (budgets : Budgets) (words : List String) (files : FileTree) :
    ∃ exit, Ends budgets words files exit := by
  cases hwords : Settings.ofWords words with
  | error error =>
    cases error with
    | usage => exact ⟨_, .usage hwords⟩
    | help => exact ⟨_, .help hwords⟩
  | ok settings =>
    cases hread : files.read settings.source with
    | error error =>
      by_cases hzero : error = .zeroInPath
      · exact ⟨_, .badSource hwords (FileTree.read_zero_iff.1 (hzero ▸ hread))⟩
      · exact ⟨_, .unreadable hwords hread hzero⟩
    | ok bytes =>
      cases hdecode : Script.decode? bytes with
      | none => exact ⟨_, .notText hwords hread (Script.decode?_eq_none.1 hdecode)⟩
      | some source =>
        obtain ⟨text, rfl, hsource⟩ := Script.decode?_eq_some.1 hdecode
        have hreads : settings.Reads files source := ⟨text, hread, hsource⟩
        cases houtcome : outcome budgets settings source with
        | error error => exact ⟨_, .failed hwords hreads houtcome⟩
        | ok compilation =>
          cases hrefused : settings.outputs.findSome? (settings.refusal? files) with
          | some exit => exact ⟨_, .refused hwords hreads houtcome hrefused⟩
          | none =>
            exact ⟨_, .done hwords hreads houtcome (List.findSome?_eq_none_iff.1 hrefused)⟩

/-- The rules are complete and exclude each other. -/
theorem ends_iff :
    Ends budgets words files exit ↔ (runCommand budgets words files).exit = exit := by
  refine ⟨Ends.exit_eq, ?_⟩
  rintro rfl
  obtain ⟨exit, h⟩ := exists_ends budgets words files
  exact h.exit_eq ▸ h

end Command

/-! ## Outputs that cannot be written -/

namespace Settings

variable {settings : Settings} {files : FileTree} {output : Output}

/-- An output can be written if it has a path that leads to a place for it. -/
theorem refusal?_eq_none : settings.refusal? files output = none ↔
    ∃ path place, settings.path? output = some path ∧ files.target path = .ok place := by
  rw [refusal?]
  cases settings.path? output with
  | none => simp
  | some path =>
    cases htarget : files.target path with
    | ok place => simp [htarget]
    | error error => cases error <;> simp [htarget]

/-- The command breaks off at an output whose path holds a zero. -/
theorem refusal?_eq_badPath : settings.refusal? files output = some .badPath ↔
    ∃ path, settings.path? output = some path ∧ '\x00' ∈ path.toList := by
  rw [refusal?]
  cases settings.path? output with
  | none => simp
  | some path =>
    simp only [Option.some.injEq, exists_eq_left', ← files.target_zero_iff]
    cases htarget : files.target path with
    | ok place => simp
    | error error => cases error <;> simp

/-- The command breaks off at an output without a path. -/
theorem refusal?_eq_noPath : settings.refusal? files output = some .noPath ↔
    settings.path? output = none := by
  rw [refusal?]
  cases settings.path? output with
  | none => simp
  | some path =>
    cases htarget : files.target path with
    | ok place => simp [htarget]
    | error error => cases error <;> simp [htarget]

/-- At any other output that cannot be written the command ends with the status one. -/
theorem refusal?_cases {exit : Exit} (h : settings.refusal? files output = some exit) :
    exit = .status 1 ∨ exit = .badPath ∨ exit = .noPath := by
  rw [refusal?] at h
  split at h
  · cases h
    exact .inr (.inr rfl)
  · split at h <;> cases h
    · exact .inr (.inl rfl)
    · exact .inl rfl

end Settings

namespace Command

variable {budgets : Budgets} {words : List String} {files : FileTree} {exit : Exit}

/-- The source is compiled, and among the outputs that are asked for there is one with this path in
front of which all can be written. -/
def Reaches (budgets : Budgets) (words : List String) (files : FileTree) (path : Option String) :
    Prop :=
  ∃ settings source compilation front output behind, Settings.ofWords words = .ok settings ∧
    settings.Reads files source ∧ outcome budgets settings source = .ok compilation ∧
    settings.outputs = front ++ output :: behind ∧ settings.path? output = path ∧
    ∀ earlier ∈ front, ∃ path place, settings.path? earlier = some path ∧
      files.target path = .ok place

/-- The command ends at an output that it reaches and that cannot be written. -/
theorem Reaches.ends {path : Option String} (h : Reaches budgets words files path) (exit : Exit) :
    ∃ (settings : Settings) (output : Output), settings.path? output = path ∧
      (settings.refusal? files output = some exit → Ends budgets words files exit) := by
  obtain ⟨settings, source, compilation, front, output, behind, hwords, hreads, houtcome, heq,
    hpath, hfront⟩ := h
  refine ⟨settings, output, hpath, fun hrefused => .refused hwords hreads houtcome ?_⟩
  rw [heq, List.findSome?_append, List.findSome?_cons, hrefused,
    List.findSome?_eq_none_iff.2 fun earlier hearlier =>
      Settings.refusal?_eq_none.2 (hfront earlier hearlier)]
  rfl

/-- The output that the command ends at is reached. -/
theorem reaches_of_refused {settings : Settings} {source : String} {compilation : Compilation}
    (hwords : Settings.ofWords words = .ok settings) (hreads : settings.Reads files source)
    (houtcome : outcome budgets settings source = .ok compilation)
    (h : settings.outputs.findSome? (settings.refusal? files) = some exit) :
    ∃ output, settings.refusal? files output = some exit ∧
      Reaches budgets words files (settings.path? output) := by
  obtain ⟨front, output, behind, heq, hrefused, hfront⟩ := List.findSome?_eq_some_iff.1 h
  exact ⟨output, hrefused, settings, source, compilation, front, output, behind, hwords, hreads,
    houtcome, heq, rfl, fun earlier hearlier =>
      Settings.refusal?_eq_none.1 (hfront earlier hearlier)⟩

/-- The command breaks off because of a zero in the path of the source or of an output that it
reaches. -/
theorem ends_badPath_iff : Ends budgets words files .badPath ↔
    (∃ settings, Settings.ofWords words = .ok settings ∧ '\x00' ∈ settings.source.toList) ∨
      ∃ path, Reaches budgets words files (some path) ∧ '\x00' ∈ path.toList := by
  constructor
  · intro h
    cases h with
    | badSource hwords hzero => exact .inl ⟨_, hwords, hzero⟩
    | refused hwords hreads houtcome h =>
      obtain ⟨output, hrefused, hreaches⟩ := reaches_of_refused hwords hreads houtcome h
      obtain ⟨path, hpath, hzero⟩ := Settings.refusal?_eq_badPath.1 hrefused
      exact .inr ⟨path, hpath ▸ hreaches, hzero⟩
  · rintro (⟨settings, hwords, hzero⟩ | ⟨path, hreaches, hzero⟩)
    · exact .badSource hwords hzero
    · obtain ⟨settings, output, hpath, hends⟩ := hreaches.ends .badPath
      exact hends (Settings.refusal?_eq_badPath.2 ⟨path, hpath, hzero⟩)

/-- The command breaks off at an output without a path. -/
theorem ends_noPath_iff :
    Ends budgets words files .noPath ↔ Reaches budgets words files none := by
  constructor
  · intro h
    cases h with
    | refused hwords hreads houtcome h =>
      obtain ⟨output, hrefused, hreaches⟩ := reaches_of_refused hwords hreads houtcome h
      exact Settings.refusal?_eq_noPath.1 hrefused ▸ hreaches
  · intro hreaches
    obtain ⟨settings, output, hpath, hends⟩ := hreaches.ends .noPath
    exact hends (Settings.refusal?_eq_noPath.2 hpath)

/-- The command breaks off at a source file whose bytes stand for no text. -/
theorem ends_notText_iff : Ends budgets words files .notText ↔
    ∃ settings bytes, Settings.ofWords words = .ok settings ∧
      files.read settings.source = .ok bytes ∧ ∀ text : String, text.toUTF8 ≠ bytes := by
  constructor
  · intro h
    cases h with
    | notText hwords hread htext => exact ⟨_, _, hwords, hread, htext⟩
    | refused hwords hreads houtcome h =>
      obtain ⟨output, hrefused, -⟩ := reaches_of_refused hwords hreads houtcome h
      rcases Settings.refusal?_cases hrefused with h | h | h <;> cases h
  · rintro ⟨settings, bytes, hwords, hread, htext⟩
    exact .notText hwords hread htext

/-- The status for a report is that of its stage. -/
theorem status_failure (report : Report) : (Script.failure report).2 = 2 ∨
    (Script.failure report).2 = 3 ∨ (Script.failure report).2 = 4 := by
  cases report with
  | lexical | grammar => exact .inl rfl
  | semantic => exact .inr (.inl rfl)
  | internal | lowering | emission | other | breakdown => exact .inr (.inr rfl)

/-- The command ends with a status from zero to four, or it breaks off. -/
theorem Ends.cases (h : Ends budgets words files exit) :
    (∃ code ≤ 4, exit = .status code) ∨ exit = .notText ∨ exit = .badPath ∨ exit = .noPath := by
  cases h with
  | help | done => exact .inl ⟨0, by omega, rfl⟩
  | usage | unreadable => exact .inl ⟨1, by omega, rfl⟩
  | badSource => exact .inr (.inr (.inl rfl))
  | notText => exact .inr (.inl rfl)
  | failed =>
    refine .inl ⟨_, ?_, rfl⟩
    rcases status_failure _ with h | h | h <;> rw [h] <;> omega
  | refused hwords hreads houtcome h =>
    obtain ⟨output, hrefused, -⟩ := reaches_of_refused hwords hreads houtcome h
    rcases Settings.refusal?_cases hrefused with rfl | rfl | rfl
    · exact .inl ⟨1, by omega, rfl⟩
    · exact .inr (.inr (.inl rfl))
    · exact .inr (.inr (.inr rfl))

/-- Every error that ends a compilation has its own status: the source cannot be cut into tokens or
read, it breaks a rule, or it is nested too deeply to be checked or lowered. Only a source that is
longer than any text could end with the error of another kind. -/
theorem status_of_foreseen {error : CompileError} {size : Nat} (h : error.IsForeseen size) :
    let status := (Script.failure error.report).2
    (status = 2 ∧ error.report.stage ∈ ["Lexer", "Parser"]) ∨
      (status = 3 ∧ ∃ reason line, error.report = .semantic reason line) ∨
      (status = 4 ∧ (error = .check .tooDeep ∨ error = .lower .tooDeep)) ∨
      Instruction.leastLonger Instruction.maxCountDigits ≤ size := by
  intro status
  cases error with
  | grammar error =>
    refine .inl ?_
    rcases h with ⟨reason, lexeme, line, h⟩ | ⟨reason, lexeme, line, h⟩
    · rw [show status = 2 by simp only [status, CompileError.report, h]; rfl]
      exact ⟨rfl, by simp [CompileError.report, h, Report.stage]⟩
    · rw [show status = 2 by simp only [status, CompileError.report, h]; rfl]
      exact ⟨rfl, by simp [CompileError.report, h, Report.stage]⟩
  | check error =>
    rcases h with ⟨reason, line, h⟩ | ⟨rfl, -⟩
    · exact .inr (.inl ⟨by simp only [status, CompileError.report, h]; rfl, reason, line, h⟩)
    · exact .inr (.inr (.inl ⟨rfl, .inl rfl⟩))
  | lower error =>
    obtain ⟨rfl, -⟩ := h
    exact .inr (.inr (.inl ⟨rfl, .inr rfl⟩))
  | emit error => exact .inr (.inr (.inr h.2))

end Command

/-- How the command ends, for all words, files and bytes. It ends with a status from zero to four,
except that it breaks off for three reasons: the source file is there and its bytes are no UTF-8,
there is a zero in the path of the source or of an output that is reached, or the output that is
reached has no path. If the source cannot be read as a text, no file is written, and the status is
one iff the file cannot be opened. And every error of a compilation is told by its own status, with
no file written. -/
theorem runCommand_ends (budgets : Budgets) (words : List String) (files : FileTree) :
    let outcome := runCommand budgets words files
    ((∃ code ≤ 4, outcome.exit = .status code) ∨ outcome.exit = .notText ∨
        outcome.exit = .badPath ∨ outcome.exit = .noPath) ∧
      (outcome.exit = .notText ↔ ∃ settings bytes, Settings.ofWords words = .ok settings ∧
        files.read settings.source = .ok bytes ∧ ∀ text : String, text.toUTF8 ≠ bytes) ∧
      (outcome.exit = .badPath ↔
        (∃ settings, Settings.ofWords words = .ok settings ∧ '\x00' ∈ settings.source.toList) ∨
          ∃ path, Command.Reaches budgets words files (some path) ∧ '\x00' ∈ path.toList) ∧
      (outcome.exit = .noPath ↔ Command.Reaches budgets words files none) ∧
      (∀ settings, Settings.ofWords words = .ok settings →
        (∀ text : String, files.read settings.source ≠ .ok text.toUTF8) →
        outcome.files = files ∧ outcome.stdout = "" ∧
          (outcome.exit = .status 1 ↔ ∃ error, files.read settings.source = .error error ∧
            error ≠ .zeroInPath)) ∧
      ∀ settings source error, Settings.ofWords words = .ok settings →
        settings.Reads files source → Command.outcome budgets settings source = .error error →
        outcome.files = files ∧
          ((outcome.exit = .status 2 ∧ error.report.stage ∈ ["Lexer", "Parser"]) ∨
            (outcome.exit = .status 3 ∧ ∃ reason line, error.report = .semantic reason line) ∨
            (outcome.exit = .status 4 ∧ (error = .check .tooDeep ∨ error = .lower .tooDeep)) ∨
            Instruction.leastLonger Instruction.maxCountDigits ≤ source.length) := by
  intro outcome
  refine ⟨(Command.ends_iff.2 rfl).cases, Command.ends_iff.symm.trans Command.ends_notText_iff,
    Command.ends_iff.symm.trans Command.ends_badPath_iff,
    Command.ends_iff.symm.trans Command.ends_noPath_iff, fun settings hwords hunread => ?_,
    fun settings source error hwords hreads herror => ?_⟩
  · obtain ⟨hfiles, hstdout⟩ := Command.runCommand_of_unreadable budgets hwords hunread
    refine ⟨hfiles, hstdout, fun hexit => ?_, ?_⟩
    · cases hread : files.read settings.source with
      | error error =>
        refine ⟨error, rfl, ?_⟩
        rintro rfl
        have hends : Command.Ends budgets words files .badPath :=
          .badSource hwords (FileTree.read_zero_iff.1 hread)
        cases hexit.symm.trans hends.exit_eq
      | ok bytes =>
        have hends : Command.Ends budgets words files .notText :=
          .notText hwords hread fun text htext => hunread text (htext ▸ hread)
        cases hexit.symm.trans hends.exit_eq
    · rintro ⟨error, hread, hzero⟩
      exact (Command.Ends.unreadable hwords hread hzero).exit_eq
  · obtain ⟨hexit, hfiles⟩ := Command.runCommand_of_error hwords hreads herror
    refine ⟨hfiles, ?_⟩
    rcases Command.status_of_foreseen (isForeseen_of_compile herror) with
      ⟨hstatus, h⟩ | ⟨hstatus, h⟩ | ⟨hstatus, h⟩ | hlong
    · exact .inl ⟨hexit.trans (congrArg Exit.status hstatus), h⟩
    · exact .inr (.inl ⟨hexit.trans (congrArg Exit.status hstatus), h⟩)
    · exact .inr (.inr (.inl ⟨hexit.trans (congrArg Exit.status hstatus), h⟩))
    · exact .inr (.inr (.inr hlong))

/-- The command breaks off at a source file of one byte that stands for no text. -/
theorem runCommand_notText :
    ¬∃ code ≤ 4, (runCommand {} ["p.src"]
      ⟨["w"], [], [(["w", "p.src"], ⟨#[0xff]⟩)], []⟩).exit = .status code := by
  have hnotText : (runCommand {} ["p.src"]
      ⟨["w"], [], [(["w", "p.src"], ⟨#[0xff]⟩)], []⟩).exit = .notText := by
    decide +kernel
  rintro ⟨code, -, hcode⟩
  cases hnotText.symm.trans hcode

end ThreeAddress
