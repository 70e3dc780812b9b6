import ThreeAddress.Text.Digit

/-!
# Settings of the command

What the words after the command mean. A word is an option if it begins with a dash, stands
before the first word of two dashes alone, and neither looks like a negative number nor holds a
space without naming an option. A long option may be cut short as long as only one begins so,
and may carry its value behind an equals sign. Short options may share one dash, and an equals
sign after the first of them is passed over.

Two dashes alone are nowhere a value: attached to an option by an equals sign they leave it
without one.

These are the conventions of the standard argument parser up to its releases 3.11.7 and 3.12.1.
The releases after them differ in what is attached to an option: they take `--tac=--` as the path of
two dashes, refuse `-v=v` and `-h=v`, and show help for `-hx`.

The source and the output are the words that are no options. Both are taken from the first row
of such words, so an output that follows an option after the source is one word too many.
-/

namespace ThreeAddress

open Text

/-- The options of the command. -/
inductive Flag where
  | help | tac | dot | symbols | noC | verbose
  deriving DecidableEq, Repr

/-- Whether an option has a value. -/
def Flag.hasValue : Flag → Bool
  | tac | dot | symbols => true
  | help | noC | verbose => false

/-- The names of the options. -/
def Flag.names : List (String × Flag) :=
  [("-h", .help), ("--help", .help), ("--tac", .tac), ("--dot", .dot), ("--symbols", .symbols),
   ("--no-c", .noC), ("-v", .verbose), ("--verbose", .verbose)]

/-- The option of a name. -/
def Flag.ofName? (name : String) : Option Flag :=
  (names.find? fun item => item.1 == name).map (·.2)

/-- What the words ask for. -/
structure Settings where
  source : String
  output : String := "output.c"
  /-- The place for the code; none if the option is given without a value. -/
  tac : Option String := some "output.tac"
  dot : Option String := none
  symbols : Option String := none
  noC : Bool := false
  verbosity : Nat := 0
  deriving DecidableEq, Repr

/-- A word of the command. -/
inductive Word where
  /-- A word that is no option. -/
  | plain (text : String)
  /-- The first word of two dashes alone. -/
  | divider
  /-- An option, whether its name is short, and what is attached to it in the same word. -/
  | option (flag : Flag) (isShort : Bool) (attached : Option (List Char))
  /-- A word that has the look of an option and is none. -/
  | unknown
  deriving DecidableEq, Repr

/-- How reading the words ends if not with settings. -/
inductive SettingsError where
  /-- The words do not fit the command. -/
  | usage
  /-- The words ask for help. -/
  | help
  deriving DecidableEq, Repr

namespace Word

/-- Whether the text after a dash is a number. -/
def isNumber (text : List Char) : Bool :=
  let text := if text.getLast? = some '\n' then text.dropLast else text
  let fraction := text.dropWhile isDecimal
  if fraction.isEmpty then !text.isEmpty
  else fraction.head? == some '.' && fraction.length != 1 && fraction.tail.all isDecimal

/-- The text before the first equals sign, and what is attached by it. -/
def splitAtEquals (text : List Char) : List Char × Option (List Char) :=
  match text.dropWhile (· != '=') with
  | _ :: value => (text.takeWhile (· != '='), some value)
  | [] => (text, none)

/-- The options that a word starting with a dash may stand for. -/
def candidates (text : List Char) : List Word :=
  match text with
  | '-' :: '-' :: _ =>
    let (stem, attached) := splitAtEquals text
    (Flag.names.filter fun item => stem.isPrefixOf item.1.toList).map fun item =>
      .option item.2 false attached
  | '-' :: c :: value =>
    ((Flag.ofName? (String.ofList ['-', c])).map fun flag =>
      .option flag true (some value)).toList
  | _ => []

/-- A word that starts with a dash and is not the full name of an option. -/
def ofDashed (text : List Char) : Except SettingsError Word :=
  let (name, attached) := splitAtEquals text
  match attached, Flag.ofName? (String.ofList name) with
  | some attached, some flag => .ok (.option flag (name.length == 2) (some attached))
  | _, _ =>
    match candidates text with
    | [word] => .ok word
    | _ :: _ :: _ => .error .usage
    | [] =>
      if isNumber text.tail || text.contains ' ' then .ok (.plain (String.ofList text))
      else .ok .unknown

/-- The meaning of a word that stands before a divider. -/
def ofText (text : String) : Except SettingsError Word :=
  match text.toList with
  | '-' :: rest =>
    match Flag.ofName? text with
    | some flag => .ok (.option flag (text.length == 2) none)
    | none => if rest.isEmpty then .ok (.plain text) else ofDashed text.toList
  | _ => .ok (.plain text)

/-- The meanings of all words. -/
def ofTexts : List String → Except SettingsError (List Word)
  | [] => .ok []
  | text :: texts =>
    if text = "--" then .ok (.divider :: texts.map .plain)
    else do
      let word ← ofText text
      let words ← ofTexts texts
      .ok (word :: words)

/-- Whether a word is no option and no would-be option. -/
def isPlain : Word → Bool
  | plain _ | divider => true
  | option .. | unknown => false

end Word

/-- What has been read of the words so far. -/
structure SettingsDraft where
  source : Option String := none
  /-- Whether the row of words with source and output has been read. -/
  placed : Bool := false
  /-- Whether there was a word that has no meaning. -/
  surplus : Bool := false
  settings : Settings := { source := "" }
  deriving DecidableEq, Repr

namespace SettingsDraft

/-- Enters an option with its value, if it has one. -/
def set (draft : SettingsDraft) (flag : Flag) (value : Option String) :
    Except SettingsError SettingsDraft :=
  let settings := draft.settings
  match flag with
  | .help => .error .help
  | .tac => .ok { draft with settings := { settings with tac := value } }
  | .dot => .ok { draft with settings := { settings with dot := value } }
  | .symbols => .ok { draft with settings := { settings with symbols := value } }
  | .noC => .ok { draft with settings := { settings with noC := true } }
  | .verbose => .ok { draft with settings := { settings with verbosity := settings.verbosity + 1 } }

/-- The options that share the dash of another, by their letters. -/
def shared (letters : List Char) : Except SettingsError (List Flag) :=
  letters.mapM fun letter =>
    match Flag.ofName? (String.ofList ['-', letter]) with
    | some flag => .ok flag
    | none => .error .usage

/-- Enters several options without values. -/
def setAll (draft : SettingsDraft) (flags : List Flag) : Except SettingsError SettingsDraft :=
  flags.foldlM (fun draft flag => draft.set flag none) draft

/-- An attached text as a value. Two dashes alone are none (up to release 3.11.7; later on they are
a value like any other). -/
def attachedValue (text : List Char) : Option String :=
  if text = ['-', '-'] then none else some (String.ofList text)

/-- Enters an option with what is attached to it. The letters behind an option without a value are
options themselves, whether or not an equals sign stands before them, and all of them have to be
known before the first one counts (up to release 3.11.7; later on an equals sign is refused there,
and the options in front of an unknown letter count). -/
def setAttached (draft : SettingsDraft) (flag : Flag) (isShort : Bool) (attached : List Char) :
    Except SettingsError SettingsDraft :=
  if flag.hasValue then draft.set flag (attachedValue attached)
  else if isShort && !attached.isEmpty then do
    let flags ← shared attached
    draft.setAll (flag :: flags)
  else .error .usage

/-- Takes source and output from a row of words that are no options. A divider before the
source belongs to it, and so does one behind it. -/
def place (draft : SettingsDraft) (row : List Word) : SettingsDraft :=
  if draft.placed then { draft with surplus := draft.surplus || !row.isEmpty }
  else
    let texts := row.filterMap fun word =>
      match word with
      | .plain text => some text
      | _ => none
    match texts with
    | [] => { draft with surplus := draft.surplus || !row.isEmpty }
    | [source] => { draft with source := some source, placed := true }
    | source :: output :: others =>
      { draft with
        source := some source
        placed := true
        surplus := draft.surplus || !others.isEmpty
        settings :=
          if output = "--" then draft.settings else { draft.settings with output := output } }

/-- Reads the words, the options one by one and the other words row by row. -/
def read : Nat → SettingsDraft → List Word → Except SettingsError SettingsDraft
  | _, draft, [] => .ok draft
  | 0, draft, _ => .ok draft
  | bound + 1, draft, word :: words =>
    match word with
    | .unknown => read bound { draft with surplus := true } words
    | .option flag _ none =>
      if flag.hasValue then
        match words with
        | .plain value :: words => do
          let draft ← draft.set flag (some value)
          read bound draft words
        | _ => .error .usage
      else do
        let draft ← draft.set flag none
        read bound draft words
    | .option flag isShort (some attached) => do
      let draft ← draft.setAttached flag isShort attached
      read bound draft words
    | word =>
      read bound (draft.place (word :: words.takeWhile (·.isPlain))) (words.dropWhile (·.isPlain))

end SettingsDraft

/-- The settings that the words of the command ask for, by the conventions of release 3.11.7. -/
def Settings.ofWords (texts : List String) : Except SettingsError Settings := do
  let words ← Word.ofTexts texts
  let draft ← SettingsDraft.read words.length {} words
  match draft.source with
  | some source =>
    if draft.surplus then .error .usage else .ok { draft.settings with source := source }
  | none => .error .usage

end ThreeAddress
