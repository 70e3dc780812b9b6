import ThreeAddress.Command.Script

/-!
# Running the command

The outer layer: it gets the words and the source file, has the script made, and carries it out
on the files of the system. It ends as `runCommand` does, and breaks off where that does. No word
that the system hands over holds a character zero, so here no path is a bad one.
-/

namespace ThreeAddress.Main

/-- What the command line looks like; these words are no part of an `Outcome`. -/
def usage : String :=
  "usage: [-h] [--tac TAC] [--dot DOT] [--symbols SYMBOLS] [--no-c] [-v] source [output]"

/-- Whether the code of an error of the system says that a file stands where a directory is needed.
The code may be negated. -/
def isNotDirectory (code : UInt32) : Bool := code == 20 || code == 0 - 20

/-- The words for an error of the system. -/
def describe (path : String) : IO.Error → String
  | .noFileOrDirectory .. => FileError.missing.message path
  | .inappropriateType _ code _ =>
    (if isNotDirectory code then FileError.notDirectory else FileError.isDirectory).message path
  | error => toString error

/-- Ends with a status, or breaks off. -/
def finish : Exit → IO UInt32
  | .status code => return code.toUInt32
  | .notText => throw (IO.userError "the source file is no UTF-8 text")
  | .badPath => throw (IO.userError (FileError.zeroInPath.message ""))
  | .noPath => throw (IO.userError "there is no path to write to")

/-- Carries out the steps of a script. -/
def perform (status : Nat) : List Action → IO UInt32
  | [] => finish (.status status)
  | .say line :: actions => do
    IO.println line
    perform status actions
  | .write path text :: actions => do
    match ← (IO.FS.writeFile path text).toBaseIO with
    | .ok () => perform status actions
    | .error error =>
      IO.eprintln (Script.cannotWrite (describe path error))
      finish (.status 1)
  | .halt exit :: _ => finish exit

/-- Carries out a script. -/
def performScript (script : Script) : IO UInt32 := do
  script.warnings.forM fun line => IO.eprintln line
  perform script.status script.actions

/-- Reads the source file and runs the command on it. -/
def runWith (settings : Settings) : IO UInt32 := do
  match ← (IO.FS.readBinFile settings.source).toBaseIO with
  | .error error => performScript (Script.unreadable settings (describe settings.source error))
  | .ok bytes =>
    match Script.decode? bytes with
    | some source => performScript (Script.ofSource {} settings source)
    | none => finish .notText

end ThreeAddress.Main

open ThreeAddress in
/-- The command. -/
def main (words : List String) : IO UInt32 := do
  match Settings.ofWords words with
  | .ok settings => Main.runWith settings
  | .error .help =>
    IO.println Main.usage
    return 0
  | .error .usage =>
    IO.eprintln Main.usage
    return 1
