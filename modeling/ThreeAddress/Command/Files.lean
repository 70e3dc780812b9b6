import ThreeAddress.Text.Quoted

/-!
# Files

A tree of directories and files, and the ways in which opening a file in it can fail. A path is
walked name by name, from the top of the tree if it begins with a slash and else from the place
where the command runs.
-/

namespace ThreeAddress

/-- Why a file cannot be opened. -/
inductive FileError where
  | missing | isDirectory | notDirectory | nameTooLong
  /-- The path holds the character zero, which ends a path for the system. -/
  | zeroInPath
  deriving DecidableEq, Repr

/-- The error in words, for the path as it was given. -/
def FileError.message (path : String) : FileError → String
  | missing => "[Errno 2] No such file or directory: " ++ Text.quote path
  | isDirectory => "[Errno 21] Is a directory: " ++ Text.quote path
  | notDirectory => "[Errno 20] Not a directory: " ++ Text.quote path
  | nameTooLong => "[Errno 36] File name too long: " ++ Text.quote path
  | zeroInPath => "embedded null byte"

/-- A path, taken apart. -/
structure Path where
  /-- Whether it starts at the top of the tree. -/
  fromTop : Bool
  /-- The names, of which all but the last are on the way. -/
  names : List String
  /-- Whether a slash follows the last name, which then can only be that of a directory. -/
  closed : Bool
  deriving DecidableEq, Repr

namespace Path

/-- How many bytes a path has at most. -/
def maxBytes : Nat := 4095

/-- How many bytes a name has at most. -/
def maxNameBytes : Nat := 255

/-- The names in a path: the longest rows of characters without a slash. -/
def namesOf (path : List Char) : List String :=
  ((path.splitBy fun a b => a != '/' && b != '/').filter (· != ['/'])).map String.ofList

/-- A path as it is written. An empty path leads nowhere. -/
def ofString (path : String) : Except FileError Path :=
  let text := path.toList
  if '\x00' ∈ text then .error .zeroInPath
  else if text.isEmpty then .error .missing
  else if maxBytes < path.utf8ByteSize then .error .nameTooLong
  else .ok ⟨text.head? == some '/', namesOf text, text.getLast? == some '/'⟩

/-- Whether a name stands for a directory that the way has led through. -/
def isDots (name : String) : Bool := name == "." || name == ".."

end Path

/-- The names from the top of a tree down to a file or a directory. -/
abbrev Place := List String

/-- Directories and files. The top of the tree, the place where the command runs and whatever
holds a listed directory or file is a directory without being listed. -/
structure FileTree where
  /-- Where the command runs. -/
  home : Place
  directories : List Place
  files : List (Place × ByteArray)
  /-- Files that stay empty whatever is written to them. -/
  sinks : List Place

/-- What a path leads to. -/
inductive Goal where
  | directory
  | file (place : Place) (bytes : ByteArray)
  /-- A place inside a directory that holds nothing yet. -/
  | free (place : Place)

namespace FileTree

/-- Whether there is a directory at a place. -/
def hasDirectory (tree : FileTree) (place : Place) : Bool :=
  place.isPrefixOf tree.home ||
    (tree.directories.any fun directory => place.isPrefixOf directory) ||
    (tree.files.any fun file => place.isPrefixOf file.1.dropLast) ||
    tree.sinks.any fun sink => place.isPrefixOf sink.dropLast

/-- What the file at a place holds. -/
def file? (tree : FileTree) (place : Place) : Option ByteArray :=
  if place ∈ tree.sinks then some .empty
  else (tree.files.find? fun file => file.1 == place).map (·.2)

/-- The place one step further, for a name that has to be that of a directory. -/
def enter (tree : FileTree) (place : Place) (name : String) : Except FileError Place :=
  if name = "." then .ok place
  else if name = ".." then .ok place.dropLast
  else if Path.maxNameBytes < name.utf8ByteSize then .error .nameTooLong
  else if tree.hasDirectory (place ++ [name]) then .ok (place ++ [name])
  else if (tree.file? (place ++ [name])).isSome then .error .notDirectory
  else .error .missing

/-- The place that the names on the way lead to. -/
def walk (tree : FileTree) (path : Path) : Except FileError Place :=
  path.names.dropLast.foldlM tree.enter (if path.fromTop then [] else tree.home)

/-- What there is at a place. -/
def goalAt (tree : FileTree) (place : Place) : Goal :=
  if tree.hasDirectory place then .directory
  else
    match tree.file? place with
    | some bytes => .file place bytes
    | none => .free place

/-- What the last name of a path stands for at a place. -/
def goal (tree : FileTree) (place : Place) : Option String → Except FileError Goal
  | none => .ok .directory
  | some name =>
    if Path.isDots name then .ok .directory
    else if Path.maxNameBytes < name.utf8ByteSize then .error .nameTooLong
    else .ok (tree.goalAt (place ++ [name]))

/-- What the file at a path holds. -/
def read (tree : FileTree) (name : String) : Except FileError ByteArray := do
  let path ← Path.ofString name
  let place ← tree.walk path
  match ← tree.goal place path.names.getLast? with
  | .directory => .error .isDirectory
  | .file _ bytes => if path.closed then .error .notDirectory else .ok bytes
  | .free _ => .error .missing

/-- The tree with a file at a place, instead of the one that was there. -/
def put (tree : FileTree) (place : Place) (bytes : ByteArray) : FileTree :=
  if place ∈ tree.sinks then tree
  else { tree with files := (tree.files.filter fun file => file.1 != place) ++ [(place, bytes)] }

/-- The tree with a text written at a path. A closed path is refused as a directory, whether there
is one or not. -/
def write (tree : FileTree) (name text : String) : Except FileError FileTree := do
  let path ← Path.ofString name
  let place ← tree.walk path
  if path.closed then .error .isDirectory
  else
    match ← tree.goal place path.names.getLast? with
    | .directory => .error .isDirectory
    | .file place _ | .free place => .ok (tree.put place text.toUTF8)

end FileTree

end ThreeAddress
