import TapeMachine.Path
import TapeMachine.Text.Quoted

/-!
# File trees

The files and directories below a working directory, and what opening a path in them gives. The walk
to a file goes component by component and stops at the first that cannot be passed. Of what lies
outside the working directory only the directories above it are known to be there: one for files that
do not last, and the root.
-/

namespace TapeMachine

/-- Files and directories, named by their components below the working directory. -/
structure FileTree where
  directories : List (List String)
  files : List (List String × List UInt8)

/-- Why a path gives no file. -/
inductive FileProblem where
  | missing
  | notADirectory
  | isADirectory
  | nameTooLong
  | exists
  deriving DecidableEq, Repr

/-- The system's number of a problem. -/
def FileProblem.number : FileProblem → Nat
  | .missing => 2
  | .notADirectory => 20
  | .isADirectory => 21
  | .nameTooLong => 36
  | .exists => 17

/-- The system's words for a problem. -/
def FileProblem.words : FileProblem → String
  | .missing => "No such file or directory"
  | .notADirectory => "Not a directory"
  | .isADirectory => "Is a directory"
  | .nameTooLong => "File name too long"
  | .exists => "File exists"

/-- What goes wrong when a file is opened. -/
inductive FileError where
  /-- The system refused the path. -/
  | refused (problem : FileProblem) (path : Path)
  /-- The path holds a NUL character, so it is never passed on to the system. -/
  | embeddedNul
  deriving DecidableEq, Repr

/-- How a file that cannot be opened is reported. -/
def FileError.message : FileError → String
  | .refused problem path =>
    "[Errno " ++ toString problem.number ++ "] " ++ problem.words ++ ": " ++ Text.quote path.text
  | .embeddedNul => "embedded null byte"

namespace FileTree

/-- Where a walk stands: the components from the working directory on, the last first. The directory
above it is a double dot, and the root a slash. -/
abbrev Place := List String

/-- A component that leads out of the working directory. -/
def leadsOut (n : String) : Bool := n = ".." || n = "/"

/-- What stands at a place. -/
inductive Entry where
  | file (bytes : List UInt8)
  | directory
  | nothing

/-- Look at the components of a place. A directory is there also if something below it is. -/
def entryAt (t : FileTree) (names : List String) : Entry :=
  match t.files.lookup names with
  | some bytes => .file bytes
  | none =>
    if names.all leadsOut || t.directories.any names.isPrefixOf || t.files.any (names.isPrefixOf ·.1)
    then .directory
    else .nothing

/-- Look at a place. -/
def entry (t : FileTree) (place : Place) : Entry := t.entryAt place.reverse

/-- Where a path starts. -/
def start (path : Path) : Place := if path.root.isEmpty then [] else ["/"]

/-- One directory up. The root is two directories above the working directory, and above itself. -/
def up : Place → Place
  | [] => [".."]
  | n :: names => if leadsOut n then ["/"] else names

/-- The name in the root of the directory above the working directory. -/
def outerName : String := "tmp"

/-- One component down. -/
def down (n : String) (here : Place) : Place :=
  if here = ["/"] ∧ n = outerName then [".."] else n :: here

/-- The most bytes of a component. -/
def maxNameBytes : Nat := 255

/-- A path has fewer bytes than this. -/
def maxPathBytes : Nat := 4096

/-- Walk down the components of a path. There may be nothing at the place it leads to. -/
def walk (t : FileTree) (here : Place) : List String → Except FileProblem Place
  | [] => .ok here
  | n :: rest =>
    match t.entry here with
    | .file _ => .error .notADirectory
    | .nothing => .error .missing
    | .directory =>
      if n = ".." then t.walk (up here) rest
      else if maxNameBytes < n.utf8ByteSize then .error .nameTooLong
      else t.walk (down n here) rest

/-- The place that a path leads to. -/
def find (t : FileTree) (path : Path) : Except FileProblem Place :=
  if maxPathBytes ≤ path.text.utf8ByteSize then .error .nameTooLong
  else t.walk (start path) path.parts

/-- Whether something stands at the path that a text gives. An empty text gives none. -/
def stands (t : FileTree) (text : String) : Bool :=
  if text.isEmpty ∨ maxPathBytes ≤ text.utf8ByteSize then false
  else
    match t.find (.ofText text) with
    | .error _ => false
    | .ok place =>
      match t.entry place with
      | .nothing => false
      | _ => true

/-- The bytes of the file at a path. -/
def read (t : FileTree) (path : Path) : Except FileError (List UInt8) :=
  if path.text.toList.contains (Char.ofNat 0) then .error .embeddedNul
  else
    match t.find path with
    | .error problem => .error (.refused problem path)
    | .ok place =>
      match t.entry place with
      | .file bytes => .ok bytes
      | .directory => .error (.refused .isADirectory path)
      | .nothing => .error (.refused .missing path)

end FileTree

end TapeMachine
