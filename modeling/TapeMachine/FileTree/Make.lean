import TapeMachine.FileTree

/-!
# Making files and directories

A directory is made in a directory that is there. With the directories above it, it is made from the
nearest one that is there down; one that is there already is left as it is. What was made before a
refusal stays.
-/

namespace TapeMachine.FileTree

/-- Whether there is a directory at a place. -/
def isDirectory (t : FileTree) (place : Place) : Bool :=
  match t.entry place with
  | .directory => true
  | _ => false

/-- Make an empty file at a place. -/
def makeFile (t : FileTree) (place : Place) : FileTree :=
  { t with files := (place.reverse, []) :: t.files }

/-- Make a directory. -/
def makeDirectory (t : FileTree) (path : Path) : Except FileProblem FileTree :=
  match t.find path with
  | .error problem => .error problem
  | .ok place =>
    match t.entry place with
    | .nothing => .ok { t with directories := place.reverse :: t.directories }
    | _ => .error .exists

/-- Whether a path leads to a directory. -/
def leadsToDirectory (t : FileTree) (path : Path) : Bool :=
  match t.find path with
  | .ok place => t.isDirectory place
  | .error _ => false

/-- Make a directory unless it is there. -/
def ensureDirectory (t : FileTree) (path : Path) : Option FileError × FileTree :=
  match t.makeDirectory path with
  | .ok t => (none, t)
  | .error problem =>
    if t.leadsToDirectory path then (none, t) else (some (.refused problem path), t)

/-- Make the directory of the components `parts`, which come last component first, and those above
it. -/
def ensureParts (t : FileTree) (root : String) : (parts : List String) → Option FileError × FileTree
  | [] => t.ensureDirectory ⟨root, []⟩
  | n :: above =>
    match t.makeDirectory ⟨root, (n :: above).reverse⟩ with
    | .error .missing =>
      match t.ensureParts root above with
      | (some e, t) => (some e, t)
      | (none, t) => t.ensureDirectory ⟨root, (n :: above).reverse⟩
    | _ => t.ensureDirectory ⟨root, (n :: above).reverse⟩

/-- Make a directory and those above it, unless they are there. -/
def ensureDirectories (t : FileTree) (path : Path) : Option FileError × FileTree :=
  t.ensureParts path.root path.parts.reverse

end TapeMachine.FileTree
