import TapeMachine.Arity
import TapeMachine.FileTree.Make
import TapeMachine.Store.Tables

/-!
# The store

A store lives in a file. Every call opens the file, which is made if it is not there; its directory
has to be there. The tables have to be made before they can be used, which also makes the directory.
A call that fails changes nothing in the tables and uses no number. Calls that add a row are told the
time.

The name of the file is brought into its normal form before the file is opened: a double dot takes
away the component before it, whether or not that is there. Beside the file there may be a lock, and a
log and a journal of changes; a directory that stands in their place keeps the store from being used.
-/

namespace TapeMachine

/-- A store, and the files around it. -/
structure Store where
  path : Path
  tree : FileTree
  /-- The tables, once they are made. -/
  tables : Option Tables

namespace Store

/-- The name of the file of a store that is not told where to live. -/
def defaultName : String := "brainfuck.db"

/-- The path of a store, and whether it is the default: an empty request counts as none. A path
cannot hold a NUL. -/
def locate (requested : Option String) : Except FileError (Path × Bool) :=
  match requested with
  | none => .ok (.ofText defaultName, true)
  | some path =>
    if path.toList.contains (Char.ofNat 0) then .error .embeddedNul
    else if path.isEmpty then .ok (.ofText defaultName, true)
    else .ok (.ofText path, false)

/-- The store at a path below an empty directory. -/
def ofPath (path : Path) : Store := ⟨path, ⟨[], []⟩, none⟩

/-! ### Opening -/

/-- What a store is found to be when it is opened. -/
inductive Site where
  /-- A store that goes away again. -/
  | passing (readOnly : Bool)
  /-- A file. -/
  | file (place : FileTree.Place) (use : FileUse)
  deriving DecidableEq, Repr

/-- The bytes of the full paths of the working directory and of the directory above it, above which
there is only the root. -/
def outerBytes : List Nat := [16, 4]

/-- The bytes of the full path of a place, which for the root are none. -/
def fullBytes (place : FileTree.Place) : Nat :=
  place.foldl (fun total n => if FileTree.leadsOut n then total else total + n.utf8ByteSize + 1)
    (if place.contains "/" then 0 else outerBytes.getD (place.count "..") 0)

/-- The most bytes of a full path while a name is brought into its normal form. -/
def maxWalkBytes : Nat := 511

/-- The most bytes of the full path of a file. -/
def maxFileBytes : Nat := 504

/-- The normal form of a name. A component must not stand below a file, must not be too long if its
directory is there, and must not end a path that is too long, even if double dots take it away
again. -/
def resolve (t : FileTree) (here : FileTree.Place) : List String → Option FileTree.Place
  | [] => some here
  | n :: rest =>
    if n.isEmpty ∨ n = "." then resolve t here rest
    else if n = ".." then resolve t (FileTree.up here) rest
    else if maxWalkBytes < fullBytes (FileTree.down n here) then none
    else
      match t.entry here with
      | .file _ => none
      | .nothing => resolve t (FileTree.down n here) rest
      | .directory =>
        if FileTree.maxNameBytes < n.utf8ByteSize then none
        else resolve t (FileTree.down n here) rest

/-- What a file name leads to, if a file is there or can be made there. The path that permissions are
taken from has to be there, even if no file is to be made. A directory other than the root can be
opened for reading, but what is in it cannot be read. -/
def siteOf (t : FileTree) (name : String) (use : FileUse) : Except StoreError Site :=
  match resolve t (if name.startsWith "/" then ["/"] else [])
      ((Text.pieces '/' name.toList).map String.ofList) with
  | none => .error .cannotOpen
  | some place =>
    if fullBytes place = 0 ∨ maxFileBytes < fullBytes place then .error .cannotOpen
    else if use.permissionsOf.any (!t.stands ·) then .error .unreadable
    else
      match t.entry place with
      | .file _ => .ok (.file place use)
      | .directory => .error (if use.mode = .reading then .unreadable else .cannotOpen)
      | .nothing =>
        if use.mode = .creating ∧ t.isDirectory (place.drop 1) then .ok (.file place use)
        else .error .cannotOpen

/-- Open a store. -/
def openSite (s : Store) : Except StoreError Site :=
  match Address.ofText s.path.text with
  | .error e => .error (.address e)
  | .ok (.passing readOnly) => .ok (.passing readOnly)
  | .ok (.file name use) => siteOf s.tree name use

/-- The store with its file made. -/
def touch (s : Store) : Site → Store
  | .passing _ => s
  | .file place _ =>
    match s.tree.entry place with
    | .nothing => { s with tree := s.tree.makeFile place }
    | _ => s

/-- The place beside a file whose name is that of the file with something added. -/
def beside (added : String) : FileTree.Place → FileTree.Place
  | [] => []
  | n :: above => (n ++ added) :: above

/-- Whether the name of the place beside a file is too long. -/
def longBeside (added : String) (place : FileTree.Place) : Bool :=
  FileTree.maxNameBytes < ((beside added place).headD "").utf8ByteSize

/-- Whether a directory stands beside a file. -/
def takenBeside (s : Store) (added : String) (place : FileTree.Place) : Bool :=
  s.tree.isDirectory (beside added place)

/-- What is added to the name of a file to name the directory that locks it. -/
def lockSuffix : String := ".lock"

/-- What is added to the name of a file to name the log of changes to come. -/
def logSuffix : String := "-wal"

/-- What is added to the name of a file to name the journal of changes being made. -/
def journalSuffix : String := "-journal"

/-- What keeps an opened store from being used. First it is locked; then its log is looked at, unless
it never changes. -/
def hindrance? (s : Store) : Site → Option StoreError
  | .passing _ => none
  | .file place use =>
    if use.lockedBeside && longBeside lockSuffix place then some .unreadable
    else if use.lockedBeside && s.takenBeside lockSuffix place then some .locked
    else if !use.immutable && s.takenBeside logSuffix place then some .unreadable
    else none

/-- Open a store, and make its file. -/
def enter (s : Store) : Except StoreError Site × Store :=
  match s.openSite with
  | .error e => (.error e, s)
  | .ok site =>
    let s := s.touch site
    match s.hindrance? site with
    | some e => (.error e, s)
    | none => (.ok site, s)

/-- Use a table of a store that is opened for it. -/
def withTables {α : Type} (s : Store) (t : TableName)
    (use : Tables → Except StoreError (α × Tables)) : Except StoreError α × Store :=
  match s.enter with
  | (.error e, s) => (.error e, s)
  | (.ok _, ⟨path, tree, none⟩) => (.error (.noTable t), ⟨path, tree, none⟩)
  | (.ok _, ⟨path, tree, some tables⟩) =>
    match use tables with
    | .error e => (.error e, ⟨path, tree, some tables⟩)
    | .ok (a, after) => (.ok a, ⟨path, tree, some after⟩)

/-- Look at a table of a store. -/
def look {α : Type} (s : Store) (t : TableName) (use : Tables → Except StoreError α) :
    Except StoreError α × Store :=
  s.withTables t fun tables => (use tables).map (·, tables)

/-! ### Calls -/

/-- Whether no journal can be made: its name is too long, or a directory stands in its place. -/
def journalBlocked (s : Store) (place : FileTree.Place) : Bool :=
  longBeside journalSuffix place || s.takenBeside journalSuffix place

/-- Make the tables that are missing. Changes are kept in a journal beside the file. -/
def makeTables (s : Store) : Site → Except StoreError Unit × Store
  | .passing readOnly => (if readOnly then .error .readOnly else .ok (), s)
  | .file place use =>
    if use.immutable then (.error .readOnly, s)
    else if s.journalBlocked place then (.error .cannotOpen, s)
    else (.ok (), { s with tables := some (s.tables.getD .empty) })

/-- Make the directory of a store, and its tables. -/
def init (s : Store) : Except StoreError Unit × Store :=
  match s.tree.ensureDirectories s.path.parent with
  | (some e, tree) => (.error (.directory e), { s with tree := tree })
  | (none, tree) =>
    match { s with tree := tree }.enter with
    | (.error e, s) => (.error e, s)
    | (.ok site, s) => s.makeTables site

/-- Save a script; gives its number. -/
def saveScript (s : Store) (now : String) (title code : Value) : Except StoreError Nat × Store :=
  s.withTables .scripts (·.saveScript now title code)

/-- All scripts, the newest first. -/
def scripts (s : Store) : Except StoreError (List Script) × Store :=
  s.look .scripts fun t => .ok t.allScripts

/-- The script with a number. -/
def script? (s : Store) (id : Value) : Except StoreError (Option Script) × Store :=
  s.look .scripts (·.script? id)

/-- Record a run; gives its number. -/
def saveRun (s : Store) (now : String) (scriptId steps outputBytes durationMs : Value) :
    Except StoreError Nat × Store :=
  s.withTables .runs (·.saveRun now scriptId steps outputBytes durationMs)

/-- The recorded runs, the newest first: those of one script, or all if no script is named. The
number zero names none. -/
def runs (s : Store) (scriptId : Value) : Except StoreError (List Record) × Store :=
  s.look .runs (·.runsOf scriptId)

end Store

/-! ### Calls by name -/

/-- A call to a store. -/
inductive StoreCall where
  | init
  | saveScript (title code : Value)
  | scripts
  | script (id : Value)
  | saveRun (scriptId steps outputBytes durationMs : Value)
  | runs (scriptId : Value)

/-- The call of a name with its arguments; none if there is no such call. -/
def StoreCall.ofName? (name : String) (arguments : List Value) :
    Option (Except ArgumentError StoreCall) :=
  let wrong (names : List String) : Option (Except ArgumentError StoreCall) :=
    some (.error (.ofCount name names 0 arguments.length))
  match name, arguments with
  | "init_db", [] => some (.ok .init)
  | "init_db", _ => wrong []
  | "save_script", [title, code] => some (.ok (.saveScript title code))
  | "save_script", _ => wrong ["title", "code_text"]
  | "list_scripts", [] => some (.ok .scripts)
  | "list_scripts", _ => wrong []
  | "get_script", [id] => some (.ok (.script id))
  | "get_script", _ => wrong ["script_id"]
  | "save_run", [a, b, c, d] => some (.ok (.saveRun a b c d))
  | "save_run", _ => wrong ["script_id", "steps", "output_bytes", "duration_ms"]
  | "list_runs", [] => some (.ok (.runs .null))
  | "list_runs", [id] => some (.ok (.runs id))
  | "list_runs", _ => some (.error (.tooMany name 0 1 arguments.length))
  | _, _ => none

/-- Make a call at a time; gives what it shows. -/
def Store.call (s : Store) (now : String) (c : StoreCall) : Except StoreError Value × Store :=
  match c with
  | .init => Prod.map (Except.map fun _ => .null) id s.init
  | .saveScript title code =>
    Prod.map (Except.map fun n => .int (n : Nat)) id (s.saveScript now title code)
  | .scripts => Prod.map (Except.map fun rows => .list (rows.map Script.summary)) id s.scripts
  | .script n =>
    Prod.map (Except.map fun row => (row.map Script.toValue).getD .null) id (s.script? n)
  | .saveRun a b c d => Prod.map (Except.map fun n => .int (n : Nat)) id (s.saveRun now a b c d)
  | .runs n => Prod.map (Except.map fun rows => .list (rows.map Record.toValue)) id (s.runs n)

end TapeMachine
