import TapeMachine.FileTree
import TapeMachine.Store.Address
import TapeMachine.Store.Datum

/-!
# The tables of a store

Saved scripts and recorded runs. Each table numbers its rows from one, in the order in which they are
added, and stamps them with the time. Values are bound to a call in the order of its arguments, and the
first that cannot be bound is reported; then a script has to have a title and a code.

A listing is sorted: the latest stamp comes first, and of rows with the same stamp the larger number.
Stamps are texts, and are compared as such. The clock may go back, and then the listing is not in the
order of the numbers.
-/

namespace TapeMachine

/-- What every row of a table has. -/
structure Row where
  id : Nat
  /-- The time at which the row was added. -/
  createdAt : String
  deriving DecidableEq, Repr

/-- A saved script. -/
structure Script extends Row where
  title : String
  code : String
  deriving DecidableEq, Repr

/-- A recorded run. -/
structure Record extends Row where
  scriptId : Datum
  steps : Datum
  outputBytes : Datum
  durationMs : Datum
  deriving DecidableEq, Repr

/-- A script in a list, as a table. -/
def Script.summary (s : Script) : Value :=
  .table [("script_id", .int s.id), ("title", .text s.title), ("created_at", .text s.createdAt)]

/-- A script as a table. -/
def Script.toValue (s : Script) : Value :=
  .table [("script_id", .int s.id), ("title", .text s.title), ("code_text", .text s.code),
    ("created_at", .text s.createdAt)]

/-- A recorded run as a table. -/
def Record.toValue (r : Record) : Value :=
  .table [
    ("run_id", .int r.id),
    ("script_id", r.scriptId.toValue),
    ("steps", r.steps.toValue),
    ("output_bytes", r.outputBytes.toValue),
    ("duration_ms", r.durationMs.toValue),
    ("created_at", .text r.createdAt)]

/-! ### Listings -/

/-- The order of a listing: a row that was added later comes first, or of two that were added at the
same time the one with the larger number. -/
def Row.precedes (a b : Row) : Bool :=
  b.createdAt < a.createdAt || (a.createdAt == b.createdAt && b.id ≤ a.id)

/-- Rows in the order of a listing. -/
def newestFirst {α : Type} (row : α → Row) (rows : List α) : List α :=
  rows.mergeSort fun a b => (row a).precedes (row b)

/-! ### Calls that are refused -/

/-- A table of a store. -/
inductive TableName where
  | scripts
  | runs
  deriving DecidableEq, Repr

/-- The name of a table. -/
def TableName.text : TableName → String
  | .scripts => "Scripts"
  | .runs => "Runs"

/-- Why a store refuses a call. -/
inductive StoreError where
  /-- The address of the store is not understood. -/
  | address (e : AddressError)
  /-- The directory of the store cannot be made. -/
  | directory (e : FileError)
  | cannotOpen
  /-- What is needed to use the file is not what it has to be. -/
  | unreadable
  /-- Another user holds the lock of the file. -/
  | locked
  /-- The file of the store never changes. -/
  | readOnly
  | noTable (t : TableName)
  | integerTooLarge
  /-- A value that no datum stands for; values are counted from one. -/
  | unsupported (position : Nat) (typeName : String)
  /-- A script without a title. -/
  | nullTitle
  /-- A script without a code. -/
  | nullCode
  deriving DecidableEq, Repr

/-- How a refused call is reported. -/
def StoreError.message : StoreError → String
  | .address e => e.message
  | .directory e => e.message
  | .cannotOpen => "unable to open database file"
  | .unreadable => "disk I/O error"
  | .locked => "database is locked"
  | .readOnly => "attempt to write a readonly database"
  | .noTable t => "no such table: " ++ t.text
  | .integerTooLarge => "Python int too large to convert to SQLite INTEGER"
  | .unsupported position typeName =>
    "Error binding parameter " ++ toString position ++ ": type '" ++ typeName ++ "' is not supported"
  | .nullTitle => "NOT NULL constraint failed: Scripts.title"
  | .nullCode => "NOT NULL constraint failed: Scripts.code_text"

/-- The datum of a value. Integers are stored in 64 bits, and what is not a number counts as null. -/
def Datum.bind (position : Nat) : Value → Except StoreError Datum
  | .null | .real .nan => .ok .null
  | .bool b => .ok (.int (if b then 1 else 0))
  | .int n => if fits n then .ok (.int n) else .error .integerTooLarge
  | .real x => .ok (.real x)
  | .text s => .ok (.text s)
  | v => .error (.unsupported position v.typeName)

/-! ### Rows -/

/-- The rows of a store, in the order in which they were added. -/
structure Tables where
  scripts : List Script
  runs : List Record
  deriving DecidableEq, Repr

namespace Tables

/-- Tables without rows. -/
def empty : Tables := ⟨[], []⟩

/-- Save a script at a time; gives its number. -/
def saveScript (t : Tables) (now : String) (title code : Value) : Except StoreError (Nat × Tables) :=
  match Datum.bind 1 title with
  | .error e => .error e
  | .ok title =>
    match Datum.bind 2 code with
    | .error e => .error e
    | .ok code =>
      match title.toText?, code.toText? with
      | none, _ => .error .nullTitle
      | some _, none => .error .nullCode
      | some title, some code =>
        let id := t.scripts.length + 1
        .ok (id, { t with scripts := t.scripts ++ [⟨⟨id, now⟩, title, code⟩] })

/-- All scripts, as a listing has them. -/
def allScripts (t : Tables) : List Script := newestFirst Script.toRow t.scripts

/-- The script with a number. -/
def script? (t : Tables) (id : Value) : Except StoreError (Option Script) :=
  match Datum.bind 1 id with
  | .error e => .error e
  | .ok d => .ok (t.scripts.find? fun r => Datum.int r.id = d.toInteger)

/-- Record a run at a time; gives its number. -/
def saveRun (t : Tables) (now : String) (scriptId steps outputBytes durationMs : Value) :
    Except StoreError (Nat × Tables) :=
  match Datum.bind 1 scriptId with
  | .error e => .error e
  | .ok scriptId =>
    match Datum.bind 2 steps with
    | .error e => .error e
    | .ok steps =>
      match Datum.bind 3 outputBytes with
      | .error e => .error e
      | .ok outputBytes =>
        match Datum.bind 4 durationMs with
        | .error e => .error e
        | .ok durationMs =>
          let id := t.runs.length + 1
          .ok (id, { t with
            runs := t.runs ++ [⟨⟨id, now⟩, scriptId.toInteger, steps.toInteger,
              outputBytes.toInteger, durationMs.toInteger⟩] })

/-- The recorded runs of one script, or all if the script counts as no, as a listing has them. -/
def runsOf (t : Tables) (scriptId : Value) : Except StoreError (List Record) :=
  if scriptId.truth then
    match Datum.bind 1 scriptId with
    | .error e => .error e
    | .ok d => .ok (newestFirst Record.toRow (t.runs.filter fun r => r.scriptId.same d.toInteger))
  else .ok (newestFirst Record.toRow t.runs)

end Tables

end TapeMachine
