import TapeMachine.Evaluation
import TapeMachine.Service.Allowance
import TapeMachine.Service.Request
import TapeMachine.Store

/-!
# The service

The service runs texts, checks their brackets, keeps scripts, and lists what it keeps. Every run that
ends without an error is recorded; a record that cannot be kept is a warning and not a failure.

A demand is what a request asks for, once the request has been understood. It is answered by `serve` from
the store as it is, and leaves a store behind. How requests are understood, which paths there are and what
a body looks like, is a matter of the host: `handle` takes it as a parameter.
-/

namespace TapeMachine.Service

/-- A request as it arrives. -/
structure Request where
  method : String
  path : String
  query : String
  /-- The body, if there is one. -/
  body : Option Value

/-- What comes back: a reply, or nothing because something went wrong on the way. -/
inductive Answer where
  | reply (status : Nat) (body : Value)
  /-- A page that describes the service. -/
  | page
  /-- The store refused a call. -/
  | crashed (e : StoreError)
  /-- The reply holds a number that cannot be written. -/
  | unwritable

/-- How a reply that cannot be written is explained. -/
def unwritableMessage : String := "Out of range float values are not JSON compliant"

/-- A reply that says yes. -/
def Answer.success (body : Value) : Answer := .reply 200 body

/-- What a request asks for. -/
inductive Demand where
  | run (r : RunRequest)
  | validate (r : ValidateRequest)
  | save (r : SaveRequest)
  | scripts
  | script (id : Int)
  /-- The recorded runs, of one script if one is named. -/
  | stats (scriptId : Option Int)

/-- What the service stands on. -/
structure Host where
  room : Room
  /-- What a request asks for, or the answer to one that asks for nothing. -/
  read : Request → Except Answer Demand

/-! ### Runs -/

/-- How the service names the texts it is sent. -/
def requestSource : String := "<request>"

/-- The body of a run that gave no report. -/
def serverError (message : String) (durationMs : Int) : Value :=
  .table [
    ("output", .text ""),
    ("steps", .int 0),
    ("warnings", .list []),
    ("duration_ms", .int durationMs),
    ("errors", .table [("code", .text "SERVER_ERROR"), ("message", .text message)])]

/-- The body of a run that gave a report. -/
def reportBody (r : Report) (durationMs : Int) (warnings : List String) : Value :=
  .table (r.fields ++
    [("duration_ms", .int durationMs), ("warnings", .list (warnings.map .text))])

/-- Run the text of a request under the allowance of its settings; the cap on the steps bounds the
run. An error is the message of what went wrong outside the program. -/
def evaluate (room : Room) (r : RunRequest) : Except String Report :=
  match Allowance.ofSettings r.settings with
  | .error e => .error e.message
  | .ok allowance =>
    match Evaluation.run room 0 (some requestSource) r.code (Text.Utf8.encode r.input)
      allowance.toValue with
    | .error a => .error a.message
    | .ok report => .ok report

/-- Record a run that ended without an error; gives the warnings. -/
def record (now : String) (store : Store) (scriptId : Option Int) (r : Report) (durationMs : Int) :
    List String × Store :=
  match r.error with
  | some _ => ([], store)
  | none =>
    match store.saveRun now (.ofOption scriptId) (.int r.steps) (.int r.outputBytes)
      (.int durationMs) with
    | (.ok _, store) => ([], store)
    | (.error e, store) => (["Failed to persist run: " ++ e.message], store)

/-- Answer a request to run a text. -/
def runText (room : Room) (now : String) (durationMs : Int) (store : Store) (r : RunRequest) :
    Value × Store :=
  match evaluate room r with
  | .error message => (serverError message durationMs, store)
  | .ok report =>
    match record now store r.scriptId report durationMs with
    | (warnings, store) => (reportBody report durationMs warnings, store)

/-! ### The other requests -/

/-- Answer a request to check the brackets of a text. -/
def validateText (r : ValidateRequest) : Value :=
  let p := Program.ofText (some requestSource) r.code
  let (valid, errors) := match p.check with
    | .ok _ => (true, Value.null)
    | .error e => (false, e.details)
  .table [("valid", .bool valid), ("instructions", .int p.size), ("errors", errors)]

/-- Answer a request to save a script. -/
def saveText (now : String) (store : Store) (r : SaveRequest) : Value × Store :=
  match store.saveScript now (.text r.title) (.text r.code) with
  | (.ok id, store) => (.table [("script_id", .int id)], store)
  | (.error e, store) => (.table [("error", .text e.message)], store)

/-- Answer a request to list the scripts. -/
def listScripts (store : Store) : Answer × Store :=
  match store.scripts with
  | (.ok rows, store) => (.success (.list (rows.map Script.summary)), store)
  | (.error e, store) => (.crashed e, store)

/-- Answer a request to show a script. -/
def showScript (store : Store) (id : Int) : Answer × Store :=
  match store.script? (.int id) with
  | (.ok (some script), store) => (.success script.toValue, store)
  | (.ok none, store) => (.success (.table [("error", .text "not found")]), store)
  | (.error e, store) => (.crashed e, store)

/-- Answer a request to list the recorded runs. -/
def listRuns (store : Store) (scriptId : Option Int) : Answer × Store :=
  match store.runs (.ofOption scriptId) with
  | (.ok rows, store) => (.success (.list (rows.map Record.toValue)), store)
  | (.error e, store) => (.crashed e, store)

/-! ### All requests -/

/-- Answer a demand that is made at a time. `durationMs` is how long a run is said to have taken. -/
def serve (room : Room) (now : String) (durationMs : Int) (store : Store) : Demand → Answer × Store
  | .run r =>
    match runText room now durationMs store r with
    | (value, store) => (.success value, store)
  | .validate r => (.success (validateText r), store)
  | .save r =>
    match saveText now store r with
    | (value, store) => (.success value, store)
  | .scripts => listScripts store
  | .script id => showScript store id
  | .stats scriptId => listRuns store scriptId

/-- Answer a request that arrives at a time. -/
def handle (host : Host) (now : String) (durationMs : Int) (store : Store) (r : Request) :
    Answer × Store :=
  match host.read r with
  | .error answer => (answer, store)
  | .ok demand => serve host.room now durationMs store demand

/-- Answer requests in order, each with the time at which it arrives. -/
def handleAll (host : Host) (durationMs : Int) (store : Store) :
    List (String × Request) → List Answer × Store
  | [] => ([], store)
  | (now, r) :: rs =>
    match handle host now durationMs store r with
    | (answer, store) =>
      match handleAll host durationMs store rs with
      | (answers, store) => (answer :: answers, store)

end TapeMachine.Service
