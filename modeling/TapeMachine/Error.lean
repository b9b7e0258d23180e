import TapeMachine.Arity
import TapeMachine.Instruction
import TapeMachine.Limit

/-!
# Errors

What can go wrong with a program, when it is checked and when it runs. An error is a problem and the
place it is blamed on; the place is filled in once, and what was recorded first stays.
-/

namespace TapeMachine

/-- What went wrong. -/
inductive Problem where
  /-- Any failure of a program. -/
  | general
  /-- Any failure of the bracket check. -/
  | bracket
  | unmatchedOpen
  | unmatchedClose
  /-- Any failure of a running program. -/
  | runtime
  | pointerUnderflow
  | pointerOverflow
  /-- Any failure of a stream. -/
  | stream (reason : Value)
  | read (reason : Value)
  | write (reason : Value)
  | stepLimit (limit : Limit)
  | outputLimit (limit : Limit)

/-- The kinds of problems, which form a tree. -/
inductive Kind where
  | general
  | bracket
  | unmatchedOpen
  | unmatchedClose
  | runtime
  | pointerUnderflow
  | pointerOverflow
  | stream
  | read
  | write
  | stepLimit
  | outputLimit
  deriving DecidableEq, Repr, Inhabited

namespace Kind

/-- The kinds that a kind belongs to, from itself up to the most general. -/
def family : Kind → List Kind
  | .general => [.general]
  | .bracket => [.bracket, .general]
  | .unmatchedOpen => [.unmatchedOpen, .bracket, .general]
  | .unmatchedClose => [.unmatchedClose, .bracket, .general]
  | .runtime => [.runtime, .general]
  | .pointerUnderflow => [.pointerUnderflow, .runtime, .general]
  | .pointerOverflow => [.pointerOverflow, .runtime, .general]
  | .stream => [.stream, .runtime, .general]
  | .read => [.read, .stream, .runtime, .general]
  | .write => [.write, .stream, .runtime, .general]
  | .stepLimit => [.stepLimit, .runtime, .general]
  | .outputLimit => [.outputLimit, .runtime, .general]

/-- The stable code of a kind. The kinds that only group others share one. -/
def code : Kind → String
  | .unmatchedOpen => "UNMATCHED_OPEN"
  | .unmatchedClose => "UNMATCHED_CLOSE"
  | .pointerUnderflow => "POINTER_UNDERFLOW"
  | .pointerOverflow => "POINTER_OVERFLOW"
  | .read => "READ_ERROR"
  | .write => "WRITE_ERROR"
  | .stepLimit => "STEP_LIMIT"
  | .outputLimit => "OUTPUT_LIMIT"
  | .general | .bracket | .runtime | .stream => "BRAINFUCK_ERROR"

end Kind

namespace Problem

/-- The kind of a problem. -/
def kind : Problem → Kind
  | .general => .general
  | .bracket => .bracket
  | .unmatchedOpen => .unmatchedOpen
  | .unmatchedClose => .unmatchedClose
  | .runtime => .runtime
  | .pointerUnderflow => .pointerUnderflow
  | .pointerOverflow => .pointerOverflow
  | .stream _ => .stream
  | .read _ => .read
  | .write _ => .write
  | .stepLimit _ => .stepLimit
  | .outputLimit _ => .outputLimit

/-- The reason that a failed stream gave. -/
def reason? : Problem → Option Value
  | .stream r | .read r | .write r => some r
  | _ => none

/-- Whether a problem can be put into words: what it tells of can be written. -/
def isWritable : Problem → Bool
  | .stream r | .read r | .write r => r.isWritable
  | .stepLimit l | .outputLimit l => l.isWritable
  | _ => true

/-- A problem in words, at a location. -/
def describe (location : String) : Problem → String
  | .general | .bracket | .runtime => "Brainfuck error at " ++ location
  | .unmatchedOpen => "Found '[' at " ++ location ++ " but no matching ']' found"
  | .unmatchedClose => "Found ']' at " ++ location ++ " but no matching '[' found"
  | .pointerUnderflow =>
    "Pointer already at 0 but " ++ location ++ " still wants to move it left"
  | .pointerOverflow =>
    "Pointer already at right edge and tape is not extensible, but " ++ location ++
      " still wants to move it right"
  | .stream r => location ++ " wants to access the stream but failed due to " ++ r.shown
  | .read r => location ++ " wants to read a value but failed due to " ++ r.shown
  | .write r => location ++ " wants to write a value but failed due to " ++ r.shown
  | .stepLimit l => "Step limit of " ++ l.text ++ " exceeded at " ++ location
  | .outputLimit l => "Output limit of " ++ l.text ++ " bytes reached at " ++ location

/-- The problem of a kind, with the reason or the limit that it tells. A kind that tells neither takes
no argument, because its first one is the source. -/
def ofKind (k : Kind) (argument : Option Value) : Except ArgumentError Problem :=
  let plain (p : Problem) : Except ArgumentError Problem :=
    if argument.isSome then .error (.repeated "BrainfuckError.__init__" "source") else .ok p
  let telling (call name : String) (problem : Value → Problem) : Except ArgumentError Problem :=
    match argument with
    | none => .error (.ofCount call [name] 1 0)
    | some v => .ok (problem v)
  match k with
  | .general => plain .general
  | .bracket => plain .bracket
  | .unmatchedOpen => plain .unmatchedOpen
  | .unmatchedClose => plain .unmatchedClose
  | .runtime => plain .runtime
  | .pointerUnderflow => plain .pointerUnderflow
  | .pointerOverflow => plain .pointerOverflow
  | .stream => telling "_IOFailure.__init__" "reason" .stream
  | .read => telling "_IOFailure.__init__" "reason" .read
  | .write => telling "_IOFailure.__init__" "reason" .write
  | .stepLimit => telling "StepLimitError.__init__" "limit" fun v => .stepLimit (.told v)
  | .outputLimit => telling "OutputLimitError.__init__" "limit" fun v => .outputLimit (.told v)

end Problem

/-- A value that names no command. -/
structure NotACommand where
  value : Value

/-- How it is reported. -/
def NotACommand.message (e : NotACommand) : String :=
  if e.value.isWritable then e.value.quoted ++ " is not a valid RawOpcode" else Text.unwritableMessage

/-- The command that a value names. -/
def Opcode.ofValue (v : Value) : Except NotACommand Opcode :=
  match v with
  | .text s =>
    match ofText? s with
    | some op => .ok op
    | none => .error ⟨v⟩
  | v => .error ⟨v⟩

/-- A problem and the place it is blamed on, as far as that is known. -/
structure Error where
  problem : Problem
  source : Option String
  place : Option Place

namespace Error

/-- A problem whose place is not known yet. -/
def unplaced (p : Problem) : Error := ⟨p, none, none⟩

/-- Fill in what is not known of the place. -/
def locate (e : Error) (source : Option String) (place : Option Place) : Error :=
  { e with source := e.source.or source, place := e.place.or place }

/-- The place in brackets: the source, and the row and column. -/
def location (e : Error) : String :=
  let source := e.source.getD "?"
  match e.place with
  | none => "[" ++ source ++ "]"
  | some p => "[" ++ source ++ ":" ++ toString p.row ++ ":" ++ toString p.col ++ "]"

/-- The stable code. -/
def code (e : Error) : String := e.problem.kind.code

/-- The error in words. -/
def message (e : Error) : String := e.problem.describe e.location

/-- The error as a table of its parts. -/
def details (e : Error) : Value :=
  let known := e.place
  .table ([
    ("code", .text e.code),
    ("message", .text e.message),
    ("source", (e.source.map Value.text).getD .null),
    ("line", (known.map fun p => Value.int p.row).getD .null),
    ("column", (known.map fun p => Value.int p.col).getD .null),
    ("opcode", (known.map fun p => Value.text p.opcode.symbol.toString).getD .null)] ++
    (e.problem.reason?.map fun r => ("reason", r)).toList)

end Error

end TapeMachine
