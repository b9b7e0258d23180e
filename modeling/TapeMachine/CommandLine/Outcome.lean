import TapeMachine.CommandLine.Options
import TapeMachine.Evaluation
import TapeMachine.Program.Load

/-!
# What the command does

The command loads a program, and lists it or runs it against standard input and output. Errors of
the program and of loading it are told on the error stream; the exit status is 1 then, and 2 after a
usage error.
-/

namespace TapeMachine.CommandLine

/-- What the command leaves behind. -/
structure Outcome where
  status : Nat
  /-- What it wrote to standard output. -/
  output : List UInt8
  /-- What it wrote to the error stream. -/
  errors : String
  deriving DecidableEq, Repr

/-- An end that the command does not handle itself. -/
inductive Crash where
  /-- The path of the program is refused before the system sees it. -/
  | path (e : FileError)
  | abort (a : Abort)

/-- How such an end is explained. -/
def Crash.message : Crash → String
  | .path e => e.message
  | .abort a => a.message

/-- The outcome of a command that ends before it has begun. -/
def Stop.outcome : Stop → Outcome
  | .help => ⟨0, Text.Utf8.encode helpText, ""⟩
  | .usage e => ⟨2, [], e.report⟩

/-- The events that are told, each on a line: warnings, and all others if details are asked for. -/
def told (debug : Bool) (events : List Event) : String :=
  String.join ((events.filter fun e => debug || e.isWarning).map fun e => e.line ++ "\n")

/-- The listing of a program, if there is anything to list. -/
def listed (p : Program) : Outcome :=
  ⟨0, if p.listing.isEmpty then [] else Text.Utf8.encode (p.listing ++ "\n"), ""⟩

/-- The outcome of a program that could not be loaded. -/
def notLoaded (path : String) (e : LoadError) : Except Crash Outcome :=
  match e with
  | .file .embeddedNul => .error (.path .embeddedNul)
  | e => .ok ⟨1, [], "error: cannot read " ++ path ++ ": " ++ e.message ++ "\n"⟩

/-- The outcome of an error of the program. -/
def failed (debug : Bool) (output : List UInt8) (events : List Event) (e : Error) : Outcome :=
  ⟨1, output, told debug (events ++ [.runFailed e.code]) ++ "error: " ++ e.message ++ "\n"⟩

/-- The outcome of a run. -/
def ended (debug : Bool) (run : Run) : Except Crash Outcome :=
  match run.ending.verdict with
  | .ok none => .ok ⟨0, run.output.bytes, told debug run.log⟩
  | .ok (some e) => .ok (failed debug run.output.bytes run.log e)
  | .error a => .error (.abort a)

/-- The configuration that options ask for. -/
def Options.config (o : Options) : Config where
  cells := o.cells
  extensible := .bool o.extensible
  cellBits := o.cellBits

/-- List or run a program that was loaded. -/
def perform (room : Room) (patience : Nat) (o : Options) (p : Program) (input : List UInt8) :
    Except Crash Outcome :=
  if o.dump then .ok (listed p)
  else
    match Setup.ofConfig room p o.config with
    | .error (.brackets e) => .ok (failed o.debug [] [] e)
    | .error e => .error (.abort (.setup e))
    | .ok (code, _, settings) =>
      ended o.debug (interpret patience code settings (.ofBytes input) .healthy)

/-- The command as a whole. -/
def respond (room : Room) (patience : Nat) (files : FileTree) (arguments : List String)
    (input : List UInt8) : Except Crash Outcome :=
  match Options.ofArguments arguments with
  | .error s => .ok s.outcome
  | .ok o =>
    match Program.load files o.program with
    | .error e => notLoaded o.program e
    | .ok p => perform room patience o p input

end TapeMachine.CommandLine
