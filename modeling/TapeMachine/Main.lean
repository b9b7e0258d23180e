import TapeMachine.CommandLine.Outcome

/-!
# The command

The command line of the machine: `bfvm [options] program`. It reads the program and standard input,
runs the machine a number of steps at a time, and passes on what was written in between, so that a
program without an end can be watched.
-/

namespace TapeMachine.CommandLine

/-- How many steps are done between two looks at the output. -/
def stepsBetween : Nat := 100000

/-- All bytes of a stream. -/
partial def readAll (stream : IO.FS.Stream) (found : ByteArray) : IO ByteArray := do
  let more ← stream.read 65536
  if more.isEmpty then return found else readAll stream (found ++ more)

/-- What is wrong with a file that the system refused, if that has a name here. -/
def problemOf? : IO.Error → Option FileProblem
  | .noFileOrDirectory .. => some .missing
  | .inappropriateType _ number _ => some (if number = 21 then .isADirectory else .notADirectory)
  | .invalidArgument .. => some .nameTooLong
  | _ => none

/-- The program of a file, or the outcome of not having it. -/
def readProgram (path : String) : IO (Except Outcome Program) := do
  let refused (words : String) : Outcome :=
    ⟨1, [], "error: cannot read " ++ path ++ ": " ++ words ++ "\n"⟩
  try
    let bytes ← IO.FS.readBinFile path
    match Program.ofBytes path bytes.toList with
    | .ok p => return .ok p
    | .error e => return .error (refused e.message)
  catch e =>
    match problemOf? e with
    | some problem =>
      return .error (refused (FileError.refused problem (.ofText path)).message)
    | none => return .error (refused (toString e))

/-- Run to the end, passing on the output on the way. -/
partial def runOn (out : IO.FS.Stream) (code : Code) (settings : Settings) (m : Machine)
    (io : Streams) : IO Run := do
  match runFor code settings.caps stepsBetween m io with
  | (.unfinished, m, io) =>
    out.write ⟨io.output.sink.bytes.toArray⟩
    out.flush
    runOn out code settings m
      { io with output := { io.output with sink := { io.output.sink with written := [], calls := [] } } }
  | (ending, m, io) => return Run.close code.program.label ending m io

/-- Standard input, if a program reads from it. -/
def inputOf (p : Program) : IO (List UInt8) := do
  if p.instructions.any (·.opcode = .input) then
    return (← readAll (← IO.getStdin) .empty).toList
  else return []

/-- List or run a program that was read. -/
def start (o : Options) (p : Program) : IO (Except Crash Outcome) := do
  if o.dump then return .ok (listed p)
  match Setup.ofConfig .usual p o.config with
  | .error (.brackets e) => return .ok (failed o.debug [] [] e)
  | .error e => return .error (.abort (.setup e))
  | .ok (code, _, settings) =>
    let run ← runOn (← IO.getStdout) code settings (.initial settings)
      ⟨.ofBytes (← inputOf p), .onto .healthy, [settings.started code.program]⟩
    return ended o.debug run

/-- Print an outcome; gives the exit status. -/
def finish (o : Outcome) : IO UInt32 := do
  let out ← IO.getStdout
  out.write ⟨o.output.toArray⟩
  out.flush
  (← IO.getStderr).putStr o.errors
  return UInt32.ofNat o.status

end TapeMachine.CommandLine

open TapeMachine.CommandLine in
/-- The command. -/
def main (arguments : List String) : IO UInt32 := do
  match Options.ofArguments arguments with
  | .error stop => finish stop.outcome
  | .ok o =>
    match ← readProgram o.program with
    | .error outcome => finish outcome
    | .ok p =>
      match ← start o p with
      | .ok outcome => finish outcome
      | .error crash => finish ⟨1, [], "error: " ++ crash.message ++ "\n"⟩
