import TapeMachine.Machine.Loose
import TapeMachine.Setup

/-!
# Sessions

A session holds a machine between calls, so that it can be stepped, run, reset and changed by hand.
A run starts by resetting the machine, and goes on from there.
-/

namespace TapeMachine

/-- A machine with its code, its configuration and its streams. -/
structure Session where
  code : Code
  setup : Setup
  machine : LooseMachine
  input : Reader
  output : Sink

namespace Session

/-- A new session. -/
def start (room : Room) (p : Program) (c : Config) (input : Reader) (output : Sink) :
    Except SetupError Session :=
  match Setup.ofConfig room p c with
  | .error e => .error e
  | .ok (code, setup, settings) =>
    .ok ⟨code, setup, .ofMachine (.initial settings), input, output⟩

/-- Make the machine as new. If no tape can be made, it stays as it was. -/
def reset (s : Session) : Except SetupError Session :=
  match s.setup.settings with
  | .error e => .error e
  | .ok settings => .ok { s with machine := .ofMachine (.initial settings) }

/-- The program has finished, if that can be told. -/
def finished (s : Session) : Except OperandError Bool := s.machine.finished s.code

/-- One step. The output is written as it is, without care for the end of its last line. -/
def step (s : Session) : Option Fault × Session × List Event :=
  match s with
  | ⟨code, setup, machine, input, output⟩ =>
    match machine.step setup.room code setup.caps ⟨input, .onto output, []⟩ with
    | ⟨fault, m, io⟩ => (fault, ⟨code, setup, m, io.input, io.output.sink⟩, io.log.reverse)

/-- Steps done by hand: the program counters they gave, the fault that stopped them, and the events
told. -/
structure Walk where
  session : Session
  counters : List Value
  fault : Option Fault
  log : List Event

/-- At most `n` steps, up to the first that fails. -/
def walk : (n : Nat) → Session → Walk
  | 0, s => ⟨s, [], none, []⟩
  | n + 1, s =>
    match s.step with
    | (some f, s, log) => ⟨s, [], some f, log⟩
    | (none, s, log) =>
      let pc := s.machine.pcValue
      let rest := walk n s
      { rest with counters := pc :: rest.counters, log := log ++ rest.log }

/-- The event that starts a run: the program, and the tape as the machine has it. -/
def started (s : Session) : Event :=
  .running s.code.program.label s.code.program.size s.machine.machine.tape.length s.setup.kind.bits
    s.setup.extensible.shown

/-- Go on with the program from where the machine stands, and close the run. -/
def proceed (patience : Nat) (s : Session) : Ending × Session × List Event :=
  match s with
  | ⟨code, setup, machine, input, output⟩ =>
    match machine.runFor setup.room code setup.caps (setup.caps.fuel patience)
      ⟨input, .onto output, [s.started]⟩ with
    | (ending, m, io) =>
      let run := Run.close code.program.label ending m.machine io
      (run.ending, ⟨code, setup, m, run.input, run.output⟩, run.log)

/-- Run the program from its start: reset the machine, and proceed. -/
def interpret (patience : Nat) (s : Session) : Except SetupError (Ending × Session × List Event) :=
  match s.reset with
  | .error e => .error e
  | .ok s => .ok (s.proceed patience)

/-- Something of a session that can be set. -/
inductive Attribute where
  | maxSteps
  | maxOutput
  | cells
  | extensible
  | pc
  | steps
  | outputBytes
  deriving DecidableEq, Repr

/-- Set something. The shape of the tape acts when the next tape is made. -/
def assign (s : Session) (v : Value) : Attribute → Session
  | .maxSteps =>
    { s with setup := { s.setup with caps := { s.setup.caps with steps := Limit.ofValue v } } }
  | .maxOutput =>
    { s with setup := { s.setup with caps := { s.setup.caps with output := Limit.ofValue v } } }
  | .cells => { s with setup := { s.setup with cells := v } }
  | .extensible => { s with setup := { s.setup with extensible := v } }
  | .pc => { s with machine := s.machine.setPc v }
  | .steps => { s with machine := s.machine.setSteps v }
  | .outputBytes => { s with machine := s.machine.setOutput v }

/-- Work the tape by hand. -/
def callTape (s : Session) (c : TapeCall) : Except TapeFault Value × Session × List Event :=
  match s.machine.tape.call s.setup.room c with
  | ⟨result, tape, log⟩ => (result, { s with machine := s.machine.setTape tape }, log)

end Session

end TapeMachine
