import TapeMachine.Machine

/-!
# Runs

A run repeats steps until the program has finished or a step fails. A program may loop forever, so
a run is given the most steps it may try; a cap on the steps bounds it as well. Around the steps,
`interpret` starts from a fresh machine, tells the log, and leaves the output on a line boundary,
also after a failure.
-/

namespace TapeMachine

/-- How a run ended. -/
inductive Ending where
  /-- The program finished. -/
  | finished
  /-- A step failed, or the last line could not be ended. -/
  | failed (f : Fault)
  /-- The steps that the run may try were used up. -/
  | unfinished

/-- Try at most `fuel` steps. -/
def runFor (code : Code) (caps : Caps) : (fuel : Nat) → Machine → Streams →
    Ending × Machine × Streams
  | 0, m, io => (if code.finished m.pc then .finished else .unfinished, m, io)
  | n + 1, m, io =>
    if code.finished m.pc then (.finished, m, io)
    else
      match step code caps m io with
      | ⟨some f, m, io⟩ => (.failed f, m, io)
      | ⟨none, m, io⟩ => runFor code caps n m io

/-- Steps enough for a run to reach its cap if the cap is an integer, else `patience`. -/
def Caps.fuel (caps : Caps) (patience : Nat) : Nat :=
  match caps.steps with
  | some (.count n) => n.toNat + 1
  | _ => patience

/-- A run that has ended. -/
structure Run where
  ending : Ending
  machine : Machine
  input : Reader
  output : Sink
  /-- The events told, in order. -/
  log : List Event

/-- The end of a run: end the last line, and tell of a run that finished. A failure to end the line
is the run's own unless a step had failed before; then it replaces the step's fault only if it is of
a kind that is not reported. -/
def Run.close (label : String) (ending : Ending) (m : Machine) (io : Streams) : Run :=
  match ending with
  | .finished =>
    match io.output.exit false with
    | (none, w, _) => ⟨.finished, m, io.input, w.sink, (.finished label m.steps :: io.log).reverse⟩
    | (some f, w, _) => ⟨.failed (.failure f), m, io.input, w.sink, io.log.reverse⟩
  | .failed fault =>
    match io.output.exit true with
    | (none, w, told) => ⟨.failed fault, m, io.input, w.sink, io.log.reverse ++ told⟩
    | (some f, w, _) => ⟨.failed (.failure f), m, io.input, w.sink, io.log.reverse⟩
  | .unfinished => ⟨.unfinished, m, io.input, io.output.sink, io.log.reverse⟩

/-- The event that starts a run. -/
def Settings.started (s : Settings) (p : Program) : Event :=
  .running p.label p.size s.cells s.kind.bits s.shownExtensible

/-- Run a program from its start on a fresh tape. -/
def interpret (fuel : Nat) (code : Code) (settings : Settings) (input : Reader) (output : Sink) :
    Run :=
  match runFor code settings.caps fuel (.initial settings)
    ⟨input, .onto output, [settings.started code.program]⟩ with
  | (ending, m, io) => Run.close code.program.label ending m io

end TapeMachine
