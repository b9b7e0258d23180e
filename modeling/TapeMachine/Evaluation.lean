import TapeMachine.Machine.Run
import TapeMachine.Setup
import TapeMachine.Text.Utf8

/-!
# Evaluation

Running a text once against bytes held in memory, with settings given as a loosely typed table. The
outcome is a report; an error of the program is part of it, while settings that cannot be used are
not.
-/

namespace TapeMachine

/-- What a run of a text gave. -/
structure Report where
  /-- The output as text, ill-formed bytes replaced. -/
  output : String
  /-- The number of bytes of output. -/
  outputBytes : Nat
  /-- The number of instructions executed. -/
  steps : Int
  error : Option Error

/-- A report as a table. -/
def Report.fields (r : Report) : List (String × Value) := [
  ("output", .text r.output),
  ("output_bytes", .int r.outputBytes),
  ("steps", .int r.steps),
  ("errors", (r.error.map Error.details).getD .null)]

/-- Why there is no report. -/
inductive Abort where
  /-- The settings cannot be used. -/
  | setup (e : SetupError)
  /-- The run stopped on something that is no error of the program. -/
  | fault (f : Fault)
  /-- The message of the error has an integer in it that cannot be written. -/
  | unwritable
  /-- The run was given up. -/
  | unfinished

/-- How a missing report is explained. -/
def Abort.message : Abort → String
  | .setup e => e.message
  | .fault f => f.message
  | .unwritable => Text.unwritableMessage
  | .unfinished => "the run did not finish"

/-- The configuration that the fields of settings ask for. The tape length and the cell width are
converted to integers, in this order; the caps are taken as they are. -/
def Config.ofFields (v : Value) : Except ConversionError Config :=
  match (v.fieldD "cells" (.int 30000)).toInt with
  | .error e => .error e
  | .ok cells =>
    match (v.fieldD "cell_bits" (.int 8)).toInt with
    | .error e => .error e
    | .ok bits => .ok {
        cells := .int cells
        extensible := .bool (v.fieldD "extensible" (.bool false)).truth
        cellBits := .int bits
        maxSteps := v.fieldD "max_steps" .null
        maxOutput := v.fieldD "max_output_bytes" .null }

/-- The configuration that settings ask for. -/
def Config.ofSettings (v : Value) : Except ConversionError Config :=
  match v.toSettings with
  | .error e => .error e
  | .ok fields => Config.ofFields fields

/-- What an ending says of the program: nothing, or an error that can be put into words. -/
def Ending.verdict : Ending → Except Abort (Option Error)
  | .finished => .ok none
  | .failed (.error e _) => if e.problem.isWritable then .ok (some e) else .error .unwritable
  | .failed f => .error (.fault f)
  | .unfinished => .error .unfinished

theorem Ending.verdict_eq_ok {x : Ending} {error : Option Error} (h : x.verdict = .ok error) :
    x = .finished ∧ error = none ∨
      ∃ e cause, x = .failed (.error e cause) ∧ error = some e ∧ e.problem.isWritable = true := by
  unfold verdict at h
  split at h
  · cases h
    exact .inl ⟨rfl, rfl⟩
  · next e cause =>
    by_cases hw : e.problem.isWritable = true
    · rw [if_pos hw] at h
      cases h
      exact .inr ⟨e, cause, rfl, rfl, hw⟩
    · rw [if_neg hw] at h
      cases h
  · cases h
  · cases h

namespace Evaluation

/-- A report on the bytes of a sink. -/
def reportOn (output : Sink) (steps : Int) (error : Option Error) : Report :=
  let bytes := output.bytes
  ⟨Text.Utf8.decodeLossy bytes, bytes.length, steps, error⟩

/-- The report of a run that has ended. -/
def ofRun (run : Run) : Except Abort Report :=
  run.ending.verdict.map (reportOn run.output run.machine.steps)

/-- A report tells the output and the steps of its run, and what its ending says. -/
theorem ofRun_eq_ok {run : Run} {report : Report} (h : ofRun run = .ok report) :
    ∃ error, run.ending.verdict = .ok error ∧
      report = reportOn run.output run.machine.steps error := by
  unfold ofRun at h
  cases hverdict : run.ending.verdict with
  | error a =>
    rw [hverdict] at h
    cases h
  | ok error =>
    rw [hverdict] at h
    cases h
    exact ⟨error, rfl, rfl⟩

/-- Run a text. Without a cap on the steps that is an integer, at most `patience` steps are
tried. -/
def run (room : Room) (patience : Nat) (source : Option String) (text : String) (input : List UInt8)
    (settings : Value) : Except Abort Report :=
  match Config.ofSettings settings with
  | .error e => .error (.setup (.conversion e))
  | .ok config =>
    match Setup.ofConfig room (Program.ofText source text) config with
    | .error (.brackets e) => .ok (reportOn .healthy 0 (some e))
    | .error e => .error (.setup e)
    | .ok (code, _, settings) =>
      ofRun (interpret (settings.caps.fuel patience) code settings (.ofBytes input) .healthy)

theorem run_of_setup {room : Room} {source : Option String} {text : String} {v : Value}
    {config : Config} {code : Code} {setup : Setup} {settings : Settings}
    (hconfig : Config.ofSettings v = .ok config)
    (hsetup : Setup.ofConfig room (.ofText source text) config = .ok (code, setup, settings))
    (patience : Nat) (input : List UInt8) :
    run room patience source text input v =
      ofRun (interpret (settings.caps.fuel patience) code settings (.ofBytes input) .healthy) := by
  simp only [run, hconfig, hsetup]

end Evaluation

end TapeMachine
