import TapeMachine.Log
import TapeMachine.Stream.Sink

/-!
# Line writers

A writer over a sink that remembers whether what it has passed on ends a line, so that a run can
leave its output on a line boundary: finalizing writes one line feed unless the last byte was one.
-/

namespace TapeMachine

/-- A writer that can end the last line. -/
structure LineWriter where
  sink : Sink
  /-- The last byte passed on was a line feed. -/
  endsLine : Bool

namespace LineWriter

/-- The line feed. -/
def newline : UInt8 := 0x0A

/-- A writer that has passed on nothing. -/
def onto (s : Sink) : LineWriter := ⟨s, false⟩

/-- Write bytes; gives their number. -/
def write (w : LineWriter) (data : List UInt8) : Except Failure Nat × LineWriter :=
  match w.sink.write data with
  | (.error f, s) => (.error f, ⟨s, w.endsLine⟩)
  | (.ok n, s) =>
    (.ok n, ⟨s, match data.getLast? with
      | none => w.endsLine
      | some b => b == newline⟩)

/-- Flush the sink. -/
def flush (w : LineWriter) : Except Failure Unit × LineWriter :=
  match w.sink.flush with
  | (r, s) => (r, ⟨s, w.endsLine⟩)

/-- Bytes, and a flush if they were accepted. -/
def writeThrough (w : LineWriter) (data : List UInt8) : Except Failure Unit × LineWriter :=
  match w.write data with
  | (.error f, w) => (.error f, w)
  | (.ok _, w) => w.flush

/-- End the last line, if that is not done. -/
def finalize (w : LineWriter) : Except Failure Unit × LineWriter :=
  if w.endsLine then (.ok (), w) else w.writeThrough [newline]

/-- End the use of the writer. After a failure of the user, a failure to end the line is only told
in the log if it is of a reported kind; `none` means that nothing new is raised. -/
def exit (w : LineWriter) (failed : Bool) : Option Failure × LineWriter × List Event :=
  match w.finalize with
  | (.ok _, w) => (none, w, [])
  | (.error f, w) =>
    if failed && f.kind.reported then (none, w, [.newlineFailed f.message]) else (some f, w, [])

end LineWriter

end TapeMachine
