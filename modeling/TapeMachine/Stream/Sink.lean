import TapeMachine.Stream.Failure

/-!
# Sinks

The bytes that were accepted, the calls that were made, and schedules of the write and flush calls that
fail. A call that fails is recorded and does nothing else.
-/

namespace TapeMachine

/-- A call on a sink. -/
inductive SinkCall where
  | write (data : List UInt8)
  | flush
  deriving DecidableEq, Repr

/-- A destination of bytes. -/
structure Sink where
  /-- The accepted bytes, the newest first. -/
  written : List UInt8
  /-- The calls made, failed ones included, the newest first. -/
  calls : List SinkCall
  /-- The number of write calls made, failed ones included. -/
  writes : Nat
  /-- The number of flush calls made, failed ones included. -/
  flushes : Nat
  /-- The write calls that fail, counted from zero. -/
  writeFault : Nat → Option Failure
  /-- The flush calls that fail, counted from zero. -/
  flushFault : Nat → Option Failure

namespace Sink

/-- A sink that never fails and holds nothing. -/
def healthy : Sink := ⟨[], [], 0, 0, fun _ => none, fun _ => none⟩

/-- The accepted bytes in order. -/
def bytes (s : Sink) : List UInt8 := s.written.reverse

/-- Write bytes; gives their number. -/
def write (s : Sink) (data : List UInt8) : Except Failure Nat × Sink :=
  match s.writeFault s.writes with
  | some f => (.error f, { s with calls := .write data :: s.calls, writes := s.writes + 1 })
  | none =>
    (.ok data.length, { s with
      written := data.reverse ++ s.written
      calls := .write data :: s.calls
      writes := s.writes + 1 })

/-- Pass on what was written. -/
def flush (s : Sink) : Except Failure Unit × Sink :=
  match s.flushFault s.flushes with
  | some f => (.error f, { s with calls := .flush :: s.calls, flushes := s.flushes + 1 })
  | none => (.ok (), { s with calls := .flush :: s.calls, flushes := s.flushes + 1 })

end Sink

end TapeMachine
