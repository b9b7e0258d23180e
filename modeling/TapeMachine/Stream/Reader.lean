import TapeMachine.Stream.Failure

/-!
# Readers

The bytes that are still to be read, and a schedule of the calls that fail. A call that fails
consumes nothing.
-/

namespace TapeMachine

/-- A source of bytes. -/
structure Reader where
  /-- The bytes not read yet. -/
  rest : List UInt8
  /-- The number of calls made, failed ones included. -/
  reads : Nat
  /-- The calls that fail, counted from zero. -/
  fault : Nat → Option Failure

namespace Reader

/-- A reader that never fails. -/
def ofBytes (bytes : List UInt8) : Reader := ⟨bytes, 0, fun _ => none⟩

/-- Read one byte; none at the end. -/
def read (r : Reader) : Except Failure (Option UInt8) × Reader :=
  match r.fault r.reads with
  | some f => (.error f, { r with reads := r.reads + 1 })
  | none =>
    match r.rest with
    | [] => (.ok none, { r with reads := r.reads + 1 })
    | b :: bs => (.ok (some b), { r with rest := bs, reads := r.reads + 1 })

end Reader

end TapeMachine
