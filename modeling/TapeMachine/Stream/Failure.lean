/-!
# Failures of streams

A stream may refuse a call. Its failure has a name and a message of its own; all that a running program
asks is whether failures of the kind are reported as errors of the program, or pass through it unchanged.
-/

namespace TapeMachine

/-- A kind of failure that a stream can raise. -/
structure FailureKind where
  name : String
  /-- A program reports such a failure as its own error. -/
  reported : Bool
  deriving DecidableEq, Repr, Inhabited

/-- A refused call. -/
structure Failure where
  kind : FailureKind
  message : String
  deriving DecidableEq, Repr, Inhabited

/-- What every call to a closed stream raises. -/
def Failure.closed : Failure := ⟨⟨"ValueError", true⟩, "I/O operation on closed file."⟩

end TapeMachine
