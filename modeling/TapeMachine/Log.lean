/-!
# Log events

What a run tells about itself. An event is written as its level, the name of the part that speaks,
and a message.
-/

namespace TapeMachine

/-- Something worth telling. -/
inductive Event where
  /-- A run starts. -/
  | running (source : String) (instructions cells bits : Nat) (extensible : String)
  /-- A run ended without an error. -/
  | finished (source : String) (steps : Int)
  /-- The tape was doubled. -/
  | extended (cells : Nat)
  /-- The line of a failed run could not be ended. -/
  | newlineFailed (reason : String)
  /-- The command line gives up on an error. -/
  | runFailed (code : String)
  deriving DecidableEq, Repr

namespace Event

/-- An event that is told even when no details are asked for. -/
def isWarning : Event → Bool
  | .newlineFailed _ => true
  | _ => false

/-- The part that speaks. -/
def logger : Event → String
  | .running .. | .finished .. => "backend.brainfuck.interpreter"
  | .extended _ => "backend.brainfuck.tape"
  | .newlineFailed _ => "backend.brainfuck.newline_writer"
  | .runFailed _ => "bfvm"

/-- The event in words. -/
def message : Event → String
  | .running source instructions cells bits extensible =>
    "Running " ++ source ++ ": " ++ toString instructions ++ " instructions, " ++
      toString cells ++ " cells (" ++ toString bits ++ "-bit, extensible=" ++ extensible ++ ")"
  | .finished source steps => "Finished " ++ source ++ " after " ++ toString steps ++ " steps"
  | .extended cells => "Tape extended to " ++ toString cells ++ " cells"
  | .newlineFailed reason => "Could not write trailing newline: " ++ reason
  | .runFailed code => "Run failed with " ++ code

/-- The event as a line of the log. -/
def line (e : Event) : String :=
  (if e.isWarning then "WARNING " else "DEBUG ") ++ e.logger ++ ": " ++ e.message

end Event

end TapeMachine
