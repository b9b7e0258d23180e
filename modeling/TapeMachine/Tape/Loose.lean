import TapeMachine.Arity
import TapeMachine.Cell.Loose
import TapeMachine.Error
import TapeMachine.Log
import TapeMachine.Tape

/-!
# Tapes worked by hand

The operations of a tape as calls, made one at a time. By hand any value can be stored in a cell, and
a tape can have any width. Values that are no integers are kept beside the tape, by the index of
their cell; the cell itself then holds an integer that is zero exactly if the value equals zero.
-/

namespace TapeMachine

/-- An operation of a tape. -/
inductive TapeCall where
  | moveLeft
  | moveRight
  | increment
  | decrement
  | getValue
  | setValue (v : Value)

/-- What goes wrong with an operation. -/
inductive TapeFault where
  | problem (p : Problem)
  | operand (e : OperandError)

/-- A tape whose cells hold any values. -/
structure LooseTape where
  tape : Tape
  /-- The width in bits. -/
  width : Value
  /-- The values that are no integers, by the index of their cell. -/
  odd : List (Nat × Value)

namespace LooseTape

/-- The value of the cell under the pointer. -/
def value (t : LooseTape) : Value := (t.odd.lookup t.tape.pointer).getD (.int t.tape.current)

/-- The integer that a cell holds in place of a value. -/
def standIn (v : Value) : Int :=
  match v with
  | .real x => if x.isZero then 0 else 1
  | v => v.asInt?.getD 1

/-- The values beside a tape, without that of one cell. -/
def without (odd : List (Nat × Value)) (i : Nat) : List (Nat × Value) :=
  odd.filter fun entry => entry.1 != i

/-- The tape with another value under the pointer. -/
def put (t : LooseTape) (v : Value) : LooseTape :=
  let i := t.tape.pointer
  match t, v with
  | ⟨tape, width, odd⟩, .int n => ⟨tape.put n, width, without odd i⟩
  | ⟨tape, width, odd⟩, v => ⟨tape.put (standIn v), width, (i, v) :: without odd i⟩

/-- The value of a cell, if there is such a cell. -/
def valueAt? (t : LooseTape) (i : Nat) : Option Value :=
  match t.tape.cells[i]? with
  | none => none
  | some n => some ((t.odd.lookup i).getD (.int n))

/-- The cells below an index whose values count as yes, in front of those found already. -/
def nonzeroBelow (t : LooseTape) : Nat → List (Nat × Value) → List (Nat × Value)
  | 0, found => found
  | i + 1, found =>
    match t.valueAt? i with
    | none => nonzeroBelow t i found
    | some v => nonzeroBelow t i (if v.truth then (i, v) :: found else found)

/-- The cells whose values count as yes, with their indices, by increasing index. -/
def nonzero (t : LooseTape) : List (Nat × Value) := t.nonzeroBelow t.tape.length []

/-- A tape after a call: the fault or the result, the tape, and the events told. -/
structure Answer where
  result : Except TapeFault Value
  tape : LooseTape
  log : List Event

/-- The answer to a call that steps the cell under the pointer. -/
def stepped (t : LooseTape) (r : Except OperandError Value) : Answer :=
  match r with
  | .error e => ⟨.error (.operand e), t, []⟩
  | .ok v => ⟨.ok .null, t.put v, []⟩

/-- Make a call. -/
def call (room : Room) (t : LooseTape) : TapeCall → Answer
  | .moveLeft =>
    match t.tape.moveLeft? with
    | none => ⟨.error (.problem .pointerUnderflow), t, []⟩
    | some u => ⟨.ok .null, { t with tape := u }, []⟩
  | .moveRight =>
    match t.tape.moveRight? with
    | none => ⟨.error (.problem .pointerOverflow), t, []⟩
    | some u =>
      ⟨.ok .null, { t with tape := u }, if u.length = t.tape.length then [] else [.extended u.length]⟩
  | .increment => t.stepped (LooseCell.increment room t.width t.value)
  | .decrement => t.stepped (LooseCell.decrement room t.width t.value)
  | .getValue =>
    match LooseCell.toByte t.value with
    | .error e => ⟨.error (.operand e), t, []⟩
    | .ok n => ⟨.ok (.int n), t, []⟩
  | .setValue v => ⟨.ok .null, t.put (LooseCell.ofByte v), []⟩

end LooseTape

/-! ### Calls by name -/

/-- A call without arguments. -/
def TapeCall.bare (name : String) (c : TapeCall) :
    List Value → Except ArgumentError TapeCall
  | [] => .ok c
  | arguments => .error (.ofCount name [] 1 arguments.length)

/-- A call that stores its argument. -/
def TapeCall.storing : List Value → Except ArgumentError TapeCall
  | [v] => .ok (.setValue v)
  | arguments => .error (.ofCount "Tape.set_value" ["byte"] 1 arguments.length)

/-- The call of a name; none if there is no such call. -/
def TapeCall.ofName? (name : String) (arguments : List Value) :
    Option (Except ArgumentError TapeCall) :=
  match name with
  | "move_left" => some (bare "Tape.move_left" .moveLeft arguments)
  | "move_right" => some (bare "Tape.move_right" .moveRight arguments)
  | "increment" => some (bare "Tape.increment" .increment arguments)
  | "decrement" => some (bare "Tape.decrement" .decrement arguments)
  | "get_value" => some (bare "Tape.get_value" .getValue arguments)
  | "set_value" => some (storing arguments)
  | _ => none

end TapeMachine
