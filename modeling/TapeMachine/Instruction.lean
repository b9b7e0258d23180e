/-!
# Instructions

The eight commands, and a command together with the place it was read from.
-/

namespace TapeMachine

/-- A command. -/
inductive Opcode where
  | moveLeft
  | moveRight
  | increment
  | decrement
  | input
  | output
  | beginLoop
  | endLoop
  deriving DecidableEq, Repr, Inhabited

namespace Opcode

/-- The character that a command is written as. -/
def symbol : Opcode → Char
  | .moveLeft => '<'
  | .moveRight => '>'
  | .increment => '+'
  | .decrement => '-'
  | .input => ','
  | .output => '.'
  | .beginLoop => '['
  | .endLoop => ']'

/-- The command that a character is, if it is not commentary. -/
def ofChar? : Char → Option Opcode
  | '<' => some .moveLeft
  | '>' => some .moveRight
  | '+' => some .increment
  | '-' => some .decrement
  | ',' => some .input
  | '.' => some .output
  | '[' => some .beginLoop
  | ']' => some .endLoop
  | _ => none

/-- The command that a text of one character is. -/
def ofText? (s : String) : Option Opcode :=
  match s.toList with
  | [c] => ofChar? c
  | _ => none

/-- The name of a command. -/
def name : Opcode → String
  | .moveLeft => "MOVE_LEFT"
  | .moveRight => "MOVE_RIGHT"
  | .increment => "INCREMENT"
  | .decrement => "DECREMENT"
  | .input => "INPUT"
  | .output => "OUTPUT"
  | .beginLoop => "BEGIN_LOOP"
  | .endLoop => "END_LOOP"

/-- What a command does, in words. -/
def description : Opcode → String
  | .moveLeft => "Move pointer to left"
  | .moveRight => "Move pointer to right"
  | .increment => "Increment current location"
  | .decrement => "Decrement current location"
  | .input => "Input ASCII to current location"
  | .output => "Output current location as ASCII"
  | .beginLoop => "Start looping"
  | .endLoop => "End looping"

@[simp] theorem ofChar?_symbol (op : Opcode) : ofChar? op.symbol = some op := by
  cases op <;> rfl

end Opcode

/-- A command and where it was read: row and column count from one. -/
structure Instruction where
  row : Nat
  col : Nat
  opcode : Opcode
  deriving DecidableEq, Repr, Inhabited

/-- What an error is blamed on: a command, and the row and column it is said to stand at. -/
structure Place where
  row : Int
  col : Int
  opcode : Opcode
  deriving DecidableEq, Repr, Inhabited

/-- The place of an instruction. -/
def Instruction.place (i : Instruction) : Place := ⟨i.row, i.col, i.opcode⟩

theorem Instruction.place_injective {i j : Instruction} (h : i.place = j.place) : i = j := by
  cases i
  cases j
  simp only [Instruction.place, Place.mk.injEq, Int.ofNat_inj] at h
  simp [h]

end TapeMachine
