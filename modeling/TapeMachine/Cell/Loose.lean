import TapeMachine.Cell
import TapeMachine.Room
import TapeMachine.Value.Operand

/-!
# Cells of any width and content

A cell worked by hand may be asked for a width that no cell can have, and may be given a value that
is no integer. Only what looks at the largest value minds the width, and only what compares, counts
or masks minds the value.

Main facts: on integers, and for a width that there is room for, stepping is that of `CellKind`.
-/

namespace TapeMachine.LooseCell

variable (room : Room)

/-- The largest value of a width. -/
def largest (width : Value) : Except OperandError Int :=
  match width.asInt? with
  | none => .error (.unsupported "<<" (.int 1) width)
  | some bits =>
    if bits < 0 then .error .negativeShift
    else if tooManyBits ≤ bits then .error .tooManyDigits
    else if room.bits < bits then .error .outOfMemory
    else .ok (CellKind.largest ⟨bits.toNat⟩)

/-- One more, or zero from the largest value on. The largest value is looked at in any case. -/
def increment (width v : Value) : Except OperandError Value :=
  match largest room width with
  | .error e => .error e
  | .ok top =>
    match v with
    | .real x => .ok (if x.lt top then .real (x.addInt 1) else .int 0)
    | v =>
      match v.asInt? with
      | some n => .ok (.int (if n < top then n + 1 else 0))
      | none => .error (.unordered "<" v (.int top))

/-- One less, or the largest value from zero down, which is looked at only then. -/
def decrement (width v : Value) : Except OperandError Value :=
  match v with
  | .real x =>
    if !x.le 0 && x.ge 0 then .ok (.real (x.addInt (-1))) else (largest room width).map .int
  | v =>
    match v.asInt? with
    | some n => if 0 < n then .ok (.int (n - 1)) else (largest room width).map .int
    | none => .error (.unordered ">" v (.int 0))

/-- The value that a byte gives: any value is taken as it is. -/
def ofByte (v : Value) : Value := v

/-- The byte that a value gives. -/
def toByte (v : Value) : Except OperandError Int :=
  match v.asInt? with
  | some n => .ok (CellKind.u8.toByte n)
  | none => .error (.unsupported "&" v (.int 255))

/-! ### Integers -/

variable {room}

theorem largest_bits {k : CellKind} (h : k.bits ≤ room.bits) :
    largest room (.int k.bits) = .ok k.largest := by
  have hlt := room.bits_lt
  unfold largest
  simp only [Value.asInt?]
  rw [if_neg (by omega), if_neg (by omega), if_neg (by omega)]
  rfl

theorem increment_int {k : CellKind} (h : k.bits ≤ room.bits) (n : Int) :
    increment room (.int k.bits) (.int n) = .ok (.int (k.increment n)) := by
  unfold increment
  rw [largest_bits h]
  rfl

theorem decrement_int {k : CellKind} (h : k.bits ≤ room.bits) (n : Int) :
    decrement room (.int k.bits) (.int n) = .ok (.int (k.decrement n)) := by
  unfold decrement CellKind.decrement
  rw [largest_bits h]
  simp only [Value.asInt?]
  split <;> rfl

theorem toByte_int (k : CellKind) (n : Int) : toByte (.int n) = .ok (k.toByte n) := rfl

end TapeMachine.LooseCell
