import TapeMachine.Cell

/-!
# The tape

A row of cells and a pointer to one of them. An extensible tape doubles its length, with cells at
zero, when the pointer moves past the last cell; any other tape refuses that move.
-/

namespace TapeMachine

/-- A row of cells and a pointer into it. -/
structure Tape where
  kind : CellKind
  extensible : Bool
  cells : Array Int
  pointer : Nat
  pointer_lt : pointer < cells.size

namespace Tape

/-- The number of cells. -/
def length (t : Tape) : Nat := t.cells.size

/-- A tape of zeros, with the pointer at its first cell. -/
def blank (length : Nat) (pos : 0 < length) (extensible : Bool) (kind : CellKind) : Tape :=
  ⟨kind, extensible, Array.replicate length 0, 0, by simpa using pos⟩

/-- The value of the cell under the pointer. -/
def current (t : Tape) : Int :=
  have := t.pointer_lt
  t.cells[t.pointer]

/-- The tape with another value under the pointer. -/
def put (t : Tape) (v : Int) : Tape :=
  match t with
  | ⟨kind, extensible, cells, pointer, h⟩ =>
    ⟨kind, extensible, cells.set pointer v h, pointer, by simpa using h⟩

/-- The pointer one cell to the left; none at the first cell. -/
def moveLeft? (t : Tape) : Option Tape :=
  if t.pointer = 0 then none
  else some { t with pointer := t.pointer - 1, pointer_lt := by have := t.pointer_lt; omega }

/-- The tape at twice its length. -/
def doubled (t : Tape) : Tape :=
  { t with
    cells := t.cells ++ Array.replicate t.cells.size 0
    pointer_lt := by have := t.pointer_lt; simp; omega }

/-- The pointer one cell to the right; none at the last cell of a tape that is not extensible. -/
def moveRight? (t : Tape) : Option Tape :=
  if h : t.pointer + 1 < t.cells.size then some { t with pointer := t.pointer + 1, pointer_lt := h }
  else if t.extensible then
    some { t.doubled with
      pointer := t.pointer + 1
      pointer_lt := by have := t.pointer_lt; simp [doubled]; omega }
  else none

/-- Step the cell under the pointer up. -/
def increment (t : Tape) : Tape := t.put (t.kind.increment t.current)

/-- Step the cell under the pointer down. -/
def decrement (t : Tape) : Tape := t.put (t.kind.decrement t.current)

/-- The byte of the cell under the pointer. -/
def byte (t : Tape) : Int := t.kind.toByte t.current

/-- Store a byte in the cell under the pointer. -/
def setByte (t : Tape) (b : Int) : Tape := t.put (t.kind.ofByte b)

/-- The cells that are not zero, with their indices, by increasing index. -/
def nonzero (t : Tape) : List (Nat × Int) :=
  t.cells.toList.zipIdx.filterMap fun (v, i) => if v = 0 then none else some (i, v)

end Tape

end TapeMachine
