import TapeMachine.Number.Power

/-!
# Room

Tapes and numbers take memory, and how much of it there is differs from place to place. So the room is a
parameter of whatever makes them. There is always enough for the tapes that the service allows and for the
cells of every width that a run can have; and no memory is large enough for a list of 2^60 cells or for a
number of `tooManyBits` bits.
-/

namespace TapeMachine

open Number

/-- The least number of bits that no number can have. -/
def tooManyBits : Nat := 30 * (powerOfTwo 61 - 8) + 1

/-- What there is room for. -/
structure Room where
  /-- The most cells of a tape. -/
  cells : Nat
  /-- The most bits of a number. -/
  bits : Nat
  le_cells : 65536 ≤ cells
  cells_lt : cells < powerOfTwo 60
  le_bits : 64 ≤ bits
  bits_lt : bits < tooManyBits

/-- Room for tapes of a gigabyte or more, as a machine of our days has it. -/
def Room.usual : Room :=
  ⟨powerOfTwo 30, powerOfTwo 31, by decide, by decide, by decide, by decide⟩

end TapeMachine
