import TapeMachine.Number.Power

/-!
# Cells

A cell holds an unsigned number of a fixed number of bits. Stepping past the largest value wraps to
zero and stepping below zero wraps to the largest value. Values outside the range can be stored, and
stepping them down is plain subtraction.

Main facts: stepping up and down are inverse to each other on the range of the width.
-/

namespace TapeMachine

/-- A cell width. -/
structure CellKind where
  bits : Nat
  deriving DecidableEq, Repr, Inhabited

namespace CellKind

def u8 : CellKind := ⟨8⟩
def u16 : CellKind := ⟨16⟩
def u32 : CellKind := ⟨32⟩
def u64 : CellKind := ⟨64⟩

/-- The widths a tape can be asked for, the narrowest first. -/
def supported : List CellKind := [u8, u16, u32, u64]

/-- The supported width of a number of bits. -/
def ofBits? (bits : Int) : Option CellKind := supported.find? fun k => (k.bits : Int) = bits

/-- The largest value of a cell. -/
def largest (k : CellKind) : Int := Number.powerOfTwo k.bits - 1

/-- One more, or zero from the largest value on. -/
def increment (k : CellKind) (v : Int) : Int := if v < k.largest then v + 1 else 0

/-- One less, or the largest value from zero down. -/
def decrement (k : CellKind) (v : Int) : Int := if 0 < v then v - 1 else k.largest

/-- The value that a byte read from a stream gives. -/
def ofByte (_ : CellKind) (byte : Int) : Int := byte

/-- The byte that a value gives: its low eight bits. -/
def toByte (_ : CellKind) (v : Int) : Int := v % 256

/-- A value that fits the width. -/
def Fits (k : CellKind) (v : Int) : Prop := 0 ≤ v ∧ v ≤ k.largest

theorem largest_nonneg (k : CellKind) : 0 ≤ k.largest := by
  have := Number.powerOfTwo_pos k.bits
  unfold largest
  omega

theorem fits_increment {k : CellKind} {v : Int} (h : k.Fits v) : k.Fits (k.increment v) := by
  obtain ⟨h₁, h₂⟩ := h
  have := k.largest_nonneg
  unfold Fits increment
  split <;> omega

theorem fits_decrement {k : CellKind} {v : Int} (h : k.Fits v) : k.Fits (k.decrement v) := by
  obtain ⟨h₁, h₂⟩ := h
  have := k.largest_nonneg
  unfold Fits decrement
  split <;> omega

theorem decrement_increment {k : CellKind} {v : Int} (h : k.Fits v) :
    k.decrement (k.increment v) = v := by
  obtain ⟨h₁, h₂⟩ := h
  unfold decrement increment
  repeat' split
  all_goals omega

theorem increment_decrement {k : CellKind} {v : Int} (h : k.Fits v) :
    k.increment (k.decrement v) = v := by
  obtain ⟨h₁, h₂⟩ := h
  unfold decrement increment
  repeat' split
  all_goals omega

end CellKind

end TapeMachine
