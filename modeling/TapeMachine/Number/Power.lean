/-!
# Powers of two and ten

The two bases that widths, floating-point numbers and decimals are made of.
-/

namespace TapeMachine.Number

/-- A power of two. -/
def powerOfTwo (n : Nat) : Nat := Nat.pow 2 n

/-- A power of ten. -/
def powerOfTen (n : Nat) : Nat := Nat.pow 10 n

theorem powerOfTwo_pos (n : Nat) : 0 < powerOfTwo n := Nat.pow_pos (by decide)

end TapeMachine.Number
