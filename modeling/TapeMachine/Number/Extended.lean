import TapeMachine.Number.Binary64

/-!
# Extended floating-point numbers

Numbers of 64 significant bits without a sign, as exact values `mantissa · 2 ^ exponent`. The exponent
has no bounds, so nothing overflows. Each operation gives the number nearest to its exact result, a
tie going to the even mantissa; what takes several operations may therefore miss the nearest number.
-/

namespace TapeMachine.Number

/-- The number `mantissa · 2 ^ exponent`. -/
structure Extended where
  mantissa : Nat
  exponent : Int
  deriving DecidableEq, Repr, Inhabited

namespace Extended

/-- The exponent at which the positive fraction `num / den` has 64 bits. -/
def fitExponent (num den : Nat) : Int :=
  let guess : Int := (num.log2 : Int) - den.log2 - 63
  let (a, b) := Binary64.overPowerOfTwo num den guess
  if a < b * powerOfTwo 63 then guess - 1 else guess

/-- The number nearest to the fraction `num / den`. -/
def ofFraction (num den : Nat) : Extended :=
  if num = 0 then ⟨0, 0⟩
  else
    let e := fitExponent num den
    let (a, b) := Binary64.overPowerOfTwo num den e
    let m := Binary64.roundQuotient a b
    if m = powerOfTwo 64 then ⟨powerOfTwo 63, e + 1⟩ else ⟨m, e⟩

/-- The number nearest to a natural number. -/
def ofNat (n : Nat) : Extended := ofFraction n 1

/-- The size of a finite number of 53 bits, which loses nothing. -/
def ofReal : Binary64 → Extended
  | .finite _ m e => ⟨m, e⟩
  | _ => ⟨0, 0⟩

/-- A number times a power of two, which loses nothing. -/
def shift (x : Extended) (e : Int) : Extended := ⟨x.mantissa, x.exponent + e⟩

/-- A product. -/
def mul (x y : Extended) : Extended :=
  (ofNat (x.mantissa * y.mantissa)).shift (x.exponent + y.exponent)

/-- A quotient. -/
def div (x y : Extended) : Extended :=
  (ofFraction x.mantissa y.mantissa).shift (x.exponent - y.exponent)

/-- The mantissas that two numbers have at their lesser exponent, and that exponent. -/
def align (x y : Extended) : Nat × Nat × Int :=
  let low := min x.exponent y.exponent
  (x.mantissa * powerOfTwo (x.exponent - low).toNat,
    y.mantissa * powerOfTwo (y.exponent - low).toNat, low)

/-- A sum. -/
def add (x y : Extended) : Extended :=
  let (m, n, e) := x.align y
  (ofNat (m + n)).shift e

/-- Below another number. -/
def lt (x y : Extended) : Bool :=
  let (m, n, _) := x.align y
  m < n

/-- The whole part. -/
def whole (x : Extended) : Nat :=
  if 0 ≤ x.exponent then x.mantissa * powerOfTwo x.exponent.toNat
  else x.mantissa / powerOfTwo (-x.exponent).toNat

/-- What is left without the whole part, which loses nothing. -/
def fraction (x : Extended) : Extended :=
  if 0 ≤ x.exponent then ⟨0, 0⟩ else ⟨x.mantissa % powerOfTwo (-x.exponent).toNat, x.exponent⟩

/-- The number of 53 bits that is nearest. -/
def toReal (negative : Bool) (x : Extended) : Binary64 :=
  .ofDyadic negative x.mantissa x.exponent

/-- A number times the powers `x ^ (2 ^ i)` for the bits `i` of `n`, the lowest first; each power is the
square of the one before. The fuel is the number of bits. -/
def mulPower : (fuel n : Nat) → (r x : Extended) → Extended
  | 0, _, r, _ => r
  | fuel + 1, n, r, x =>
    let r := if n % 2 = 1 then r.mul x else r
    if n / 2 = 0 then r else mulPower fuel (n / 2) r (x.mul x)

/-- A power of ten, multiplied together by squaring. -/
def powerOfTen (n : Nat) : Extended := mulPower (n + 1) n (ofNat 1) (ofNat 10)

end Extended

end TapeMachine.Number
