import TapeMachine.Number.Power
import TapeMachine.Text.IntegerLiteral

/-!
# Binary floating-point numbers

Numbers of 53 significant bits, as exact values `±mantissa · 2 ^ exponent`. All arithmetic is done
on natural numbers: reading a decimal rounds to the nearest number, a tie to the even mantissa.
-/

namespace TapeMachine.Number

/-- A binary floating-point number. -/
inductive Binary64 where
  | nan
  | infinite (negative : Bool)
  /-- The number `±mantissa · 2 ^ exponent`. -/
  | finite (negative : Bool) (mantissa : Nat) (exponent : Int)
  deriving DecidableEq, Repr, Inhabited

namespace Binary64

/-- The least exponent of a number. -/
def minExponent : Int := -1074

/-- The greatest exponent of a number. -/
def maxExponent : Int := 971

/-- A quotient rounded to the nearest natural number, a tie to the even one. -/
def roundQuotient (num den : Nat) : Nat :=
  let q := num / den
  let twice := 2 * (num % den)
  if twice < den then q
  else if den < twice then q + 1
  else if q % 2 = 0 then q else q + 1

/-- The fraction `num / den`, as numerator and denominator, over a power of two. -/
def overPowerOfTwo (num den : Nat) (e : Int) : Nat × Nat :=
  if 0 ≤ e then (num, den * powerOfTwo e.toNat) else (num * powerOfTwo (-e).toNat, den)

/-- The exponent at which the positive fraction `num / den` has 53 bits, or the least exponent if
that is greater. -/
def fitExponent (num den : Nat) : Int :=
  let guess : Int := (num.log2 : Int) - den.log2 - 52
  let (a, b) := overPowerOfTwo num den guess
  max minExponent (if a < b * powerOfTwo 52 then guess - 1 else guess)

/-- The number nearest to the positive fraction `num / den`. -/
def ofFraction (negative : Bool) (num den : Nat) : Binary64 :=
  let e := fitExponent num den
  let (a, b) := overPowerOfTwo num den e
  let m := roundQuotient a b
  let (m, e) := if m = powerOfTwo 53 then (powerOfTwo 52, e + 1) else (m, e)
  if m = 0 then .finite negative 0 0
  else if maxExponent < e then .infinite negative
  else .finite negative m e

/-- The number nearest to `±m · 2 ^ e`. -/
def ofDyadic (negative : Bool) (m : Nat) (e : Int) : Binary64 :=
  if 0 ≤ e then ofFraction negative (m * powerOfTwo e.toNat) 1
  else ofFraction negative m (powerOfTwo (-e).toNat)

/-- The number nearest to `±digits · 10 ^ power`. Powers far beyond the range of all numbers are
not computed. -/
def ofDecimal (negative : Bool) (digits : Nat) (power : Int) : Binary64 :=
  if digits = 0 then .finite negative 0 0
  else if 400 < power then .infinite negative
  else if power + (digits.log2 : Int) < -1200 then .finite negative 0 0
  else if 0 ≤ power then ofFraction negative (digits * powerOfTen power.toNat) 1
  else ofFraction negative digits (powerOfTen (-power).toNat)

/-- The decimal digits that a text starts with: their value, their number, and the rest. -/
def takeDigits : List Char → (value count : Nat) → Nat × Nat × List Char
  | [], v, n => (v, n, [])
  | c :: cs, v, n =>
    if c.isDigit then takeDigits cs (10 * v + (c.toNat - '0'.toNat)) (n + 1) else (v, n, c :: cs)

/-- The exponent part of a decimal, if the text is one. -/
def readPower : List Char → Option Int
  | [] => some 0
  | c :: cs =>
    if c = 'e' ∨ c = 'E' then
      let (negative, cs) := Text.readSign cs
      match takeDigits cs 0 0 with
      | (v, n, []) => if n = 0 then none else some (Text.signed negative v)
      | _ => none
    else none

/-- A decimal without its sign. -/
def readMagnitude (negative : Bool) (cs : List Char) : Option Binary64 :=
  let word := String.ofList (cs.map Char.toLower)
  if word = "inf" ∨ word = "infinity" then some (.infinite negative)
  else if word = "nan" then some .nan
  else
    let (whole, n, rest) := takeDigits cs 0 0
    let (digits, places, count, rest) :=
      match rest with
      | '.' :: rest =>
        let (v, total, rest) := takeDigits rest whole n
        (v, total - n, total, rest)
      | rest => (whole, 0, n, rest)
    if count = 0 then none
    else (readPower rest).map fun p => ofDecimal negative digits (p - places)

/-- Read a decimal such as `-1.5e+3`, `inf` or `nan`. -/
def read? (s : String) : Option Binary64 :=
  let (negative, cs) := Text.readSign (Text.trim s.toList)
  readMagnitude negative cs

/-- Neither infinite nor undefined. -/
def isFinite : Binary64 → Bool
  | .finite .. => true
  | _ => false

/-- A zero of either sign. -/
def isZero : Binary64 → Bool
  | .finite _ m _ => m == 0
  | _ => false

/-- A finite number without a fraction. -/
def isWhole : Binary64 → Bool
  | .finite _ m e => 0 ≤ e || m % powerOfTwo (-e).toNat == 0
  | _ => false

/-- The whole part of a finite number, toward zero. -/
def truncate (negative : Bool) (m : Nat) (e : Int) : Int :=
  Text.signed negative (if 0 ≤ e then m * powerOfTwo e.toNat else m / powerOfTwo (-e).toNat)

/-- The sum of a number and an integer, rounded to the nearest number. -/
def addInt (x : Binary64) (k : Int) : Binary64 :=
  match x with
  | .finite s m e =>
    let n := Text.signed s m
    let (num, den) :=
      if 0 ≤ e then (n * powerOfTwo e.toNat + k, 1)
      else (n + k * powerOfTwo (-e).toNat, powerOfTwo (-e).toNat)
    if num = 0 then .finite false 0 0 else ofFraction (num < 0) num.natAbs den
  | x => x

/-- Two integers in the order of a finite number and an integer. -/
def scaled (negative : Bool) (m : Nat) (e k : Int) : Int × Int :=
  if 0 ≤ e then (Text.signed negative m * powerOfTwo e.toNat, k)
  else (Text.signed negative m, k * powerOfTwo (-e).toNat)

/-- At most the integer `k`; of no order if not a number. -/
def le (x : Binary64) (k : Int) : Bool :=
  match x with
  | .nan => false
  | .infinite negative => negative
  | .finite s m e => let (a, b) := scaled s m e k; a ≤ b

/-- Below the integer `k`; of no order if not a number. -/
def lt (x : Binary64) (k : Int) : Bool :=
  match x with
  | .nan => false
  | .infinite negative => negative
  | .finite s m e => let (a, b) := scaled s m e k; a < b

/-- At least the integer `k`; of no order if not a number. -/
def ge (x : Binary64) (k : Int) : Bool :=
  match x with
  | .nan => false
  | x => !x.lt k

/-- At most another number; of no order if either is not a number. -/
def leReal (x y : Binary64) : Bool :=
  match x, y with
  | .nan, _ | _, .nan => false
  | .infinite s, y => s || y = .infinite false
  | _, .infinite s => !s
  | .finite s m e, .finite t n f =>
    let low := min e f
    Text.signed s (m * powerOfTwo (e - low).toNat) ≤
      Text.signed t (n * powerOfTwo (f - low).toNat)

end Binary64

end TapeMachine.Number
