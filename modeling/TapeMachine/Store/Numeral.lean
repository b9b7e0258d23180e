import TapeMachine.Number.Extended
import TapeMachine.Number.Shortest

/-!
# Numerals of a store

How a store reads a number that stands in a text, and how it writes one as text. Both work in
extended precision with a rounding at each step, so a number between two others is not always taken
to the nearer one: of the digits of a text only those are kept that fit in 64 bits, and a number is
written with 15 significant digits after half a unit of the last has been added.
-/

namespace TapeMachine

open Number

/-- A decimal: the number `±significand · 10 ^ power`. -/
structure Numeral where
  negative : Bool
  significand : Nat
  power : Int
  deriving DecidableEq, Repr

namespace Numeral

/-! ### Reading -/

/-- A significand takes no more digits from here on. -/
def fullSignificand : Nat := 922337203685477579

/-- A significand is not multiplied by ten from here on. -/
def largeSignificand : Nat := 922337203685477580

/-- An exponent takes no more digits from here on. -/
def fullExponent : Nat := 10000

/-- The value of a digit. -/
def digitValue (c : Char) : Nat := c.toNat - '0'.toNat

/-- The significand and the power of ten after the digits before the point. -/
def addWhole (digits : List Char) : Nat × Int :=
  digits.foldl (fun (s, p) c =>
    if s < fullSignificand then (10 * s + digitValue c, p) else (s, p + 1)) (0, 0)

/-- The significand and the power of ten after the digits behind the point. -/
def addFraction (start : Nat × Int) (digits : List Char) : Nat × Int :=
  digits.foldl (fun (s, p) c =>
    if s < fullSignificand then (10 * s + digitValue c, p - 1) else (s, p)) start

/-- The size of an exponent. -/
def exponentOf (digits : List Char) : Nat :=
  digits.foldl (fun e c => if e < fullExponent then 10 * e + digitValue c else fullExponent) 0

/-- The exponent that ends a numeral, if the rest of it is one. -/
def readExponent? : List Char → Option Int
  | [] => some 0
  | c :: cs =>
    if c = 'e' ∨ c = 'E' then
      let (negative, digits) := Text.readSign cs
      if !digits.isEmpty && digits.all Char.isDigit then
        some (Text.signed negative (exponentOf digits))
      else none
    else none

/-- A blank around a numeral. -/
def isBlank (c : Char) : Bool := c = ' ' || ('\t' ≤ c && c ≤ '\r')

/-- A text without blanks around it. -/
def strip (cs : List Char) : List Char :=
  ((cs.dropWhile isBlank).reverse.dropWhile isBlank).reverse

/-- The digits behind a point, and what follows them. -/
def splitFraction : List Char → List Char × List Char
  | '.' :: cs => (cs.takeWhile Char.isDigit, cs.dropWhile Char.isDigit)
  | cs => ([], cs)

/-- Read a numeral. There is a digit before or behind the point. -/
def read? (s : String) : Option Numeral :=
  let (negative, cs) := Text.readSign (strip s.toList)
  let whole := cs.takeWhile Char.isDigit
  let (fraction, rest) := splitFraction (cs.dropWhile Char.isDigit)
  if whole.isEmpty && fraction.isEmpty then none
  else
    match readExponent? rest with
    | none => none
    | some e =>
      let (s, p) := addFraction (addWhole whole) fraction
      some ⟨negative, s, e + p⟩

/-- The integer that a text spells, if it has nothing but a sign and digits. -/
def readInteger? (s : String) : Option Int :=
  let (negative, cs) := Text.readSign (strip s.toList)
  if !cs.isEmpty && cs.all Char.isDigit then
    some (Text.signed negative (cs.foldl (fun n c => 10 * n + digitValue c) 0))
  else none

/-- Take powers of ten into a significand, as long as it is not large. -/
def absorb : (power significand : Nat) → Nat × Nat
  | 0, s => (0, s)
  | p + 1, s => if largeSignificand ≤ s then (p + 1, s) else absorb p (10 * s)

/-- Take zeros off the end of a significand against negative powers of ten. -/
def cancel : (power significand : Nat) → Nat × Nat
  | 0, s => (0, s)
  | p + 1, s => if s % 10 = 0 then cancel p (s / 10) else (p + 1, s)

/-- The greatest power of ten that numbers are divided and multiplied by at once. -/
def greatPower : Nat := 308

/-- Beyond this power of ten there is no number left. -/
def endPower : Nat := 342

/-- A number multiplied by the greatest power of ten. -/
def mulGreat (x : Binary64) : Binary64 :=
  match x, Binary64.ofDecimal false 1 greatPower with
  | .finite s m e, .finite _ n f => .ofDyadic s (m * n) (e + f)
  | x, _ => x

/-- A number divided by the greatest power of ten. -/
def divGreat (x : Binary64) : Binary64 :=
  match x, Binary64.ofDecimal false 1 greatPower with
  | .finite s m e, .finite _ n f =>
    let (a, b) := Binary64.overPowerOfTwo m n (f - e)
    .ofFraction s a b
  | x, _ => x

/-- The number `±s · 10 ^ p`. -/
def scaleUp (negative : Bool) (s p : Nat) : Binary64 :=
  if p = 0 then (Extended.ofNat s).toReal negative
  else if p < greatPower then ((Extended.ofNat s).mul (.powerOfTen p)).toReal negative
  else if p < endPower then
    mulGreat (((Extended.ofNat s).mul (.powerOfTen (p - greatPower))).toReal negative)
  else .infinite negative

/-- The number `±s / 10 ^ p`. -/
def scaleDown (negative : Bool) (s p : Nat) : Binary64 :=
  if p = 0 then (Extended.ofNat s).toReal negative
  else if p < greatPower then ((Extended.ofNat s).div (.powerOfTen p)).toReal negative
  else if p < endPower then
    divGreat (((Extended.ofNat s).div (.powerOfTen (p - greatPower))).toReal negative)
  else .finite negative 0 0

/-- The number that a numeral is taken for. -/
def toReal (n : Numeral) : Binary64 :=
  if n.significand = 0 then .finite n.negative 0 0
  else if 0 ≤ n.power then
    let (p, s) := absorb n.power.toNat n.significand
    scaleUp n.negative s p
  else
    let (p, s) := cancel (-n.power).toNat n.significand
    scaleDown n.negative s p

/-! ### Writing -/

/-- The significant digits that a number is written with. -/
def significantDigits : Nat := 15

/-- A number and the power of ten that it is to be multiplied by. -/
structure Scaled where
  value : Extended
  power : Int

/-- A scale multiplied by a step for as long as the number is not below the product. -/
def growScale (x step : Extended) (places : Int) : (fuel : Nat) → Scaled → Scaled
  | 0, s => s
  | n + 1, s =>
    if x.lt (step.mul s.value) then s
    else growScale x step places n ⟨step.mul s.value, s.power + places⟩

/-- A number multiplied by a step for as long as it is below a bound. -/
def lift (bound step : Extended) (places : Int) : (fuel : Nat) → Scaled → Scaled
  | 0, s => s
  | n + 1, s =>
    if s.value.lt bound then lift bound step places n ⟨s.value.mul step, s.power - places⟩ else s

/-- The number of 53 bits that is nearest to a power of ten. -/
def realPower (n : Int) : Extended := .ofReal (.ofDecimal false 1 n)

/-- A positive number with one digit before the point. It is divided by a scale of powers of ten that
is grown in steps of hundreds, tens and ones, and multiplied up in steps of eights and ones. The fuel
is enough for all numbers of 53 bits, which lie between `10 ^ -324` and `10 ^ 309`. -/
def normalize (x : Extended) : Scaled :=
  let scale := growScale x (realPower 1) 1 10
    (growScale x (realPower 10) 10 10 (growScale x (realPower 100) 100 4 ⟨.ofNat 1, 0⟩))
  lift (.ofNat 1) (realPower 1) 1 10
    (lift (realPower (-8)) (realPower 8) 8 45 ⟨x.div scale.value, scale.power⟩)

/-- Half a unit of the last significant digit added. -/
def roundUp (s : Scaled) : Scaled :=
  let v := s.value.add (.ofFraction 5 (Number.powerOfTen significantDigits))
  if v.lt (.ofNat 10) then ⟨v, s.power⟩ else ⟨v.mul (realPower (-1)), s.power + 1⟩

/-- The first digits of a number below ten. -/
def leadingDigits : (count : Nat) → Extended → List Char
  | 0, _ => []
  | n + 1, x =>
    Char.ofNat ('0'.toNat + x.whole) :: leadingDigits n (x.fraction.mul (.ofNat 10))

/-- The digits `ds` with the point after the first of them, and the power of ten. -/
def scientific (ds : List Char) (power : Int) : List Char :=
  let fraction := ds.drop 1
  let size := (toString power.natAbs).toList
  ds.take 1 ++ '.' :: (if fraction.isEmpty then ['0'] else fraction) ++
    'e' :: (if power < 0 then '-' else '+') :: ((if size.length < 2 then ['0'] else []) ++ size)

/-- A number as text. The point stands among the digits from `0.0001` up to below `10 ^ 15`. -/
def write : Binary64 → String
  | .nan => ""
  | .infinite negative => if negative then "-Inf" else "Inf"
  | .finite negative m e =>
    if m = 0 then "0.0"
    else
      let s := roundUp (normalize ⟨m, e⟩)
      let ds := Binary64.dropZeros (leadingDigits significantDigits s.value)
      String.ofList ((if negative then ['-'] else []) ++
        (if -5 < s.power ∧ s.power < significantDigits then Binary64.positional ds (s.power + 1)
          else scientific ds s.power))

end Numeral

end TapeMachine
