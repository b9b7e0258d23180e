import TapeMachine.Number.Binary64

/-!
# Shortest decimals

A floating-point number is written with the fewest significant digits that read back as it, and of
those with the digits nearest to it. A decimal point is placed among the digits from `0.0001` up to
below `10 ^ 16`; beyond, one digit stands before the point and the power of ten follows, with its
sign and at least two digits.
-/

namespace TapeMachine.Number.Binary64

/-- The reals that round to a positive number: `low / den` to `high / den` around `value / den`,
ends included if `closed`. -/
structure Interval where
  low : Nat
  value : Nat
  high : Nat
  den : Nat
  closed : Bool

/-- The interval around `m · 2 ^ e`. Below a power of two the numbers stand twice as close. -/
def interval (m : Nat) (e : Int) : Interval :=
  let below := if m = powerOfTwo 52 ∧ minExponent < e then 1 else 2
  let (scale, den) := overPowerOfTwo 1 1 (2 - e)
  ⟨(4 * m - below) * scale, 4 * m * scale, (4 * m + 2) * scale, den, m % 2 = 0⟩

/-- The decimal `d · 10 ^ k` rounds to the number of the interval. -/
def Interval.holds (i : Interval) (d : Nat) (k : Int) : Bool :=
  let (a, b) :=
    if 0 ≤ k then (d * powerOfTen k.toNat * i.den, 1) else (d * i.den, powerOfTen (-k).toNat)
  if i.closed then i.low * b ≤ a && a ≤ i.high * b else i.low * b < a && a < i.high * b

/-- The number of the interval over `10 ^ k`, as numerator and denominator. -/
def Interval.quotient (i : Interval) (k : Int) : Nat × Nat :=
  if 0 ≤ k then (i.value, i.den * powerOfTen k.toNat) else (i.value * powerOfTen (-k).toNat, i.den)

/-- The place of the first digit: the least `p` for which the number is below `10 ^ p`, searched
upward from a place that is surely too low. -/
def Interval.place (i : Interval) : (fuel : Nat) → Int → Int
  | 0, p => p
  | n + 1, p => let (a, b) := i.quotient p; if a < b then p else i.place n (p + 1)

/-- The neighbours of the number with digits down to `10 ^ k` that read back as it, the nearer one
first. -/
def Interval.candidates (i : Interval) (k : Int) : List Nat :=
  let (a, b) := i.quotient k
  let d := a / b
  let twice := 2 * (a % b)
  let both := if twice < b ∨ (twice = b ∧ d % 2 = 0) then [d, d + 1] else [d + 1, d]
  both.filter (i.holds · k)

/-- The fewest digits, and the power of ten of the last one: from `n` digits on. -/
def Interval.shortest (i : Interval) (place : Int) : (fuel n : Nat) → Nat × Int
  | 0, n => let (a, b) := i.quotient (place - n); (a / b, place - n)
  | fuel + 1, n =>
    match i.candidates (place - n) with
    | d :: _ => (d, place - n)
    | [] => i.shortest place fuel (n + 1)

/-- The shortest digits of the positive number `m · 2 ^ e`, and the power of ten of the last. -/
def shortestDigits (m : Nat) (e : Int) : Nat × Int :=
  let i := interval m e
  let start := ((m.log2 : Int) + e) * 3 / 10 - 2
  i.shortest (i.place 700 start) 17 1

/-- Digits without trailing zeros. -/
def dropZeros (cs : List Char) : List Char := (cs.reverse.dropWhile (· == '0')).reverse

/-- The digits `ds` with the point after the first `point` of them. -/
def positional (ds : List Char) (point : Int) : List Char :=
  if point ≤ 0 then '0' :: '.' :: (List.replicate (-point).toNat '0' ++ ds)
  else
    let n := point.toNat
    let whole := ds.take n ++ List.replicate (n - ds.length) '0'
    let fraction := ds.drop n
    whole ++ '.' :: (if fraction.isEmpty then ['0'] else fraction)

/-- The digits `ds` with the point after the first of them, and the power of ten. -/
def scientific (ds : List Char) (power : Int) : List Char :=
  let fraction := ds.drop 1
  let size := (toString power.natAbs).toList
  ds.take 1 ++ (if fraction.isEmpty then [] else '.' :: fraction) ++
    'e' :: (if power < 0 then '-' else '+') :: ((if size.length < 2 then ['0'] else []) ++ size)

/-- A floating-point number as text. -/
def text : Binary64 → String
  | .nan => "nan"
  | .infinite negative => if negative then "-inf" else "inf"
  | .finite negative m e =>
    let sign := if negative then ['-'] else []
    if m = 0 then String.ofList (sign ++ ['0', '.', '0'])
    else
      let (d, k) := shortestDigits m e
      let all := (toString d).toList
      let point := k + all.length
      let ds := dropZeros all
      String.ofList (sign ++
        (if -4 < point ∧ point ≤ 16 then positional ds point else scientific ds (point - 1)))

end TapeMachine.Number.Binary64
