import TapeMachine.Store.Numeral
import TapeMachine.Value

/-!
# Data

What a row of a store holds. A column of integers takes any datum: one that is or spells an integer
of 64 bits becomes it, and all others stay as they are. A column of texts makes numbers into texts;
a number with a fraction is written with at most 15 significant digits.
-/

namespace TapeMachine

open Number

/-- A datum. -/
inductive Datum where
  | null
  | int (n : Int)
  | real (x : Binary64)
  | text (s : String)
  deriving DecidableEq, Repr, Inhabited

namespace Datum

/-- A datum as a value. -/
def toValue : Datum → Value
  | .null => .null
  | .int n => .int n
  | .real x => .real x
  | .text s => .text s

/-- Whether an integer fits in 64 bits. -/
def fits (n : Int) : Bool := -(powerOfTwo 63 : Int) ≤ n && n < powerOfTwo 63

/-! ### Columns of integers -/

/-- The integer that a number is, if it is one of 64 bits. -/
def ofReal (x : Binary64) : Datum :=
  match x with
  | .finite negative m e =>
    let n := Binary64.truncate negative m e
    if x.isWhole && -(powerOfTwo 63 : Int) < n && n < powerOfTwo 63 - 1 then .int n else .real x
  | x => .real x

/-- The number that a text spells. One that is spelled without point and exponent is an integer, if
it fits. -/
def numberOf? (s : String) : Option Datum :=
  match Numeral.read? s with
  | none => none
  | some numeral =>
    match Numeral.readInteger? s with
    | none => some (ofReal numeral.toReal)
    | some n => some (if fits n then .int n else ofReal numeral.toReal)

/-- A datum in a column of integers. -/
def toInteger : Datum → Datum
  | .real x => ofReal x
  | .text s => (numberOf? s).getD (.text s)
  | d => d

@[simp] theorem toInteger_int (n : Int) : (Datum.int n).toInteger = .int n := rfl

@[simp] theorem toInteger_null : Datum.null.toInteger = .null := rfl

/-- Whether two data are the same. Numbers are the same if their sizes are, and null is not even the
same as itself. -/
def same : Datum → Datum → Bool
  | .int m, .int n => m = n
  | .int n, .real x | .real x, .int n => x.le n && x.ge n
  | .real x, .real y => x.leReal y && y.leReal x
  | .text s, .text t => s = t
  | _, _ => false

@[simp] theorem same_int (m n : Int) : same (.int m) (.int n) = decide (m = n) := rfl

@[simp] theorem same_null (d : Datum) : same .null d = false := rfl

/-! ### Columns of texts -/

/-- A datum in a column of texts; none if it is null. -/
def toText? : Datum → Option String
  | .null => none
  | .int n => some (toString n)
  | .real x => some (Numeral.write x)
  | .text s => some s

end Datum

end TapeMachine
