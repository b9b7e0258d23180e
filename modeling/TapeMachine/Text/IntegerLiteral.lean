import TapeMachine.Text.Blank
import TapeMachine.Text.DecimalDigit

/-!
# Integer literals

An integer in a text: blanks, an optional sign, decimal digits of any script with single
underscores between them, blanks. A literal of more than 4300 digits is refused as too long, and
that is noticed before anything that follows the digits.
-/

namespace TapeMachine.Text

/-- Why a text is no integer. -/
inductive LiteralError where
  /-- It is not of the form of an integer. -/
  | malformed
  /-- It has more digits than are read. -/
  | tooLong (digits : Nat)
  deriving DecidableEq, Repr

/-- The most digits an integer literal may have, read or written. -/
def maxLiteralDigits : Nat := 4300

/-- Whether an integer can be written. -/
def isWritable (n : Int) : Bool := (Nat.toDigits 10 n.natAbs).length ≤ maxLiteralDigits

/-- How an integer that cannot be written is reported. -/
def unwritableMessage : String :=
  "Exceeds the limit (" ++ toString maxLiteralDigits ++
    " digits) for integer string conversion; use sys.set_int_max_str_digits() to increase the limit"

/-- Read digits with single underscores between them: the value, the number of digits and the rest
of the text. `afterDigit` tells whether the last character read was a digit, as the one before an
underscore and the last one have to be. -/
def readDigits : List Char → (value count : Nat) → (afterDigit : Bool) →
    Option (Nat × Nat × List Char)
  | [], v, n, ok => if ok then some (v, n, []) else none
  | c :: cs, v, n, ok =>
    match digitValue? c with
    | some d => readDigits cs (10 * v + d) (n + 1) true
    | none =>
      if c = '_' then if ok then readDigits cs v n false else none
      else if ok then some (v, n, c :: cs) else none

/-- A sign, if the text starts with one: whether it is a minus, and the rest. -/
def readSign : List Char → Bool × List Char
  | '-' :: cs => (true, cs)
  | '+' :: cs => (false, cs)
  | cs => (false, cs)

/-- An integer with the given sign. -/
def signed (negative : Bool) (n : Nat) : Int := if negative then -(n : Int) else n

/-- Read a whole text as an integer. -/
def readInteger (s : String) : Except LiteralError Int :=
  let (negative, digits) := readSign (s.toList.dropWhile isBlank)
  match readDigits digits 0 0 false with
  | none => .error .malformed
  | some (v, n, rest) =>
    if n > maxLiteralDigits then .error (.tooLong n)
    else if rest.all isBlank then .ok (signed negative v)
    else .error .malformed

end TapeMachine.Text
