import TapeMachine.Text.IntegerLiteral

/-!
# Integers in requests

A request may spell an integer as text. The text is read as it stands first: a minus or none, and
digits without a leading zero. If that fails the text is tidied and read once more. Tidying takes
away blanks around the text, a plus, leading zeros with the underscores among them, a fraction of
zeros, and single underscores between other characters. A sign may also stand after the leading
zeros.

Only a text with too many digits as it stands is reported as too long.
-/

namespace TapeMachine.Service.IntegerText

/-- A digit that an integer can start with. -/
def leads (c : Char) : Bool := '1' ≤ c && c ≤ '9'

/-- The value of decimal digits. -/
def valueOf (digits : List Char) : Nat :=
  digits.foldl (fun v c => 10 * v + (c.toNat - '0'.toNat)) 0

/-- Read digits that are the whole of a text. -/
def readDigits (negative : Bool) : List Char → Except Text.LiteralError Int
  | ['0'] => .ok 0
  | c :: cs =>
    if leads c then
      let digits := (c :: cs).takeWhile Char.isDigit
      if Text.maxLiteralDigits < digits.length then .error (.tooLong digits.length)
      else if digits.length = (c :: cs).length then .ok (Text.signed negative (valueOf digits))
      else .error .malformed
    else .error .malformed
  | [] => .error .malformed

/-- Read a text as it stands. -/
def readPlain : List Char → Except Text.LiteralError Int
  | '-' :: cs => readDigits true cs
  | cs => readDigits false cs

/-- A text after zeros and underscores, the last of which is `last`. It goes on with a digit or a
minus; before a point or at the end, `last` is kept. -/
def afterZeros (last : Char) : List Char → Option (List Char)
  | [] => some [last]
  | c :: cs =>
    if c = '0' ∨ c = '_' then afterZeros c cs
    else if leads c ∨ c = '-' then some (c :: cs)
    else if c = '.' then some (last :: c :: cs)
    else none

/-- A text without its leading zeros. -/
def dropZeros : List Char → Option (List Char)
  | '0' :: cs => afterZeros '0' cs
  | c :: cs => if leads c ∨ c = '-' then some (c :: cs) else none
  | [] => none

/-- A text without its sign and its leading zeros; a minus is put back. -/
def dropSignAndZeros : List Char → Option (List Char)
  | '+' :: '-' :: _ => none
  | '+' :: cs => dropZeros cs
  | '-' :: cs => (dropZeros cs).map ('-' :: ·)
  | cs => dropZeros cs

/-- A text without its fraction, which has to be of zeros. -/
def dropFraction (cs : List Char) : Option (List Char) :=
  match cs.dropWhile (· ≠ '.') with
  | [] => some cs
  | _ :: zeros =>
    if zeros ≠ [] ∧ zeros.all (· = '0') then some (cs.takeWhile (· ≠ '.')) else none

/-- Every underscore stands between two other characters; `ready` tells that the text before ends in
another character. -/
def separated (ready : Bool) : List Char → Bool
  | [] => ready
  | c :: cs => if c = '_' then ready && separated false cs else separated true cs

/-- A text without its underscores. -/
def dropUnderscores (cs : List Char) : Option (List Char) :=
  if separated false cs then some (cs.filter (· ≠ '_')) else none

/-- A text made ready to be read. -/
def tidy (cs : List Char) : Option (List Char) :=
  ((dropSignAndZeros (Text.trim cs)).bind dropFraction).bind dropUnderscores

/-- Read a text as an integer. -/
def read (s : String) : Except Text.LiteralError Int :=
  match readPlain s.toList with
  | .ok n => .ok n
  | .error (.tooLong n) => .error (.tooLong n)
  | .error .malformed =>
    match tidy s.toList with
    | none => .error .malformed
    | some cs =>
      match readPlain cs with
      | .ok n => .ok n
      | .error _ => .error .malformed

end TapeMachine.Service.IntegerText
