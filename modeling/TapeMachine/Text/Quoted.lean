import TapeMachine.Text.Printable

/-!
# Quoted text

Text between quotes, as messages show it: single quotes unless the text holds a single quote and no
double quote. The backslash, the quote, the line feed, the carriage return and the tab have short
escapes; every other character that is not printable is written by its code point in the fewest of
2, 4 or 8 hexadecimal digits that hold it.
-/

namespace TapeMachine.Text

/-- One hexadecimal digit, in lower case. -/
def hexDigit (n : Nat) : Char :=
  if n < 10 then Char.ofNat ('0'.toNat + n) else Char.ofNat ('a'.toNat + (n - 10))

/-- The last `width` hexadecimal digits of a number. -/
def hexDigits : (width : Nat) → Nat → List Char
  | 0, _ => []
  | w + 1, n => hexDigits w (n / 16) ++ [hexDigit (n % 16)]

/-- A code point as an escape. -/
def escapeCode (n : Nat) : List Char :=
  if n ≤ 0xFF then '\\' :: 'x' :: hexDigits 2 n
  else if n ≤ 0xFFFF then '\\' :: 'u' :: hexDigits 4 n
  else '\\' :: 'U' :: hexDigits 8 n

/-- A character as it stands between two quotes `q`. -/
def quoteChar (q c : Char) : List Char :=
  if c = q ∨ c = '\\' then ['\\', c]
  else if c = '\n' then ['\\', 'n']
  else if c = '\r' then ['\\', 'r']
  else if c = '\t' then ['\\', 't']
  else if isPrintable c then [c]
  else escapeCode c.toNat

/-- The quote that surrounds a text. -/
def quoteMark (s : List Char) : Char :=
  if s.contains '\'' && !s.contains '"' then '"' else '\''

/-- A text between quotes. -/
def quote (s : String) : String :=
  let q := quoteMark s.toList
  String.ofList (q :: s.toList.flatMap (quoteChar q) ++ [q])

end TapeMachine.Text
