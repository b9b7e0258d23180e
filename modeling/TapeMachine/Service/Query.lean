import TapeMachine.Text.HexDigit
import TapeMachine.Text.Split
import TapeMachine.Text.Utf8

/-!
# Query strings

Fields are separated by ampersands, and a name from its value by the first equals sign; a field
without one has an empty value. A plus sign stands for a space, and a percent sign with two
hexadecimal digits for a byte.

A query arrives as bytes. Each run of ASCII characters gives bytes that are read as UTF-8, while each
byte outside of ASCII is a character of its own.
-/

namespace TapeMachine.Service.Query

/-- The bytes that a run of ASCII characters stands for. -/
def decodeBytes : List Char → List UInt8
  | '%' :: a :: b :: cs =>
    match Text.hexValue? a, Text.hexValue? b with
    | some x, some y => UInt8.ofNat (16 * x + y) :: decodeBytes cs
    | _, _ => String.utf8EncodeChar '%' ++ decodeBytes (a :: b :: cs)
  | '+' :: cs => String.utf8EncodeChar ' ' ++ decodeBytes cs
  | c :: cs => String.utf8EncodeChar c ++ decodeBytes cs
  | [] => []

/-- The text of the bytes of one run. -/
def decodeRun (run : List Char) : List Char := (Text.Utf8.decodeLossy (decodeBytes run)).toList

/-- The text that a part of a field stands for; `run` holds the ASCII characters read last, the
newest first. -/
def decodeFrom (run : List Char) : List Char → List Char
  | [] => decodeRun run.reverse
  | c :: cs =>
    if c.toNat < 128 then decodeFrom (c :: run) cs
    else decodeRun run.reverse ++ c :: decodeFrom [] cs

/-- The text that a part of a field stands for. -/
def decodePart (cs : List Char) : String := String.ofList (decodeFrom [] cs)

/-- The characters of a query: one for each byte. -/
def arriving (query : String) : List Char :=
  (Text.Utf8.encode query).map fun b => Char.ofNat b.toNat

/-- The name and the value of a field. -/
def field (cs : List Char) : String × String :=
  (decodePart (cs.takeWhile (· != '=')), decodePart ((cs.dropWhile (· != '=')).drop 1))

/-- The fields of a query string, in order. -/
def fields (query : String) : List (String × String) :=
  ((Text.pieces '&' (arriving query)).filter (· != [])).map field

/-- The last value of a field. -/
def value? (query name : String) : Option String := (fields query).reverse.lookup name

end TapeMachine.Service.Query
