import TapeMachine.Number.Shortest
import TapeMachine.Text.Quoted

/-!
# Values

The loosely typed values that settings, request bodies and answers are made of. A value has a truth,
a text, and, if it is or spells a number, an integer.
-/

namespace TapeMachine

open Number

/-- A loosely typed value. -/
inductive Value where
  | null
  | bool (b : Bool)
  | int (n : Int)
  | real (x : Binary64)
  | text (s : String)
  | list (items : List Value)
  | table (fields : List (String × Value))
  deriving Inhabited

namespace Value

/-- The name of a value's type, as messages give it. -/
def typeName : Value → String
  | .null => "NoneType"
  | .bool _ => "bool"
  | .int _ => "int"
  | .real _ => "float"
  | .text _ => "str"
  | .list _ => "list"
  | .table _ => "dict"

/-- What a value counts as when a yes or a no is wanted: nothing, zero and the empty are no. -/
def truth : Value → Bool
  | .null => false
  | .bool b => b
  | .int n => n != 0
  | .real x => !x.isZero
  | .text s => !s.isEmpty
  | .list xs => !xs.isEmpty
  | .table fs => !fs.isEmpty

/-- Whether a value is a table. -/
def isTable : Value → Bool
  | .table _ => true
  | _ => false

/-- The integer that a value is; yes and no are one and zero. -/
def asInt? : Value → Option Int
  | .int n => some n
  | .bool b => some (if b then 1 else 0)
  | _ => none

/-- An integer that may be missing. -/
def ofOption : Option Int → Value
  | none => .null
  | some n => .int n

mutual

/-- A value as text, in which texts stand between quotes. -/
def quoted : Value → String
  | .null => "None"
  | .bool b => if b then "True" else "False"
  | .int n => toString n
  | .real x => x.text
  | .text s => Text.quote s
  | .list xs => "[" ++ ", ".intercalate (quotedItems xs) ++ "]"
  | .table fs => "\x7b" ++ ", ".intercalate (quotedFields fs) ++ "\x7d"

/-- The items of a list as texts. -/
def quotedItems : List Value → List String
  | [] => []
  | x :: xs => quoted x :: quotedItems xs

/-- The fields of a table as texts. -/
def quotedFields : List (String × Value) → List String
  | [] => []
  | (k, x) :: fs => (Text.quote k ++ ": " ++ quoted x) :: quotedFields fs

end

mutual

/-- Whether all numbers of a value are finite. -/
def isFinite : Value → Bool
  | .real x => x.isFinite
  | .list xs => itemsFinite xs
  | .table fs => fieldsFinite fs
  | _ => true

/-- Whether all numbers of a list are finite. -/
def itemsFinite : List Value → Bool
  | [] => true
  | x :: xs => isFinite x && itemsFinite xs

/-- Whether all numbers of a table are finite. -/
def fieldsFinite : List (String × Value) → Bool
  | [] => true
  | (_, x) :: fs => isFinite x && fieldsFinite fs

end

mutual

/-- Whether all integers of a value can be written. -/
def isWritable : Value → Bool
  | .int n => Text.isWritable n
  | .list xs => itemsWritable xs
  | .table fs => fieldsWritable fs
  | _ => true

/-- Whether all integers of a list can be written. -/
def itemsWritable : List Value → Bool
  | [] => true
  | x :: xs => isWritable x && itemsWritable xs

/-- Whether all integers of a table can be written. -/
def fieldsWritable : List (String × Value) → Bool
  | [] => true
  | (_, x) :: fs => isWritable x && fieldsWritable fs

end

/-- A value as text. -/
def shown : Value → String
  | .text s => s
  | v => v.quoted

/-- The field of a table, if the value is one and has it. -/
def field? (v : Value) (name : String) : Option Value :=
  match v with
  | .table fs => fs.lookup name
  | _ => none

/-- The field of a table, or a value in place of a missing one. -/
def fieldD (v : Value) (name : String) (default : Value) : Value := (v.field? name).getD default

end Value

/-- Why a value gives no integer, or no settings. -/
inductive ConversionError where
  /-- The text is not an integer. -/
  | malformed (s : String)
  /-- The text has too many digits. -/
  | tooLong (digits : Nat)
  /-- The number is infinite. -/
  | infinite
  /-- The number is not a number. -/
  | notANumber
  /-- The value is neither number nor text. -/
  | wrongType (v : Value)
  /-- The value has no fields. -/
  | noFields (v : Value)

/-- How a failed conversion is reported. A malformed text is shown quoted, cut to 200 characters. -/
def ConversionError.message : ConversionError → String
  | .malformed s =>
    "invalid literal for int() with base 10: " ++ String.ofList ((Text.quote s).toList.take 200)
  | .tooLong n =>
    "Exceeds the limit (" ++ toString Text.maxLiteralDigits ++
      " digits) for integer string conversion: value has " ++ toString n ++
      " digits; use sys.set_int_max_str_digits() to increase the limit"
  | .infinite => "cannot convert float infinity to integer"
  | .notANumber => "cannot convert float NaN to integer"
  | .wrongType v =>
    "int() argument must be a string, a bytes-like object or a real number, not '" ++ v.typeName ++
      "'"
  | .noFields v => "'" ++ v.typeName ++ "' object has no attribute 'get'"

/-- A value as settings: one that counts as no asks for nothing, and all others have to be a
table. -/
def Value.toSettings (v : Value) : Except ConversionError Value :=
  if v.truth && !v.isTable then .error (.noFields v) else .ok v

/-- The integer that a value gives: a number loses its fraction, a text is read, and yes and no are
one and zero. -/
def Value.toInt : Value → Except ConversionError Int
  | .int n => .ok n
  | .bool b => .ok (if b then 1 else 0)
  | .real .nan => .error .notANumber
  | .real (.infinite _) => .error .infinite
  | .real (.finite s m e) => .ok (Binary64.truncate s m e)
  | .text s =>
    match Text.readInteger s with
    | .ok n => .ok n
    | .error .malformed => .error (.malformed s)
    | .error (.tooLong n) => .error (.tooLong n)
  | v => .error (.wrongType v)

end TapeMachine
