import TapeMachine.Value

/-!
# Operands

What happens when a value of any kind stands where an integer is expected. Yes and no count as one
and zero, and floating-point numbers are compared exactly. A text can be compared with a text, by
code points, and a list with a list, item by item. All other values have no order, and nothing but a
number can be counted up.
-/

namespace TapeMachine

open Number

/-- What goes wrong with the operands of an operation. -/
inductive OperandError where
  /-- The two values have no order. -/
  | unordered (sign : String) (a b : Value)
  /-- The operation is not defined on the two values. -/
  | unsupported (sign : String) (a b : Value)
  /-- A text is not counted up. -/
  | countedText
  /-- A list is not counted up. -/
  | countedList
  /-- A power of two with a negative exponent. -/
  | negativeShift
  /-- A power of two that no number can hold. -/
  | tooManyDigits
  /-- A power of two that there is no room for. -/
  | outOfMemory
  /-- An index with a fraction. -/
  | fractionalIndex

/-- How it is reported. -/
def OperandError.message : OperandError → String
  | .unordered sign a b =>
    "'" ++ sign ++ "' not supported between instances of '" ++ a.typeName ++ "' and '" ++
      b.typeName ++ "'"
  | .unsupported sign a b =>
    "unsupported operand type(s) for " ++ sign ++ ": '" ++ a.typeName ++ "' and '" ++ b.typeName ++
      "'"
  | .countedText => "can only concatenate str (not \"int\") to str"
  | .countedList => "'int' object is not iterable"
  | .negativeShift => "negative shift count"
  | .tooManyDigits => "too many digits in integer"
  | .outOfMemory => ""
  | .fractionalIndex => "tuple indices must be integers or slices, not float"

namespace Value

/-- Whether one number is at most another; none if the values are not both numbers. -/
def numbersLe? : Value → Value → Option Bool
  | .real x, .real y => some (x.leReal y)
  | .real x, b => b.asInt?.map x.le
  | a, .real y => a.asInt?.map y.ge
  | a, b =>
    match a.asInt?, b.asInt? with
    | some m, some n => some (m ≤ n)
    | _, _ => none

/-- Two numbers of the same size. -/
def sameNumber (a b : Value) : Bool := a.numbersLe? b = some true && b.numbersLe? a = some true

mutual

/-- Whether two values are the same. Numbers are the same if their sizes are, and the order of the
fields of a table does not matter. -/
def same : Value → Value → Bool
  | .null, .null => true
  | .text s, .text t => s = t
  | .list xs, .list ys => sameItems xs ys
  | .table fs, .table gs => fs.length = gs.length && sameFields fs gs
  | a, b => a.sameNumber b

/-- Whether two lists are the same. -/
def sameItems : List Value → List Value → Bool
  | [], [] => true
  | x :: xs, y :: ys => same x y && sameItems xs ys
  | _, _ => false

/-- Whether the second table has the fields of the first. -/
def sameFields : List (String × Value) → List (String × Value) → Bool
  | [], _ => true
  | (k, x) :: fs, gs =>
    match gs.lookup k with
    | some y => same x y && sameFields fs gs
    | none => false

end

mutual

/-- Whether a value is at least another. -/
def atLeast : Value → Value → Except OperandError Bool
  | .text s, .text t => .ok (t ≤ s)
  | .list xs, .list ys => itemsAtLeast xs ys
  | a, b =>
    match b.numbersLe? a with
    | some r => .ok r
    | none => .error (.unordered ">=" a b)

/-- Whether a list is at least another: their first items that differ decide, else their lengths. -/
def itemsAtLeast : List Value → List Value → Except OperandError Bool
  | _, [] => .ok true
  | [], _ :: _ => .ok false
  | x :: xs, y :: ys => if same x y then itemsAtLeast xs ys else atLeast x y

end

/-- One more than a value. -/
def next : Value → Except OperandError Value
  | .real x => .ok (.real (x.addInt 1))
  | .text _ => .error .countedText
  | .list _ => .error .countedList
  | v =>
    match v.asInt? with
    | some n => .ok (.int (n + 1))
    | none => .error (.unsupported "+=" v (.int 1))

@[simp] theorem next_int (n : Int) : (Value.int n).next = .ok (.int (n + 1)) := rfl

end Value

end TapeMachine
