import TapeMachine.Value

/-!
# Limits

A cap on a count. It is an integer as a rule, but settings may put any value in its place: a yes or
no counts as one or zero, a floating-point number is compared exactly, and anything else cannot be
compared with a count at all.
-/

namespace TapeMachine

open Number

/-- A cap on a count. -/
inductive Limit where
  /-- At most `n`. -/
  | count (n : Int)
  | flag (b : Bool)
  | measure (x : Binary64)
  /-- A value that has no order with counts. -/
  | unordered (v : Value)

namespace Limit

/-- The cap that a value asks for; none if it is null. -/
def ofValue : Value → Option Limit
  | .null => none
  | .int n => some (.count n)
  | .bool b => some (.flag b)
  | .real x => some (.measure x)
  | v => some (.unordered v)

/-- The cap that a message tells of, which may be null. -/
def told (v : Value) : Limit := (ofValue v).getD (.unordered v)

/-- A cap as a value. -/
def toValue : Limit → Value
  | .count n => .int n
  | .flag b => .bool b
  | .measure x => .real x
  | .unordered v => v

/-- Whether a cap can be written into a message. -/
def isWritable : Limit → Bool
  | .count n => Text.isWritable n
  | .flag _ | .measure _ => true
  | .unordered v => v.isWritable

/-- A cap in a message, which can be made if the cap can be written. -/
def text : Limit → String
  | .count n => toString n
  | .flag b => (Value.bool b).shown
  | .measure x => x.text
  | .unordered v => v.shown

/-- Whether a count has reached the cap; an error carries the value that cannot be compared. -/
def reached (k : Int) : Limit → Except Value Bool
  | .count n => .ok (decide (n ≤ k))
  | .flag b => .ok (decide ((if b then 1 else 0) ≤ k))
  | .measure x => .ok (x.le k)
  | .unordered v => .error v

end Limit

end TapeMachine
