/-!
# Arguments

A call tells its arguments apart by their positions or by their names. One that comes with too few or
too many of them, or with a name that it does not know, is refused before it does anything.
-/

namespace TapeMachine

/-- What is wrong with the arguments of a call. -/
inductive ArgumentError where
  /-- Arguments are missing. -/
  | missing (call : String) (names : List String)
  /-- More arguments are given than the call takes. -/
  | tooMany (call : String) (least most given : Nat)
  /-- An argument is given twice. -/
  | repeated (call name : String)
  /-- An argument has a name that the call does not know. -/
  | unexpected (call name : String)
  deriving DecidableEq, Repr

/-- Names in a row: two are joined by a word, more have commas as well. -/
def namesInARow : List String → String
  | [] => ""
  | [a] => a
  | [a, b] => a ++ " and " ++ b
  | names => ", ".intercalate names.dropLast ++ ", and " ++ names.getLastD ""

/-- How it is reported. -/
def ArgumentError.message : ArgumentError → String
  | .missing call names =>
    call ++ "() missing " ++ toString names.length ++ " required positional argument" ++
      (if names.length = 1 then "" else "s") ++ ": " ++
      namesInARow (names.map fun n => "'" ++ n ++ "'")
  | .tooMany call least most given =>
    call ++ "() takes " ++
      (if least = most then toString most else "from " ++ toString least ++ " to " ++ toString most) ++
      " positional argument" ++ (if least = most ∧ most = 1 then "" else "s") ++ " but " ++
      toString given ++ (if given = 1 then " was" else " were") ++ " given"
  | .repeated call name => call ++ "() got multiple values for argument '" ++ name ++ "'"
  | .unexpected call name => call ++ "() got an unexpected keyword argument '" ++ name ++ "'"

/-- What is wrong with a number of arguments that is not the number of their names. The thing that
is called counts as an argument of its own if there is one. -/
def ArgumentError.ofCount (call : String) (names : List String) (receiver count : Nat) :
    ArgumentError :=
  if count < names.length then .missing call (names.drop count)
  else .tooMany call (receiver + names.length) (receiver + names.length) (receiver + count)

end TapeMachine
