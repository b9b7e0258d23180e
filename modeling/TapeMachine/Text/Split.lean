/-!
# Splitting

A text cut at every separator. There is always one piece more than there are separators.
-/

namespace TapeMachine.Text

/-- The pieces between separators. -/
def pieces (separator : Char) : List Char → List (List Char)
  | [] => [[]]
  | c :: cs =>
    if c = separator then [] :: pieces separator cs
    else match pieces separator cs with
      | [] => [[c]]
      | p :: ps => (c :: p) :: ps

end TapeMachine.Text
