/-!
# Line breaks

Texts end their lines with a line feed, with a carriage return, or with both. Reading a file turns
all three into the line feed.
-/

namespace TapeMachine.Text

/-- Every line break as a line feed. -/
def lineFeeds : List Char → List Char
  | [] => []
  | '\r' :: '\n' :: cs => '\n' :: lineFeeds cs
  | '\r' :: cs => '\n' :: lineFeeds cs
  | c :: cs => c :: lineFeeds cs

end TapeMachine.Text
