import TapeMachine.Text.Split

/-!
# Paths

A path is split at slashes. Empty components and single dots are dropped, double dots are kept, and
a path that starts with exactly two slashes keeps both of them.
-/

namespace TapeMachine

/-- A path in its normal form. -/
structure Path where
  /-- The slashes at the start: none, one or two. -/
  root : String
  parts : List String
  deriving DecidableEq, Repr, Inhabited

namespace Path

/-- The slashes that a path keeps at its start. -/
def rootOf : List Char → String
  | '/' :: '/' :: '/' :: _ => "/"
  | '/' :: '/' :: _ => "//"
  | '/' :: _ => "/"
  | _ => ""

/-- The path that a text names. -/
def ofText (s : String) : Path where
  root := rootOf s.toList
  parts := ((Text.pieces '/' s.toList).filter fun p => p != [] && p != ['.']).map String.ofList

/-- The text of a path. A path with nothing in it is the working directory. -/
def text (p : Path) : String :=
  if p.root.isEmpty && p.parts.isEmpty then "." else p.root ++ "/".intercalate p.parts

/-- The path of the directory that holds what a path names. -/
def parent (p : Path) : Path := { p with parts := p.parts.dropLast }

end Path

end TapeMachine
