/-!
# Flags

The options of the command line: their names, and which of them take a value.
-/

namespace TapeMachine.CommandLine

/-- An option. -/
inductive Flag where
  | help
  | cells
  | extensible
  | cellBits
  | dump
  | debug
  deriving DecidableEq, Repr, Inhabited

namespace Flag

/-- The options in the order in which they are listed. -/
def all : List Flag := [.help, .cells, .extensible, .cellBits, .dump, .debug]

/-- The letter of an option that has a short name. -/
def letter? : Flag → Option Char
  | .help => some 'h'
  | .cells => some 'c'
  | .extensible => some 'e'
  | .cellBits | .dump | .debug => none

/-- The long name of an option. -/
def longName : Flag → String
  | .help => "--help"
  | .cells => "--cells"
  | .extensible => "--extensible"
  | .cellBits => "--cell-bits"
  | .dump => "--dump"
  | .debug => "--debug"

/-- Whether an option takes a value. -/
def takesValue : Flag → Bool
  | .cells | .cellBits => true
  | .help | .extensible | .dump | .debug => false

/-- The names of an option in a message. -/
def label (f : Flag) : String :=
  match f.letter? with
  | some c => "-" ++ c.toString ++ "/" ++ f.longName
  | none => f.longName

/-- The option with a letter. -/
def ofLetter? (c : Char) : Option Flag := all.find? (·.letter? == some c)

/-- The option with a long name. -/
def ofLongName? (name : List Char) : Option Flag := all.find? (·.longName.toList == name)

/-- The options whose long names begin with a text. -/
def completions (start : List Char) : List Flag := all.filter (start.isPrefixOf ·.longName.toList)

end Flag

end TapeMachine.CommandLine
