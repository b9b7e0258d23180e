import TapeMachine.CommandLine.Flag
import TapeMachine.Cell
import TapeMachine.Text.Quoted

/-!
# Usage

The usage and help texts, and what can be wrong with the arguments of the command line.
-/

namespace TapeMachine.CommandLine

/-- The usage of the command. -/
def usage : String :=
  "usage: bfvm [-h] [-c CELLS] [-e] [--cell-bits \x7b8,16,32,64\x7d] [--dump] [--debug]\n" ++
  "            program\n"

/-- The help text of the command. -/
def helpText : String :=
  usage ++
  "\n" ++
  "A Brainfuck interpreter.\n" ++
  "\n" ++
  "positional arguments:\n" ++
  "  program               Path to the Brainfuck source file\n" ++
  "\n" ++
  "options:\n" ++
  "  -h, --help            show this help message and exit\n" ++
  "  -c CELLS, --cells CELLS\n" ++
  "                        Number of cells on the tape (default 30000)\n" ++
  "  -e, --extensible      Double the tape instead of failing when the pointer\n" ++
  "                        runs off its right end\n" ++
  "  --cell-bits \x7b8,16,32,64\x7d\n" ++
  "                        Width of each cell in bits\n" ++
  "  --dump                Print the parsed instructions instead of running\n" ++
  "  --debug               Log interpreter activity to stderr\n"

/-- What is wrong with the arguments. -/
inductive UsageError where
  /-- A long name was cut so short that several options could be meant. -/
  | ambiguous (given : String) (candidates : List Flag)
  /-- An option that takes a value has none. -/
  | missingValue (f : Flag)
  /-- An option that takes no value has one. -/
  | unexpectedValue (f : Flag) (value : String)
  /-- The tape length is not an integer. -/
  | badCells (value : String)
  /-- The tape length is not positive. -/
  | cellsNotPositive
  /-- The cell width is not an integer. -/
  | badBits (value : String)
  /-- The cell width is not supported. -/
  | unsupportedBits (bits : Int)
  /-- No program is named. -/
  | missingProgram
  /-- Arguments that mean nothing. -/
  | unrecognized (arguments : List String)
  deriving DecidableEq, Repr

namespace UsageError

/-- A complaint about an option. -/
def about (f : Flag) (complaint : String) : String := "argument " ++ f.label ++ ": " ++ complaint

/-- What is wrong, in words. -/
def message : UsageError → String
  | .ambiguous given candidates =>
    "ambiguous option: " ++ given ++ " could match " ++
      ", ".intercalate (candidates.map Flag.longName)
  | .missingValue f => about f "expected one argument"
  | .unexpectedValue f value => about f ("ignored explicit argument " ++ Text.quote value)
  | .badCells value => about .cells ("invalid integer: " ++ Text.quote value)
  | .cellsNotPositive => about .cells "must be a positive integer"
  | .badBits value => about .cellBits ("invalid int value: " ++ Text.quote value)
  | .unsupportedBits bits =>
    about .cellBits ("invalid choice: " ++ toString bits ++ " (choose from " ++
      ", ".intercalate (CellKind.supported.map fun k => toString k.bits) ++ ")")
  | .missingProgram => "the following arguments are required: program"
  | .unrecognized arguments => "unrecognized arguments: " ++ " ".intercalate arguments

/-- What the command prints about it. -/
def report (e : UsageError) : String := usage ++ "bfvm: error: " ++ e.message ++ "\n"

end UsageError

end TapeMachine.CommandLine
