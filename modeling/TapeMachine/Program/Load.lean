import TapeMachine.FileTree
import TapeMachine.Program
import TapeMachine.Text.LineBreak
import TapeMachine.Text.Utf8

/-!
# Loading programs

A program is loaded from a file of UTF-8 text in which every kind of line break counts as a line
feed. The path, as it was given, becomes the source.
-/

namespace TapeMachine

/-- Why a program cannot be loaded. -/
inductive LoadError where
  | file (e : FileError)
  | encoding (e : Text.Utf8.DecodeError)
  deriving DecidableEq, Repr

/-- How a program that cannot be loaded is reported. -/
def LoadError.message : LoadError → String
  | .file e => e.message
  | .encoding e => e.message

namespace Program

/-- The program of the bytes of a file. -/
def ofBytes (source : String) (bytes : List UInt8) : Except LoadError Program :=
  match Text.Utf8.decode bytes with
  | .error e => .error (.encoding e)
  | .ok text => .ok ⟨some source, parse (Text.lineFeeds text)⟩

/-- The program of the file at a path. -/
def load (files : FileTree) (path : String) : Except LoadError Program :=
  match files.read (.ofText path) with
  | .error e => .error (.file e)
  | .ok bytes => ofBytes path bytes

end Program

end TapeMachine
