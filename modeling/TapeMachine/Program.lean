import TapeMachine.Error

/-!
# Programs

A program is a list of instructions and an identifier of where they came from. Reading a text never
fails: a character that is no command is commentary. Rows and columns count from one, columns in
characters, and a line feed starts a row.
-/

namespace TapeMachine

/-- An ordered sequence of instructions, and where they came from. -/
structure Program where
  /-- Where they came from, if that is known. -/
  source : Option String
  instructions : Array Instruction
  deriving DecidableEq, Repr, Inhabited

namespace Program

/-- Reading a text: the place of the next character, and the instructions found. -/
structure Scan where
  row : Nat
  col : Nat
  found : Array Instruction

/-- One character. -/
def Scan.feed (s : Scan) (c : Char) : Scan :=
  if c = '\n' then { s with row := s.row + 1, col := 1 }
  else match Opcode.ofChar? c with
    | some op => ⟨s.row, s.col + 1, s.found.push ⟨s.row, s.col, op⟩⟩
    | none => { s with col := s.col + 1 }

/-- The instructions of a text. -/
def parse (text : List Char) : Array Instruction :=
  (text.foldl Scan.feed ⟨1, 1, #[]⟩).found

/-- The program of a text. -/
def ofText (source : Option String) (text : String) : Program := ⟨source, parse text.toList⟩

/-- The number of instructions. -/
def size (p : Program) : Nat := p.instructions.size

/-- Where a program came from, in words. -/
def label (p : Program) : String := p.source.getD "None"

/-- One line of a listing. -/
def line (label : String) (i : Instruction) : String :=
  "[" ++ label ++ ":" ++ toString i.row ++ ":" ++ toString i.col ++ "] " ++ i.opcode.description

/-- One line per instruction. -/
def listing (p : Program) : String :=
  "\n".intercalate (p.instructions.toList.map (line p.label))

/-! ### Brackets -/

/-- The bracket to blame, if there is one: the first closing bracket with nothing open, else the
earliest opening bracket left open. `pending` holds the open brackets, the innermost first. -/
def bracketFault? : (pending : List Instruction) → List Instruction → Option (Problem × Instruction)
  | pending, [] => pending.getLast?.map fun i => (.unmatchedOpen, i)
  | pending, i :: rest =>
    match i.opcode with
    | .beginLoop => bracketFault? (i :: pending) rest
    | .endLoop =>
      match pending with
      | [] => some (.unmatchedClose, i)
      | _ :: pending => bracketFault? pending rest
    | _ => bracketFault? pending rest

/-- Check that every bracket has its match. -/
def check (p : Program) : Except Error Unit :=
  match bracketFault? [] p.instructions.toList with
  | none => .ok ()
  | some (problem, i) => .error ⟨problem, p.source, some i.place⟩

end Program

end TapeMachine
