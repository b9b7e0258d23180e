import TapeMachine.JumpTable
import TapeMachine.Stream.LineWriter
import TapeMachine.Stream.Reader
import TapeMachine.Tape
import TapeMachine.Value.Operand

/-!
# The machine

A checked program is run one instruction at a time. `step` executes the instruction at the program
counter; a step that fails leaves the machine as it was, while the streams keep the traces of the
calls that were made. The counters are integers because a session may set them to any: an index
below zero counts from the end of the program, and a bracket reached that way has no match.
-/

namespace TapeMachine

/-! ### Code and settings -/

/-- A program that can be run: its brackets match, and the matches are known. -/
structure Code where
  program : Program
  jumps : JumpTable

namespace Code

/-- Check a program and resolve its jumps. -/
def ofProgram (p : Program) : Except Error Code :=
  match p.check with
  | .error e => .error e
  | .ok _ => .ok ⟨p, (JumpTable.ofProgram? p).getD ⟨#[]⟩⟩

/-- The program counter is past the last instruction. -/
def finished (c : Code) (pc : Int) : Bool := (c.program.size : Int) ≤ pc

/-- The instruction at an index; below zero, counted from the end. -/
def fetch? (c : Code) : Int → Option Instruction
  | .ofNat i => c.program.instructions[i]?
  | .negSucc k =>
    if k < c.program.size then c.program.instructions[c.program.size - 1 - k]? else none

end Code

/-- Optional caps on a run. -/
structure Caps where
  /-- The most steps. -/
  steps : Option Limit
  /-- The most bytes of output. -/
  output : Option Limit

/-- No cap at all. -/
def Caps.none : Caps := ⟨.none, .none⟩

/-- The shape of the tape, and the caps. -/
structure Settings where
  cells : Nat
  cells_pos : 0 < cells
  extensible : Bool
  kind : CellKind
  caps : Caps
  /-- How the log tells whether the tape is extensible. -/
  shownExtensible : String := (Value.bool extensible).shown

/-! ### State -/

/-- Where a run stands. -/
structure Machine where
  tape : Tape
  pc : Int
  steps : Int
  outputBytes : Int

namespace Machine

/-- The machine before its first step. -/
def initial (s : Settings) : Machine :=
  ⟨Tape.blank s.cells s.cells_pos s.extensible s.kind, 0, 0, 0⟩

/-- One step done: another tape, and the next instruction. -/
def advance (m : Machine) (t : Tape) : Machine := ⟨t, m.pc + 1, m.steps + 1, m.outputBytes⟩

/-- One step done: the tape changed, and the next instruction. -/
def update (m : Machine) (f : Tape → Tape) : Machine :=
  match m with
  | ⟨tape, pc, steps, out⟩ => ⟨f tape, pc + 1, steps + 1, out⟩

/-- One step done: on to the instruction after index `i`. -/
def jump (m : Machine) (i : Nat) : Machine :=
  match m with
  | ⟨tape, _, steps, out⟩ => ⟨tape, i + 1, steps + 1, out⟩

end Machine

/-- What a run reads from, writes to and tells. -/
structure Streams where
  input : Reader
  output : LineWriter
  /-- The events told, the newest first. -/
  log : List Event

/-! ### Faults -/

/-- What stops a step. -/
inductive Fault where
  /-- An error of the program, and the failure that caused it if a stream did. -/
  | error (e : Error) (cause : Option Failure)
  /-- A failure of a stream that is no error of the program. -/
  | failure (f : Failure)
  /-- A value that cannot be compared or counted. -/
  | operand (e : OperandError)
  /-- There is no instruction at the program counter. -/
  | noInstruction (pc : Int)
  /-- The bracket at the program counter has no match. -/
  | noTarget (pc : Int)

namespace Fault

/-- A problem whose place is not known yet. -/
def ofProblem (p : Problem) : Fault := .error (.unplaced p) none

/-- What a failed stream call means: a problem with its text as reason, or the failure itself. -/
def ofFailure (problem : Value → Problem) (f : Failure) : Fault :=
  if f.kind.reported then .error (.unplaced (problem (.text f.message))) (some f) else .failure f

/-- Blame an error on an instruction. -/
def locate (source : Option String) (ins : Instruction) : Fault → Fault
  | .error e cause => .error (e.locate source (some ins.place)) cause
  | f => f

/-- The least index that is looked up. -/
def minIndex : Int := -(Number.powerOfTwo 63 : Int)

/-- A fault in words. -/
def message : Fault → String
  | .error e _ => e.message
  | .failure f => f.message
  | .operand e => e.message
  | .noInstruction pc =>
    if pc < minIndex then "cannot fit 'int' into an index-sized integer"
    else "tuple index out of range"
  | .noTarget pc => toString pc

end Fault

/-! ### One step -/

/-- The outcome of a step. -/
structure Step where
  fault : Option Fault
  machine : Machine
  streams : Streams

/-- The fault of a count that has reached its cap. -/
def capFault? (k : Int) (problem : Limit → Problem) : Option Limit → Option Fault
  | none => none
  | some l =>
    match l.reached k with
    | .error v => some (.operand (.unordered ">=" (.int k) v))
    | .ok true => some (.ofProblem (problem l))
    | .ok false => none

/-- Execute one command. -/
def execute (jumps : JumpTable) (maxOutput : Option Limit) (op : Opcode) (m : Machine)
    (io : Streams) : Step :=
  match op with
  | .moveLeft =>
    match m.tape.moveLeft? with
    | none => ⟨some (.ofProblem .pointerUnderflow), m, io⟩
    | some t => ⟨none, m.advance t, io⟩
  | .moveRight =>
    match m.tape.moveRight? with
    | none => ⟨some (.ofProblem .pointerOverflow), m, io⟩
    | some t =>
      let io := if t.length = m.tape.length then io
        else { io with log := .extended t.length :: io.log }
      ⟨none, m.advance t, io⟩
  | .increment => ⟨none, m.update Tape.increment, io⟩
  | .decrement => ⟨none, m.update Tape.decrement, io⟩
  | .input =>
    match io.input.read with
    | (.error f, r) => ⟨some (.ofFailure .read f), m, { io with input := r }⟩
    | (.ok none, r) =>
      ⟨some (.ofProblem (.read (.text "unexpected end of input"))), m, { io with input := r }⟩
    | (.ok (some b), r) =>
      ⟨none, m.update (Tape.setByte · b.toNat), { io with input := r }⟩
  | .output =>
    match capFault? m.outputBytes .outputLimit maxOutput with
    | some f => ⟨some f, m, io⟩
    | none =>
      match io.output.writeThrough [UInt8.ofNat m.tape.byte.toNat] with
      | (.error f, w) => ⟨some (.ofFailure .write f), m, { io with output := w }⟩
      | (.ok _, w) =>
        ⟨none, { m.advance m.tape with outputBytes := m.outputBytes + 1 }, { io with output := w }⟩
  | .beginLoop =>
    if m.tape.current = 0 then
      match jumps.target? m.pc with
      | none => ⟨some (.noTarget m.pc), m, io⟩
      | some i => ⟨none, m.jump i, io⟩
    else ⟨none, m.advance m.tape, io⟩
  | .endLoop =>
    if m.tape.current = 0 then ⟨none, m.advance m.tape, io⟩
    else
      match jumps.target? m.pc with
      | none => ⟨some (.noTarget m.pc), m, io⟩
      | some i => ⟨none, m.jump i, io⟩

/-- Blame the fault of a step on an instruction. -/
def Step.locate (source : Option String) (ins : Instruction) (s : Step) : Step :=
  match s with
  | ⟨none, m, io⟩ => ⟨none, m, io⟩
  | ⟨some f, m, io⟩ => ⟨some (f.locate source ins), m, io⟩

/-- Execute the instruction at the program counter. Once the program has finished this does
nothing. -/
def step (code : Code) (caps : Caps) (m : Machine) (io : Streams) : Step :=
  if code.finished m.pc then ⟨none, m, io⟩
  else
    match code.fetch? m.pc with
    | none => ⟨some (.noInstruction m.pc), m, io⟩
    | some ins =>
      match capFault? m.steps .stepLimit caps.steps with
      | some f => ⟨some (f.locate code.program.source ins), m, io⟩
      | none => (execute code.jumps caps.output ins.opcode m io).locate code.program.source ins

end TapeMachine
