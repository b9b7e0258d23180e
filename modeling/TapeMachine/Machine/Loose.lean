import TapeMachine.Machine.Run
import TapeMachine.Tape.Loose

/-!
# Machines changed by hand

Between two steps any value can be put into the cells and the counters of a machine. What is no
integer stands beside the machine until a step replaces it, and a step that has to compare, count or
mask such a value may fail on it. A machine without such values is plain, and its steps are those of
the machine itself.

A step that cannot be counted has been done all the same: only its count is missing.

Main facts: a plain machine steps and runs as the machine itself does.
-/

namespace TapeMachine

/-- A machine, and the values beside it that are no integers. -/
structure LooseMachine where
  machine : Machine
  /-- Values in cells, by the index of their cell. -/
  cells : List (Nat × Value)
  pc : Option Value
  steps : Option Value
  outputBytes : Option Value

namespace LooseMachine

/-- A plain machine. -/
def ofMachine (m : Machine) : LooseMachine := ⟨m, [], none, none, none⟩

/-- The program counter. -/
def pcValue (m : LooseMachine) : Value := m.pc.getD (.int m.machine.pc)

/-- The number of steps. -/
def stepsValue (m : LooseMachine) : Value := m.steps.getD (.int m.machine.steps)

/-- The number of bytes of output. -/
def outputValue (m : LooseMachine) : Value := m.outputBytes.getD (.int m.machine.outputBytes)

/-- The tape. -/
def tape (m : LooseMachine) : LooseTape :=
  ⟨m.machine.tape, .int m.machine.tape.kind.bits, m.cells⟩

/-- Another tape. -/
def setTape (m : LooseMachine) (t : LooseTape) : LooseMachine :=
  { m with machine := { m.machine with tape := t.tape }, cells := t.odd }

/-- Set the program counter. -/
def setPc (m : LooseMachine) : Value → LooseMachine
  | .int n => { m with machine := { m.machine with pc := n }, pc := none }
  | v => { m with machine := { m.machine with pc := v.asInt?.getD 0 }, pc := some v }

/-- Set the number of steps. -/
def setSteps (m : LooseMachine) : Value → LooseMachine
  | .int n => { m with machine := { m.machine with steps := n }, steps := none }
  | v => { m with machine := { m.machine with steps := v.asInt?.getD 0 }, steps := some v }

/-- Set the number of bytes of output. -/
def setOutput (m : LooseMachine) : Value → LooseMachine
  | .int n => { m with machine := { m.machine with outputBytes := n }, outputBytes := none }
  | v => { m with machine := { m.machine with outputBytes := v.asInt?.getD 0 }, outputBytes := some v }

/-- On to the next instruction. -/
def advance (m : LooseMachine) : LooseMachine := m.setPc (.int (m.machine.pc + 1))

/-- The program counter is past the last instruction, if it can be told. -/
def finished (code : Code) (m : LooseMachine) : Except OperandError Bool :=
  m.pcValue.atLeast (.int code.program.size)

/-- The fault of a count that has reached its cap. -/
def capFault? (count : Value) (problem : Limit → Problem) : Option Limit → Option Fault
  | none => none
  | some l =>
    match count.atLeast l.toValue with
    | .error e => some (.operand e)
    | .ok true => some (.ofProblem (problem l))
    | .ok false => none

/-- What an attempt left behind: its fault, the machine and the streams. -/
structure Attempt where
  fault : Option Fault
  machine : LooseMachine
  streams : Streams

/-- Step the cell under the pointer. -/
def stepCell (room : Room) (m : LooseMachine) (c : TapeCall) (io : Streams) : Attempt :=
  match m.tape.call room c with
  | ⟨.error (.operand e), _, _⟩ => ⟨some (.operand e), m, io⟩
  | ⟨.error (.problem p), _, _⟩ => ⟨some (.ofProblem p), m, io⟩
  | ⟨.ok _, t, _⟩ => ⟨none, (m.setTape t).advance, io⟩

/-- Write the byte of the cell under the pointer. The byte stays written if it cannot be counted. -/
def writeCell (m : LooseMachine) (maxOutput : Option Limit) (io : Streams) : Attempt :=
  match capFault? m.outputValue .outputLimit maxOutput with
  | some f => ⟨some f, m, io⟩
  | none =>
    match LooseCell.toByte m.tape.value with
    | .error e => ⟨some (.operand e), m, io⟩
    | .ok b =>
      match io.output.writeThrough [UInt8.ofNat b.toNat] with
      | (.error f, w) => ⟨some (.ofFailure .write f), m, { io with output := w }⟩
      | (.ok _, w) =>
        match m.outputValue.next with
        | .error e => ⟨some (.operand e), m, { io with output := w }⟩
        | .ok v => ⟨none, (m.setOutput v).advance, { io with output := w }⟩

/-- Execute a command that minds no value beside the machine. -/
def executePlain (jumps : JumpTable) (op : Opcode) (m : LooseMachine) (io : Streams) : Attempt :=
  match TapeMachine.execute jumps none op m.machine io with
  | ⟨some f, _, io⟩ => ⟨some f, m, io⟩
  | ⟨none, after, io⟩ =>
    let cells := if op = .input then LooseTape.without m.cells m.machine.tape.pointer else m.cells
    ⟨none, { m with
      machine := ⟨after.tape, after.pc, m.machine.steps, m.machine.outputBytes⟩
      cells := cells
      pc := none }, io⟩

/-- Execute one command, and do not count it. -/
def execute (room : Room) (jumps : JumpTable) (maxOutput : Option Limit) (op : Opcode)
    (m : LooseMachine) (io : Streams) : Attempt :=
  match op with
  | .increment => m.stepCell room .increment io
  | .decrement => m.stepCell room .decrement io
  | .output => m.writeCell maxOutput io
  | op => m.executePlain jumps op io

/-- Execute an instruction under the caps, and count it. -/
def perform (room : Room) (code : Code) (caps : Caps) (ins : Instruction) (m : LooseMachine)
    (io : Streams) : Attempt :=
  match capFault? m.stepsValue .stepLimit caps.steps with
  | some f => ⟨some (f.locate code.program.source ins), m, io⟩
  | none =>
    match m.execute room code.jumps caps.output ins.opcode io with
    | ⟨some f, m, io⟩ => ⟨some (f.locate code.program.source ins), m, io⟩
    | ⟨none, m, io⟩ =>
      match m.stepsValue.next with
      | .error e => ⟨some (.operand e), m, io⟩
      | .ok v => ⟨none, m.setSteps v, io⟩

/-- Execute the instruction at the program counter of a machine that is not plain. -/
def stepOdd (room : Room) (code : Code) (caps : Caps) (m : LooseMachine) (io : Streams) : Attempt :=
  match m.finished code with
  | .error e => ⟨some (.operand e), m, io⟩
  | .ok true => ⟨none, m, io⟩
  | .ok false =>
    match m.pcValue.asInt? with
    | none => ⟨some (.operand .fractionalIndex), m, io⟩
    | some pc =>
      match code.fetch? pc with
      | none => ⟨some (.noInstruction pc), m, io⟩
      | some ins => m.perform room code caps ins io

/-- Execute the instruction at the program counter. -/
def step (room : Room) (code : Code) (caps : Caps) (m : LooseMachine) (io : Streams) : Attempt :=
  match m with
  | ⟨machine, [], none, none, none⟩ =>
    match TapeMachine.step code caps machine io with
    | ⟨fault, machine, io⟩ => ⟨fault, .ofMachine machine, io⟩
  | m => m.stepOdd room code caps io

/-- Try at most `fuel` steps, up to the first that fails. -/
def runFor (room : Room) (code : Code) (caps : Caps) : (fuel : Nat) → LooseMachine → Streams →
    Ending × LooseMachine × Streams
  | 0, m, io =>
    match m.finished code with
    | .error e => (.failed (.operand e), m, io)
    | .ok true => (.finished, m, io)
    | .ok false => (.unfinished, m, io)
  | n + 1, m, io =>
    match m.finished code with
    | .error e => (.failed (.operand e), m, io)
    | .ok true => (.finished, m, io)
    | .ok false =>
      match m.step room code caps io with
      | ⟨some f, m, io⟩ => (.failed f, m, io)
      | ⟨none, m, io⟩ => runFor room code caps n m io

/-! ### Plain machines -/

/-- A plain machine steps as the machine itself does. -/
theorem step_ofMachine (room : Room) (code : Code) (caps : Caps) (m : Machine) (io : Streams) :
    step room code caps (.ofMachine m) io =
      ⟨(TapeMachine.step code caps m io).fault, .ofMachine (TapeMachine.step code caps m io).machine,
        (TapeMachine.step code caps m io).streams⟩ := rfl

theorem finished_ofMachine (code : Code) (m : Machine) :
    finished code (.ofMachine m) = .ok (code.finished m.pc) := rfl

/-- A plain machine runs as the machine itself does, and stays plain. -/
theorem runFor_ofMachine (room : Room) (code : Code) (caps : Caps) (fuel : Nat) (m : Machine)
    (io : Streams) :
    runFor room code caps fuel (.ofMachine m) io =
      ((TapeMachine.runFor code caps fuel m io).1,
        .ofMachine (TapeMachine.runFor code caps fuel m io).2.1,
        (TapeMachine.runFor code caps fuel m io).2.2) := by
  induction fuel generalizing m io with
  | zero =>
    rw [runFor, TapeMachine.runFor, finished_ofMachine]
    cases code.finished m.pc <;> rfl
  | succ fuel ih =>
    rw [runFor, TapeMachine.runFor, finished_ofMachine, step_ofMachine]
    cases code.finished m.pc with
    | true => rfl
    | false =>
      rcases TapeMachine.step code caps m io with ⟨_ | f, m', io'⟩
      · exact ih m' io'
      · rfl

end LooseMachine

end TapeMachine
