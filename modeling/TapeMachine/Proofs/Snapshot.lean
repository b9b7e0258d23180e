import TapeMachine.Machine.Run

/-!
# What a step can do

A snapshot is a machine together with the reader and the sink that it is stepped on. It leaves out
what no step looks at: the log, and whether the last line of the output has been ended.

* `Executes` lists everything that one command can do, with the condition of each case, and
  `Stepped` everything that one call of `step` can do. Facts about steps are proved by going through
  these cases (`stepped`), and a step is computed from them (`Stepped.eq`).
* `after` is the run as a function of the number of executed steps; it is none once the program has
  finished or a step has failed.
* `runFor_spec` reads the ending of a run off `after`: the runs of the program are the runs studied
  here.
-/

namespace TapeMachine

/-! ### Calls on streams -/

/-- The reader after a call that gave nothing. -/
def Reader.missed (r : Reader) : Reader := { r with reads := r.reads + 1 }

/-- The reader after a call that gave its first byte. -/
def Reader.advanced (r : Reader) (bs : List UInt8) : Reader :=
  { r with rest := bs, reads := r.reads + 1 }

/-- The sink after a write that failed. -/
def Sink.refused (k : Sink) (data : List UInt8) : Sink :=
  { k with calls := .write data :: k.calls, writes := k.writes + 1 }

/-- The sink after a byte was written and flushed, whether or not the flush failed. -/
def Sink.accepted (k : Sink) (b : UInt8) : Sink :=
  { k with
    written := b :: k.written
    calls := .flush :: .write [b] :: k.calls
    writes := k.writes + 1
    flushes := k.flushes + 1 }

@[simp] theorem Sink.bytes_refused (k : Sink) (data : List UInt8) :
    (k.refused data).bytes = k.bytes := rfl

@[simp] theorem Sink.bytes_accepted (k : Sink) (b : UInt8) :
    (k.accepted b).bytes = k.bytes ++ [b] := by
  simp [bytes, accepted]

theorem Reader.read_of_fault {r : Reader} {f : Failure} (h : r.fault r.reads = some f) :
    r.read = (.error f, r.missed) := by
  simp only [read, h, missed]

theorem Reader.read_of_nil {r : Reader} (h : r.fault r.reads = none) (hb : r.rest = []) :
    r.read = (.ok none, r.missed) := by
  simp only [read, h, hb, missed]

theorem Reader.read_of_cons {r : Reader} {b : UInt8} {bs : List UInt8}
    (h : r.fault r.reads = none) (hb : r.rest = b :: bs) :
    r.read = (.ok (some b), r.advanced bs) := by
  simp only [read, h, hb, advanced]

theorem LineWriter.writeThrough_of_writeFault {w : LineWriter} {b : UInt8} {f : Failure}
    (h : w.sink.writeFault w.sink.writes = some f) :
    w.writeThrough [b] = (.error f, ⟨w.sink.refused [b], w.endsLine⟩) := by
  simp only [writeThrough, write, Sink.write, h, Sink.refused]

theorem LineWriter.writeThrough_of_flushFault {w : LineWriter} {b : UInt8} {f : Failure}
    (h : w.sink.writeFault w.sink.writes = none)
    (hf : w.sink.flushFault w.sink.flushes = some f) :
    w.writeThrough [b] = (.error f, ⟨w.sink.accepted b, b == newline⟩) := by
  simp [writeThrough, write, flush, Sink.write, Sink.flush, h, hf, Sink.accepted]

theorem LineWriter.writeThrough_of_none {w : LineWriter} {b : UInt8}
    (h : w.sink.writeFault w.sink.writes = none)
    (hf : w.sink.flushFault w.sink.flushes = none) :
    w.writeThrough [b] = (.ok (), ⟨w.sink.accepted b, b == newline⟩) := by
  simp [writeThrough, write, flush, Sink.write, Sink.flush, h, hf, Sink.accepted]

/-- The reader never fails. -/
def Reader.Healthy (r : Reader) : Prop := ∀ n, r.fault n = none

/-- The sink never fails. -/
def Sink.Healthy (k : Sink) : Prop := (∀ n, k.writeFault n = none) ∧ ∀ n, k.flushFault n = none

theorem Reader.healthy_ofBytes (bytes : List UInt8) : (Reader.ofBytes bytes).Healthy := fun _ => rfl

theorem Sink.healthy_healthy : Sink.healthy.Healthy := ⟨fun _ => rfl, fun _ => rfl⟩

/-- The byte that the machine writes when it is told to. -/
def Machine.outByte (m : Machine) : UInt8 := UInt8.ofNat m.tape.byte.toNat

/-- One step done: a byte was written. -/
def Machine.emitted (m : Machine) : Machine :=
  { m.advance m.tape with outputBytes := m.outputBytes + 1 }

/-- The instruction at the program counter writes. -/
def Code.writesAt (code : Code) (pc : Int) : Bool :=
  (code.fetch? pc).any fun ins => ins.opcode = .output

theorem Code.writesAt_of_fetch {code : Code} {pc : Int} {ins : Instruction}
    (hi : code.fetch? pc = some ins) : code.writesAt pc = decide (ins.opcode = .output) := by
  simp [writesAt, hi]

/-! ### Snapshots -/

/-- A machine and the streams it is stepped on. -/
structure Snapshot where
  machine : Machine
  input : Reader
  output : Sink

namespace Snapshot

/-- Forget the log, and whether the last line was ended. -/
def of (m : Machine) (io : Streams) : Snapshot := ⟨m, io.input, io.output.sink⟩

/-- The streams of a snapshot, with nothing told and no line ended. -/
def streams (s : Snapshot) : Streams := ⟨s.input, .onto s.output, []⟩

/-- Before the first step. -/
def start (settings : Settings) (input : Reader) (output : Sink) : Snapshot :=
  ⟨.initial settings, input, output⟩

/-- The program has finished. -/
def Finished (code : Code) (s : Snapshot) : Prop := code.finished s.machine.pc = true

instance (code : Code) (s : Snapshot) : Decidable (s.Finished code) :=
  inferInstanceAs (Decidable (code.finished s.machine.pc = true))

/-- One call of `step` on the bare streams: its fault, and what it leaves behind. -/
def step (code : Code) (caps : Caps) (s : Snapshot) : Option Fault × Snapshot :=
  match TapeMachine.step code caps s.machine s.streams with
  | ⟨fault, m, io⟩ => (fault, .of m io)

/-- The snapshot after `n` executed steps; none if the program finishes or a step fails before. -/
def after (code : Code) (caps : Caps) : (n : Nat) → Snapshot → Option Snapshot
  | 0, s => some s
  | n + 1, s =>
    if s.Finished code then none
    else
      match s.step code caps with
      | (some _, _) => none
      | (none, t) => t.after code caps n

/-- No call on the streams fails. -/
def Healthy (s : Snapshot) : Prop := s.input.Healthy ∧ s.output.Healthy

/-! ### One command -/

/-- Everything that executing a command can do to a snapshot: the fault, if there is one, and what
is left behind. -/
inductive Executes (jumps : JumpTable) (cap : Option Limit) (s : Snapshot) :
    Opcode → Option Fault → Snapshot → Prop where
  /-- The pointer moves to the left. -/
  | left {t : Tape} (h : s.machine.tape.moveLeft? = some t) :
      Executes jumps cap s .moveLeft none { s with machine := s.machine.advance t }
  /-- The pointer is at the first cell. -/
  | leftEdge (h : s.machine.tape.moveLeft? = none) :
      Executes jumps cap s .moveLeft (some (.ofProblem .pointerUnderflow)) s
  /-- The pointer moves to the right. -/
  | right {t : Tape} (h : s.machine.tape.moveRight? = some t) :
      Executes jumps cap s .moveRight none { s with machine := s.machine.advance t }
  /-- The pointer is at the last cell, and the tape is not extensible. -/
  | rightEdge (h : s.machine.tape.moveRight? = none) :
      Executes jumps cap s .moveRight (some (.ofProblem .pointerOverflow)) s
  /-- The cell steps up. -/
  | increment :
      Executes jumps cap s .increment none { s with machine := s.machine.update Tape.increment }
  /-- The cell steps down. -/
  | decrement :
      Executes jumps cap s .decrement none { s with machine := s.machine.update Tape.decrement }
  /-- A byte is read. -/
  | read {b : UInt8} {bs : List UInt8} (h : s.input.fault s.input.reads = none)
      (hb : s.input.rest = b :: bs) :
      Executes jumps cap s .input none
        ⟨s.machine.update (Tape.setByte · b.toNat), s.input.advanced bs, s.output⟩
  /-- There is no byte left. -/
  | readEnd (h : s.input.fault s.input.reads = none) (hb : s.input.rest = []) :
      Executes jumps cap s .input
        (some (.ofProblem (.read (.text "unexpected end of input"))))
        { s with input := s.input.missed }
  /-- The reader fails. -/
  | readFails {f : Failure} (h : s.input.fault s.input.reads = some f) :
      Executes jumps cap s .input (some (.ofFailure .read f)) { s with input := s.input.missed }
  /-- The cap on the output is reached. -/
  | capped {f : Fault} (h : capFault? s.machine.outputBytes .outputLimit cap = some f) :
      Executes jumps cap s .output (some f) s
  /-- A byte is written. -/
  | written (h : capFault? s.machine.outputBytes .outputLimit cap = none)
      (hw : s.output.writeFault s.output.writes = none)
      (hf : s.output.flushFault s.output.flushes = none) :
      Executes jumps cap s .output none
        ⟨s.machine.emitted, s.input, s.output.accepted s.machine.outByte⟩
  /-- The sink refuses the byte. -/
  | writeFails {f : Failure} (h : capFault? s.machine.outputBytes .outputLimit cap = none)
      (hw : s.output.writeFault s.output.writes = some f) :
      Executes jumps cap s .output (some (.ofFailure .write f))
        { s with output := s.output.refused [s.machine.outByte] }
  /-- The sink accepts the byte, but then the flush fails. -/
  | flushFails {f : Failure} (h : capFault? s.machine.outputBytes .outputLimit cap = none)
      (hw : s.output.writeFault s.output.writes = none)
      (hf : s.output.flushFault s.output.flushes = some f) :
      Executes jumps cap s .output (some (.ofFailure .write f))
        { s with output := s.output.accepted s.machine.outByte }
  /-- A loop is passed over. -/
  | skip {i : Nat} (h : s.machine.tape.current = 0) (hj : jumps.target? s.machine.pc = some i) :
      Executes jumps cap s .beginLoop none { s with machine := s.machine.jump i }
  /-- A loop is entered. -/
  | enter (h : s.machine.tape.current ≠ 0) :
      Executes jumps cap s .beginLoop none { s with machine := s.machine.advance s.machine.tape }
  /-- A loop is left. -/
  | leave (h : s.machine.tape.current = 0) :
      Executes jumps cap s .endLoop none { s with machine := s.machine.advance s.machine.tape }
  /-- A loop is run again. -/
  | again {i : Nat} (h : s.machine.tape.current ≠ 0) (hj : jumps.target? s.machine.pc = some i) :
      Executes jumps cap s .endLoop none { s with machine := s.machine.jump i }
  /-- An opening bracket has no partner. -/
  | openAlone (h : s.machine.tape.current = 0) (hj : jumps.target? s.machine.pc = none) :
      Executes jumps cap s .beginLoop (some (.noTarget s.machine.pc)) s
  /-- A closing bracket has no partner. -/
  | closeAlone (h : s.machine.tape.current ≠ 0) (hj : jumps.target? s.machine.pc = none) :
      Executes jumps cap s .endLoop (some (.noTarget s.machine.pc)) s

variable {jumps : JumpTable} {cap : Option Limit} {code : Code} {caps : Caps}

/-- Executing a command does one of the things listed, whatever the log and the last line are. -/
theorem executes (jumps : JumpTable) (cap : Option Limit) (op : Opcode) (m : Machine)
    (io : Streams) :
    Executes jumps cap (of m io) op (execute jumps cap op m io).fault
      (of (execute jumps cap op m io).machine (execute jumps cap op m io).streams) := by
  cases op with
  | moveLeft =>
    cases h : m.tape.moveLeft? with
    | none =>
      simp only [execute, h]
      exact .leftEdge h
    | some t =>
      simp only [execute, h]
      exact .left h
  | moveRight =>
    cases h : m.tape.moveRight? with
    | none =>
      simp only [execute, h]
      exact .rightEdge h
    | some t =>
      -- a doubled tape is told in the log, which a snapshot does not have
      simp only [execute, h]
      split <;> exact .right h
  | increment => exact .increment
  | decrement => exact .decrement
  | input =>
    cases h : io.input.fault io.input.reads with
    | some f =>
      simp only [execute, Reader.read_of_fault h]
      exact .readFails h
    | none =>
      cases hb : io.input.rest with
      | nil =>
        simp only [execute, Reader.read_of_nil h hb]
        exact .readEnd h hb
      | cons b bs =>
        simp only [execute, Reader.read_of_cons h hb]
        exact .read h hb
  | output =>
    cases h : capFault? m.outputBytes .outputLimit cap with
    | some f =>
      simp only [execute, h]
      exact .capped h
    | none =>
      cases hw : io.output.sink.writeFault io.output.sink.writes with
      | some f =>
        simp only [execute, h, LineWriter.writeThrough_of_writeFault hw]
        exact .writeFails h hw
      | none =>
        cases hf : io.output.sink.flushFault io.output.sink.flushes with
        | some f =>
          simp only [execute, h, LineWriter.writeThrough_of_flushFault hw hf]
          exact .flushFails h hw hf
        | none =>
          simp only [execute, h, LineWriter.writeThrough_of_none hw hf]
          exact .written h hw hf
  | beginLoop =>
    by_cases h : m.tape.current = 0
    · cases hj : jumps.target? m.pc with
      | none =>
        simp only [execute, h, hj, if_true]
        exact .openAlone h hj
      | some i =>
        simp only [execute, h, hj, if_true]
        exact .skip h hj
    · simp only [execute, h, if_false]
      exact .enter h
  | endLoop =>
    by_cases h : m.tape.current = 0
    · simp only [execute, h, if_true]
      exact .leave h
    · cases hj : jumps.target? m.pc with
      | none =>
        simp only [execute, h, hj, if_false]
        exact .closeAlone h hj
      | some i =>
        simp only [execute, h, hj, if_false]
        exact .again h hj

/-- What a command does is determined: the conditions of the cases exclude each other. -/
theorem Executes.unique {s t t' : Snapshot} {op : Opcode} {f f' : Option Fault}
    (h : Executes jumps cap s op f t) (h' : Executes jumps cap s op f' t') : f = f' ∧ t = t' := by
  cases h <;> cases h' <;> simp_all

/-- A command that fails leaves the machine as it was. -/
theorem Executes.machine_eq {s t : Snapshot} {op : Opcode} {f : Option Fault}
    (h : Executes jumps cap s op f t) (hf : f ≠ none) : t.machine = s.machine := by
  cases h <;> first | rfl | exact absurd rfl hf

/-- A command that does not fail is counted. -/
theorem Executes.steps_eq {s t : Snapshot} {op : Opcode} {f : Option Fault}
    (h : Executes jumps cap s op f t) (hf : f = none) :
    t.machine.steps = s.machine.steps + 1 := by
  cases h <;> first | rfl | cases hf

/-- Executing a command changes no schedule of failures. -/
theorem Executes.faults_eq {s t : Snapshot} {op : Opcode} {f : Option Fault}
    (h : Executes jumps cap s op f t) :
    t.input.fault = s.input.fault ∧ t.output.writeFault = s.output.writeFault ∧
      t.output.flushFault = s.output.flushFault := by
  cases h <;> exact ⟨rfl, rfl, rfl⟩

theorem Executes.healthy {s t : Snapshot} {op : Opcode} {f : Option Fault}
    (h : Executes jumps cap s op f t) (hs : s.Healthy) : t.Healthy := by
  obtain ⟨h₁, h₂, h₃⟩ := h.faults_eq
  obtain ⟨hr, hw, hf⟩ := hs
  exact ⟨fun n => by rw [h₁, hr], fun n => by rw [h₂, hw], fun n => by rw [h₃, hf]⟩

/-- A command that does not fail counts one byte if it is told to write, and none otherwise. It
writes only below the cap. -/
theorem Executes.outputBytes_eq {s t : Snapshot} {op : Opcode} {f : Option Fault}
    (h : Executes jumps cap s op f t) (hf : f = none) :
    op ≠ .output ∧ t.machine.outputBytes = s.machine.outputBytes ∨
      op = .output ∧ t.machine.outputBytes = s.machine.outputBytes + 1 ∧
        capFault? s.machine.outputBytes .outputLimit cap = none := by
  cases h <;> first
    | exact .inr ⟨rfl, rfl, ‹_›⟩
    | exact .inl ⟨by decide, rfl⟩
    | cases hf

/-- What a sink has accepted stays there. -/
theorem Executes.bytes_prefix {s t : Snapshot} {op : Opcode} {f : Option Fault}
    (h : Executes jumps cap s op f t) : s.output.bytes <+: t.output.bytes := by
  cases h <;> simp

/-- On a sink that never fails, the bytes written are the bytes counted. -/
theorem Executes.exists_emitted {s t : Snapshot} {op : Opcode} {f : Option Fault}
    (h : Executes jumps cap s op f t) (hs : s.output.Healthy) :
    ∃ e, t.output.bytes = s.output.bytes ++ e ∧
      t.machine.outputBytes = s.machine.outputBytes + e.length := by
  cases h with
  | written => exact ⟨[s.machine.outByte], Sink.bytes_accepted _ _, rfl⟩
  | writeFails _ hw => rw [hs.1] at hw; cases hw
  | flushFails _ _ hf => rw [hs.2] at hf; cases hf
  | _ => exact ⟨[], (List.append_nil _).symm, (Int.add_zero _).symm⟩

/-! ### One step -/

/-- Everything that one call of `step` can do to a snapshot. -/
inductive Stepped (code : Code) (caps : Caps) (s : Snapshot) : Option Fault → Snapshot → Prop where
  /-- Nothing, once the program has finished. -/
  | finished (h : s.Finished code) : Stepped code caps s none s
  /-- There is no instruction. -/
  | noInstruction (h : ¬ s.Finished code) (hi : code.fetch? s.machine.pc = none) :
      Stepped code caps s (some (.noInstruction s.machine.pc)) s
  /-- The cap on the steps is reached. -/
  | capped {ins : Instruction} {f : Fault} (h : ¬ s.Finished code)
      (hi : code.fetch? s.machine.pc = some ins)
      (hc : capFault? s.machine.steps .stepLimit caps.steps = some f) :
      Stepped code caps s (some (f.locate code.program.source ins)) s
  /-- The instruction is executed, and a fault is blamed on it. -/
  | executed {ins : Instruction} {f : Option Fault} {t : Snapshot} (h : ¬ s.Finished code)
      (hi : code.fetch? s.machine.pc = some ins)
      (hc : capFault? s.machine.steps .stepLimit caps.steps = none)
      (he : Executes code.jumps caps.output s ins.opcode f t) :
      Stepped code caps s (f.map (·.locate code.program.source ins)) t

theorem locate_eq (source : Option String) (ins : Instruction) (r : Step) :
    r.locate source ins = ⟨r.fault.map (·.locate source ins), r.machine, r.streams⟩ := by
  obtain ⟨fault, m, io⟩ := r
  cases fault <;> rfl

/-- A step does one of the things listed, whatever the log and the last line are. -/
theorem stepped_of (code : Code) (caps : Caps) (m : Machine) (io : Streams) :
    Stepped code caps (of m io) (TapeMachine.step code caps m io).fault
      (of (TapeMachine.step code caps m io).machine (TapeMachine.step code caps m io).streams) := by
  unfold TapeMachine.step
  by_cases h : code.finished m.pc = true
  · rw [if_pos h]
    exact .finished h
  · rw [if_neg h]
    cases hi : code.fetch? m.pc with
    | none => exact .noInstruction h hi
    | some ins =>
      cases hc : capFault? m.steps .stepLimit caps.steps with
      | some f => exact .capped h hi hc
      | none =>
        simp only [locate_eq]
        exact .executed h hi hc (executes code.jumps caps.output ins.opcode m io)

/-- What a step does is determined. -/
theorem Stepped.unique {s t t' : Snapshot} {f f' : Option Fault} (h : Stepped code caps s f t)
    (h' : Stepped code caps s f' t') : f = f' ∧ t = t' := by
  cases h with
  | finished h => cases h' <;> simp_all
  | noInstruction h hi => cases h' <;> simp_all
  | capped h hi hc => cases h' <;> simp_all
  | executed h hi hc he =>
    cases h' with
    | executed _ hi' _ he' =>
      rw [hi, Option.some.injEq] at hi'
      subst hi'
      obtain ⟨rfl, rfl⟩ := he.unique he'
      exact ⟨rfl, rfl⟩
    | _ => simp_all

theorem stepped (code : Code) (caps : Caps) (s : Snapshot) :
    Stepped code caps s (s.step code caps).1 (s.step code caps).2 :=
  stepped_of code caps s.machine s.streams

theorem Stepped.eq {s t : Snapshot} {f : Option Fault} (h : Stepped code caps s f t) :
    s.step code caps = (f, t) := by
  obtain ⟨h₁, h₂⟩ := (stepped code caps s).unique h
  exact Prod.ext h₁ h₂

/-- A step on any streams is the step on the bare ones. -/
theorem step_of (code : Code) (caps : Caps) (m : Machine) (io : Streams) :
    (of m io).step code caps = ((TapeMachine.step code caps m io).fault,
      of (TapeMachine.step code caps m io).machine (TapeMachine.step code caps m io).streams) :=
  (stepped_of code caps m io).eq

/-- A step that fails leaves the machine as it was. -/
theorem Stepped.machine_eq {s t : Snapshot} {f : Option Fault} (h : Stepped code caps s f t)
    (hf : f ≠ none) : t.machine = s.machine := by
  cases h with
  | finished => rfl
  | noInstruction => rfl
  | capped => rfl
  | executed _ _ _ he => exact he.machine_eq (by simpa using hf)

/-- A step that does not fail is counted, until the program has finished. -/
theorem Stepped.steps_eq {s t : Snapshot} {f : Option Fault} (h : Stepped code caps s f t)
    (hf : f = none) (hr : ¬ s.Finished code) : t.machine.steps = s.machine.steps + 1 := by
  cases h with
  | finished h => exact absurd h hr
  | noInstruction => cases hf
  | capped => cases hf
  | executed _ _ _ he => exact he.steps_eq (by simpa using hf)

/-- What a sink has accepted stays there. -/
theorem Stepped.bytes_prefix {s t : Snapshot} {f : Option Fault} (h : Stepped code caps s f t) :
    s.output.bytes <+: t.output.bytes := by
  cases h with
  | executed _ _ _ he => exact he.bytes_prefix
  | _ => exact List.prefix_rfl

/-- On a sink that never fails, the bytes written are the bytes counted. -/
theorem Stepped.exists_emitted {s t : Snapshot} {f : Option Fault} (h : Stepped code caps s f t)
    (hs : s.output.Healthy) :
    ∃ e, t.output.bytes = s.output.bytes ++ e ∧
      t.machine.outputBytes = s.machine.outputBytes + e.length := by
  cases h with
  | executed _ _ _ he => exact he.exists_emitted hs
  | _ => exact ⟨[], (List.append_nil _).symm, (Int.add_zero _).symm⟩

/-- A step changes no schedule of failures. -/
theorem Stepped.faults_eq {s t : Snapshot} {f : Option Fault} (h : Stepped code caps s f t) :
    t.input.fault = s.input.fault ∧ t.output.writeFault = s.output.writeFault ∧
      t.output.flushFault = s.output.flushFault := by
  cases h with
  | executed _ _ _ he => exact he.faults_eq
  | _ => exact ⟨rfl, rfl, rfl⟩

theorem Stepped.healthy {s t : Snapshot} {f : Option Fault} (h : Stepped code caps s f t)
    (hs : s.Healthy) : t.Healthy := by
  cases h with
  | executed _ _ _ he => exact he.healthy hs
  | _ => exact hs

/-! ### Counted runs -/

@[simp] theorem after_zero (s : Snapshot) : s.after code caps 0 = some s := rfl

/-- One more step at the start of a run. -/
theorem after_succ_iff {n : Nat} {s u : Snapshot} :
    s.after code caps (n + 1) = some u ↔
      ∃ t, ¬ s.Finished code ∧ s.step code caps = (none, t) ∧ t.after code caps n = some u := by
  rw [after]
  constructor
  · intro h
    split at h
    · cases h
    · next hr =>
      split at h
      · cases h
      · next t ht => exact ⟨t, hr, ht, h⟩
  · rintro ⟨t, hr, ht, h⟩
    rw [if_neg hr, ht]
    exact h

/-- A run can be cut anywhere. -/
theorem after_add_iff {m n : Nat} {s u : Snapshot} :
    s.after code caps (m + n) = some u ↔
      ∃ t, s.after code caps m = some t ∧ t.after code caps n = some u := by
  induction m generalizing s with
  | zero => simp
  | succ m ih =>
    rw [Nat.add_right_comm, after_succ_iff]
    constructor
    · rintro ⟨t, hr, ht, h⟩
      obtain ⟨v, hv, hu⟩ := ih.1 h
      exact ⟨v, after_succ_iff.2 ⟨t, hr, ht, hv⟩, hu⟩
    · rintro ⟨v, hv, hu⟩
      obtain ⟨t, hr, ht, hv⟩ := after_succ_iff.1 hv
      exact ⟨t, hr, ht, ih.2 ⟨v, hv, hu⟩⟩

theorem after_one_iff {s u : Snapshot} :
    s.after code caps 1 = some u ↔ ¬ s.Finished code ∧ s.step code caps = (none, u) := by
  rw [after_succ_iff]
  constructor
  · rintro ⟨t, hr, ht, h⟩
    cases h
    exact ⟨hr, ht⟩
  · rintro ⟨hr, ht⟩
    exact ⟨u, hr, ht, rfl⟩

/-- One more step at the end of a run. -/
theorem after_succ_right_iff {n : Nat} {s u : Snapshot} :
    s.after code caps (n + 1) = some u ↔
      ∃ t, s.after code caps n = some t ∧ ¬ t.Finished code ∧ t.step code caps = (none, u) := by
  rw [after_add_iff]
  constructor
  · rintro ⟨t, ht, hu⟩
    exact ⟨t, ht, after_one_iff.1 hu⟩
  · rintro ⟨t, ht, hu⟩
    exact ⟨t, ht, after_one_iff.2 hu⟩

/-- A run stops where its program has finished. -/
theorem Finished.after_one {s : Snapshot} (h : s.Finished code) : s.after code caps 1 = none := by
  rw [after, if_pos h]

/-- A run stops where a step fails. -/
theorem after_one_of_fault {s : Snapshot} {f : Fault} (h : (s.step code caps).1 = some f) :
    s.after code caps 1 = none := by
  rw [Option.eq_none_iff_forall_ne_some]
  intro u hu
  rw [(after_one_iff.1 hu).2] at h
  cases h

/-- A run that stops within `N` steps has fewer than `N` steps, and from every point on it stops
within the steps that are left. -/
theorem after_sub_eq_none {N k : Nat} {s t : Snapshot} (hN : s.after code caps N = none)
    (h : s.after code caps k = some t) : k < N ∧ t.after code caps (N - k) = none := by
  have hlt : k < N := by
    refine Nat.lt_of_not_le fun hle => ?_
    obtain ⟨j, rfl⟩ := Nat.exists_eq_add_of_le hle
    obtain ⟨u, hu, -⟩ := after_add_iff.1 h
    rw [hN] at hu
    cases hu
  refine ⟨hlt, ?_⟩
  rw [Option.eq_none_iff_forall_ne_some]
  intro u hu
  have hsum : s.after code caps (k + (N - k)) = some u := after_add_iff.2 ⟨t, h, hu⟩
  rw [Nat.add_sub_cancel' (Nat.le_of_lt hlt), hN] at hsum
  cases hsum

/-- No run goes past the place where it stops. -/
theorem le_of_stop {n k : Nat} {s t u : Snapshot} (hn : s.after code caps n = some t)
    (ht : t.after code caps 1 = none) (hk : s.after code caps k = some u) : k ≤ n := by
  have hstop : s.after code caps (n + 1) = none := by
    rw [Option.eq_none_iff_forall_ne_some]
    intro x hx
    obtain ⟨y, hy, hyx⟩ := after_add_iff.1 hx
    rw [hn] at hy
    cases hy
    rw [ht] at hyx
    cases hyx
  exact Nat.le_of_lt_succ (after_sub_eq_none hstop hk).1

/-- A run stops at one place. -/
theorem stop_unique {n k : Nat} {s t u : Snapshot} (hn : s.after code caps n = some t)
    (ht : t.after code caps 1 = none) (hk : s.after code caps k = some u)
    (hu : u.after code caps 1 = none) : n = k ∧ t = u := by
  obtain rfl : n = k := Nat.le_antisymm (le_of_stop hk hu hn) (le_of_stop hn ht hk)
  rw [hn] at hk
  exact ⟨rfl, Option.some.inj hk⟩

/-- What every executed step keeps holds along a run. -/
theorem after_induction {P : Snapshot → Prop}
    (hstep : ∀ s t, P s → ¬ s.Finished code → Stepped code caps s none t → P t) {n : Nat}
    {s u : Snapshot} (h : s.after code caps n = some u) (hs : P s) : P u := by
  induction n generalizing s with
  | zero =>
    cases h
    exact hs
  | succ n ih =>
    obtain ⟨t, hr, ht, h⟩ := after_succ_iff.1 h
    refine ih h (hstep s t hs hr ?_)
    have hst := stepped code caps s
    rwa [ht] at hst

/-- The counter of a machine counts the executed steps. -/
theorem steps_after {n : Nat} {s u : Snapshot} (h : s.after code caps n = some u) :
    u.machine.steps = s.machine.steps + n := by
  induction n generalizing s with
  | zero =>
    cases h
    simp
  | succ n ih =>
    obtain ⟨t, hr, ht, h⟩ := after_succ_iff.1 h
    have hst := stepped code caps s
    rw [ht] at hst
    rw [ih h, hst.steps_eq rfl hr]
    omega

theorem healthy_after {n : Nat} {s u : Snapshot} (h : s.after code caps n = some u)
    (hs : s.Healthy) : u.Healthy :=
  after_induction (fun _ _ hs _ hst => hst.healthy hs) h hs

/-- On a sink that never fails, the bytes written are the bytes counted. -/
theorem exists_emitted_after {n : Nat} {s u : Snapshot} (h : s.after code caps n = some u)
    (hs : s.Healthy) :
    ∃ e, u.output.bytes = s.output.bytes ++ e ∧
      u.machine.outputBytes = s.machine.outputBytes + e.length := by
  suffices hall : u.Healthy ∧ ∃ e, u.output.bytes = s.output.bytes ++ e ∧
      u.machine.outputBytes = s.machine.outputBytes + e.length from hall.2
  refine after_induction (P := fun v => v.Healthy ∧ ∃ e, v.output.bytes = s.output.bytes ++ e ∧
    v.machine.outputBytes = s.machine.outputBytes + e.length) ?_ h ⟨hs, [], by simp⟩
  rintro v w ⟨hv, e, hbytes, hcount⟩ - hst
  obtain ⟨e', hbytes', hcount'⟩ := hst.exists_emitted hv.2
  refine ⟨hst.healthy hv, e ++ e', by rw [hbytes', hbytes, List.append_assoc], ?_⟩
  rw [hcount', hcount, List.length_append]
  omega

/-- How a run ended, read off the counted runs from its start `s` to its end `u`. -/
def EndsIn (code : Code) (caps : Caps) (fuel : Nat) (s : Snapshot) : Ending → Snapshot → Prop
  | .finished, u => ∃ n ≤ fuel, s.after code caps n = some u ∧ u.Finished code
  | .failed f, u => ∃ n < fuel, ∃ t, s.after code caps n = some t ∧ ¬ t.Finished code ∧
      t.step code caps = (some f, u)
  | .unfinished, u => s.after code caps fuel = some u ∧ ¬ u.Finished code

theorem EndsIn.succ {fuel : Nat} {s t u : Snapshot} {e : Ending} (hr : ¬ s.Finished code)
    (ht : s.step code caps = (none, t)) (h : EndsIn code caps fuel t e u) :
    EndsIn code caps (fuel + 1) s e u := by
  cases e with
  | finished =>
    obtain ⟨n, hn, hu, hf⟩ := h
    exact ⟨n + 1, by omega, after_succ_iff.2 ⟨t, hr, ht, hu⟩, hf⟩
  | failed f =>
    obtain ⟨n, hn, v, hv, hrv, hf⟩ := h
    exact ⟨n + 1, by omega, v, after_succ_iff.2 ⟨t, hr, ht, hv⟩, hrv, hf⟩
  | unfinished => exact ⟨after_succ_iff.2 ⟨t, hr, ht, h.1⟩, h.2⟩

/-- A run ends where the counted runs say. -/
theorem runFor_spec (code : Code) (caps : Caps) (fuel : Nat) (m : Machine) (io : Streams) :
    EndsIn code caps fuel (of m io) (runFor code caps fuel m io).1
      (of (runFor code caps fuel m io).2.1 (runFor code caps fuel m io).2.2) := by
  induction fuel generalizing m io with
  | zero =>
    rw [runFor]
    split
    · next h => exact ⟨0, Nat.le_refl 0, rfl, h⟩
    · next h => exact ⟨rfl, h⟩
  | succ fuel ih =>
    rw [runFor]
    split
    · next h => exact ⟨0, Nat.zero_le _, rfl, h⟩
    · next h =>
      have hst := step_of code caps m io
      split
      · next f m' io' heq =>
        rw [heq] at hst
        exact ⟨0, Nat.succ_pos _, of m io, rfl, h, hst⟩
      · next m' io' heq =>
        rw [heq] at hst
        exact (ih m' io').succ h hst

/-- What every step keeps, also one that fails, holds at the end of a run if it holds on the way. -/
theorem EndsIn.keeps {P : Snapshot → Prop}
    (hstep : ∀ s t f, Stepped code caps s f t → P s → P t) {k fuel : Nat} {s t u : Snapshot}
    {e : Ending} (he : EndsIn code caps fuel s e u) (ht : s.after code caps k = some t)
    (hle : k ≤ fuel) (hP : P t) : P u := by
  have hlater : ∀ {n : Nat} {v : Snapshot}, s.after code caps n = some v → k ≤ n → P v := by
    intro n v hv hkn
    obtain ⟨j, rfl⟩ := Nat.exists_eq_add_of_le hkn
    obtain ⟨w, hw, hv⟩ := after_add_iff.1 hv
    rw [ht] at hw
    cases hw
    exact after_induction (fun a b ha _ hst => hstep a b none hst ha) hv hP
  cases e with
  | finished =>
    obtain ⟨n, -, hn, hf⟩ := he
    exact hlater hn (le_of_stop hn hf.after_one ht)
  | failed f =>
    obtain ⟨n, -, v, hn, -, hf⟩ := he
    have hst := stepped code caps v
    rw [hf] at hst
    exact hstep v u _ hst (hlater hn (le_of_stop hn (after_one_of_fault (by rw [hf])) ht))
  | unfinished => exact hlater he.1 hle

/-- How a run ends at a snapshot; none if it goes on. -/
def ending? (code : Code) (caps : Caps) (s : Snapshot) : Option Ending :=
  if s.Finished code then some .finished else (s.step code caps).1.map .failed

theorem after_one_of_ending? {s : Snapshot} {e : Ending} (h : s.ending? code caps = some e) :
    s.after code caps 1 = none := by
  unfold ending? at h
  split at h
  · next hf => exact hf.after_one
  · obtain ⟨f, hf, -⟩ := Option.map_eq_some_iff.1 h
    exact after_one_of_fault hf

/-- A run with steps enough ends where the counted run does. -/
theorem runFor_of_ending? {n fuel : Nat} {m : Machine} {io : Streams} {s : Snapshot} {e : Ending}
    (hs : (of m io).after code caps n = some s) (he : s.ending? code caps = some e)
    (hfuel : n < fuel) :
    (runFor code caps fuel m io).1 = e ∧
      of (runFor code caps fuel m io).2.1 (runFor code caps fuel m io).2.2 =
        (s.step code caps).2 := by
  have hspec := runFor_spec code caps fuel m io
  have hstop := after_one_of_ending? he
  generalize runFor code caps fuel m io = run at hspec ⊢
  obtain ⟨ending, m', io'⟩ := run
  cases ending with
  | finished =>
    obtain ⟨k, -, hk, hf⟩ := hspec
    obtain ⟨rfl, rfl⟩ := stop_unique hs hstop hk hf.after_one
    rw [ending?, if_pos hf, Option.some.injEq] at he
    exact ⟨he, by rw [(Stepped.finished hf).eq]⟩
  | failed f =>
    obtain ⟨k, -, t, hk, hr, hf⟩ := hspec
    obtain ⟨rfl, rfl⟩ := stop_unique hs hstop hk (after_one_of_fault (by rw [hf]))
    rw [ending?, if_neg hr, hf] at he
    exact ⟨Option.some.inj he, by rw [hf]⟩
  | unfinished =>
    -- the run would have gone past the place where it ends
    obtain ⟨hrest, -⟩ := hspec
    obtain ⟨k, rfl⟩ := Nat.exists_eq_add_of_lt hfuel
    rw [Nat.add_assoc, Nat.add_comm k, ← Nat.add_assoc] at hrest
    obtain ⟨t, ht, -⟩ := after_add_iff.1 hrest
    obtain ⟨v, hv, ht⟩ := after_add_iff.1 ht
    rw [hs] at hv
    cases hv
    rw [hstop] at ht
    cases ht

end Snapshot

end TapeMachine
