import Mathlib
import TapeMachine.Proofs.Forest
import TapeMachine.Proofs.Snapshot
import TapeMachine.Proofs.Tape

/-!
# What holds of a machine between calls

A machine is stepped, run from its start and reset, in any order and with any streams, which may
fail on any of their calls. `Sound` says what can be relied on between the calls: the program counter
and the pointer are in range, every cell fits its width, the tape has been doubled some number of
times and only if it is extensible, and the counts stay within the caps.

The program counter stays in range because of the jump table, and the jump table is right because the
program was checked: a bracket of a checked program belongs to a loop of its forest
(`Forest.Placed.exists_target`). So no step of a checked program ever looks for an instruction or for
a partner that is not there, and all that a step can raise is an error of the program or a failure of
a stream (`Kept.stepped`).

The main result is `calls_sound`, for all finite sequences of calls.
-/

namespace TapeMachine

open Snapshot

/-! ### Caps that are integers -/

/-- Caps that are integers, or none. -/
def Caps.ofInts (steps output : Option Int) : Caps := ⟨steps.map .count, output.map .count⟩

theorem capFault?_count_eq_none_iff {k : Int} {problem : Limit → Problem} {cap : Option Int} :
    capFault? k problem (cap.map .count) = none ↔ ∀ n ∈ cap, k < n := by
  cases cap with
  | none => simp [capFault?]
  | some n =>
    by_cases h : n ≤ k
    · simp [capFault?, Limit.reached, h]
    · simp only [Option.map_some, capFault?, Limit.reached, h, decide_false, Option.mem_def,
        Option.some.injEq, forall_eq', true_iff]
      omega

theorem eq_of_capFault?_count {k : Int} {problem : Limit → Problem} {cap : Option Int} {φ : Fault}
    (h : capFault? k problem (cap.map .count) = some φ) :
    ∃ n, cap = some n ∧ n ≤ k ∧ φ = .ofProblem (problem (.count n)) := by
  cases cap with
  | none => cases h
  | some n =>
    by_cases hn : n ≤ k
    · simp only [Option.map_some, capFault?, Limit.reached, hn, decide_true, Option.some.injEq] at h
      exact ⟨n, rfl, hn, h.symm⟩
    · simp [capFault?, Limit.reached, hn] at h

/-! ### Expected faults -/

/-- An error of the program or a failure of a stream. Anything else would mean that an instruction,
a partner of a bracket or an order of two values was looked for and not found. -/
def Fault.Expected : Fault → Prop
  | .error _ _ => True
  | .failure _ => True
  | .operand _ => False
  | .noInstruction _ => False
  | .noTarget _ => False

theorem Fault.Expected.locate {φ : Fault} (h : φ.Expected) (source : Option String)
    (ins : Instruction) : (φ.locate source ins).Expected := by
  cases φ <;> exact h

theorem Fault.expected_ofFailure (problem : Value → Problem) (f : Failure) :
    (Fault.ofFailure problem f).Expected := by
  unfold ofFailure
  split <;> trivial

theorem expected_of_capFault? {k : Int} {problem : Limit → Problem} {cap : Option Int} {φ : Fault}
    (h : capFault? k problem (cap.map .count) = some φ) : φ.Expected := by
  obtain ⟨n, -, -, rfl⟩ := eq_of_capFault?_count h
  trivial

/-! ### Tapes of a run -/

/-- A tape that a run with these settings can have. -/
structure Tape.Grown (settings : Settings) (t : Tape) : Prop where
  kind : t.kind = settings.kind
  extensible : t.extensible = settings.extensible
  fits : t.Fits
  length : ∃ k, t.length = settings.cells * 2 ^ k ∧ (settings.extensible = false → k = 0)

namespace Tape.Grown

variable {settings : Settings} {t u : Tape}

theorem blank (settings : Settings) : (Machine.initial settings).tape.Grown settings where
  kind := rfl
  extensible := rfl
  fits := fits_blank settings.cells settings.cells_pos settings.extensible settings.kind
  length := ⟨0, by simp [Machine.initial, Tape.blank, Tape.length], fun _ => rfl⟩

theorem put (h : t.Grown settings) {v : Int} (hv : t.kind.Fits v) : (t.put v).Grown settings where
  kind := h.kind
  extensible := h.extensible
  fits := h.fits.put hv
  length := by rw [length_put]; exact h.length

theorem moveLeft (h : t.Grown settings) (hu : t.moveLeft? = some u) : u.Grown settings := by
  obtain ⟨hkind, hext, hcells, -⟩ := moveLeft?_eq_some_iff.1 hu
  refine ⟨hkind.trans h.kind, hext.trans h.extensible, h.fits.moveLeft hu, ?_⟩
  rw [Tape.length, hcells]
  exact h.length

theorem moveRight (h : t.Grown settings) (hu : t.moveRight? = some u) : u.Grown settings := by
  obtain ⟨hkind, hext, -, hcells⟩ := moveRight?_eq_some hu
  refine ⟨hkind.trans h.kind, hext.trans h.extensible, h.fits.moveRight hu, ?_⟩
  rcases hcells with ⟨-, hcells⟩ | ⟨-, hx, hcells⟩
  · rw [Tape.length, hcells]
    exact h.length
  · -- one more doubling, which only an extensible tape makes
    obtain ⟨k, hk, -⟩ := h.length
    rw [h.extensible] at hx
    refine ⟨k + 1, ?_, fun hfixed => by rw [hx] at hfixed; cases hfixed⟩
    rw [Tape.length, hcells, Array.size_append, Array.size_replicate, ← Tape.length, hk, pow_succ]
    ring

end Tape.Grown

/-! ### Sound machines -/

/-- What can be relied on between calls. -/
structure Sound (code : Code) (settings : Settings) (maxSteps maxOutput : Option Int)
    (m : Machine) : Prop where
  pc_nonneg : 0 ≤ m.pc
  pc_le : m.pc ≤ code.program.size
  /-- The pointer is in range. -/
  pointer_lt : m.tape.pointer < m.tape.length
  /-- Every cell fits the width. -/
  cells : ∀ v ∈ m.tape.cells.toList, 0 ≤ v ∧ v ≤ 2 ^ settings.kind.bits - 1
  /-- The tape has been doubled some number of times, and never if it is not extensible. -/
  length : ∃ k, m.tape.length = settings.cells * 2 ^ k ∧ (settings.extensible = false → k = 0)
  output_le : m.outputBytes ≤ m.steps
  steps_le : ∀ n ∈ maxSteps, m.steps ≤ max 0 n
  output_cap : ∀ n ∈ maxOutput, m.outputBytes ≤ max 0 n
  /-- Unless the program has finished there is an instruction, and a bracket has a partner. -/
  lookup : m.pc < code.program.size → ∃ ins, code.fetch? m.pc = some ins ∧
    (ins.opcode = .beginLoop ∨ ins.opcode = .endLoop →
      ∃ j, code.jumps.target? m.pc = some j ∧ j < code.program.size)

/-- Every index of the code has an instruction, and every bracket a partner inside the program. -/
def Code.Complete (code : Code) : Prop :=
  ∀ i < code.program.size, ∃ ins, code.fetch? i = some ins ∧
    (ins.opcode = .beginLoop ∨ ins.opcode = .endLoop →
      ∃ j, code.jumps.target? i = some j ∧ j < code.program.size)

/-- The code of a program that passed the check is complete. -/
theorem Code.complete_of_check {p : Program} {code : Code} (hp : p.check = .ok ())
    (h : Code.ofProgram p = .ok code) (hcode : code.program = p) : code.Complete := by
  obtain ⟨f, hf⟩ := (Forest.check_eq_ok_iff p).1 hp
  have hsize : code.program.size = f.size := by
    rw [hcode, ← Forest.length_flatten, hf, Array.length_toList]
    rfl
  intro i hi
  obtain ⟨ins, hins, htarget⟩ := (Forest.placed_of_flatten h hf).exists_target (Nat.zero_le i)
    (by omega)
  refine ⟨ins, hins, fun hb => ?_⟩
  obtain ⟨j, hj, -, hlt⟩ := htarget hb
  exact ⟨j, hj, by omega⟩

/-- What a step keeps. -/
structure Kept (code : Code) (settings : Settings) (maxSteps maxOutput : Option Int)
    (m : Machine) : Prop where
  pc_nonneg : 0 ≤ m.pc
  pc_le : m.pc ≤ code.program.size
  tape : m.tape.Grown settings
  output_le : m.outputBytes ≤ m.steps
  steps_le : ∀ n ∈ maxSteps, m.steps ≤ max 0 n
  output_cap : ∀ n ∈ maxOutput, m.outputBytes ≤ max 0 n

namespace Kept

variable {code : Code} {settings : Settings} {maxSteps maxOutput : Option Int}

theorem initial (code : Code) (settings : Settings) (maxSteps maxOutput : Option Int) :
    Kept code settings maxSteps maxOutput (.initial settings) where
  pc_nonneg := le_rfl
  pc_le := Int.natCast_nonneg _
  tape := .blank settings
  output_le := le_rfl
  steps_le := fun _ _ => le_max_left _ _
  output_cap := fun _ _ => le_max_left _ _

theorem lookup {m : Machine} (h : Kept code settings maxSteps maxOutput m) (hcode : code.Complete)
    (hpc : m.pc < code.program.size) : ∃ ins, code.fetch? m.pc = some ins ∧
      (ins.opcode = .beginLoop ∨ ins.opcode = .endLoop →
        ∃ j, code.jumps.target? m.pc = some j ∧ j < code.program.size) := by
  obtain ⟨i, hi⟩ := Int.eq_ofNat_of_zero_le h.pc_nonneg
  rw [hi] at hpc ⊢
  exact hcode i (by exact_mod_cast hpc)

theorem sound {m : Machine} (h : Kept code settings maxSteps maxOutput m) (hcode : code.Complete) :
    Sound code settings maxSteps maxOutput m where
  pc_nonneg := h.pc_nonneg
  pc_le := h.pc_le
  pointer_lt := m.tape.pointer_lt
  cells := by
    intro v hv
    have hfits := h.tape.fits v hv
    rwa [h.tape.kind, CellKind.Fits, CellKind.largest_eq] at hfits
  length := h.tape.length
  output_le := h.output_le
  steps_le := h.steps_le
  output_cap := h.output_cap
  lookup := h.lookup hcode

/-- One step was counted, and perhaps one byte; neither had reached its cap. -/
theorem counted {m m' : Machine} (h : Kept code settings maxSteps maxOutput m)
    (hpc : 0 ≤ m'.pc ∧ m'.pc ≤ code.program.size) (htape : m'.tape.Grown settings)
    (hsteps : m'.steps = m.steps + 1) (hcap : ∀ n ∈ maxSteps, m.steps < n)
    (hout : m'.outputBytes = m.outputBytes ∨
      m'.outputBytes = m.outputBytes + 1 ∧ ∀ n ∈ maxOutput, m.outputBytes < n) :
    Kept code settings maxSteps maxOutput m' where
  pc_nonneg := hpc.1
  pc_le := hpc.2
  tape := htape
  output_le := by
    have := h.output_le
    rcases hout with hout | ⟨hout, -⟩ <;> omega
  steps_le := by
    intro n hn
    have := hcap n hn
    rw [hsteps]
    omega
  output_cap := by
    intro n hn
    rcases hout with hout | ⟨hout, hlt⟩
    · rw [hout]
      exact h.output_cap n hn
    · have := hlt n hn
      rw [hout]
      omega

/-- A command keeps what has to be kept. -/
theorem executes {s t : Snapshot} {ins : Instruction} {op : Opcode} {φ : Option Fault}
    (h : Kept code settings maxSteps maxOutput s.machine) (hcode : code.Complete)
    (hbits : 8 ≤ settings.kind.bits) (hpc : s.machine.pc < code.program.size)
    (hi : code.fetch? s.machine.pc = some ins) (hop : ins.opcode = op)
    (hcap : ∀ n ∈ maxSteps, s.machine.steps < n)
    (he : Executes code.jumps (maxOutput.map .count) s op φ t) :
    Kept code settings maxSteps maxOutput t.machine := by
  obtain ⟨ins', hi', htarget⟩ := h.lookup hcode hpc
  rw [hi, Option.some.injEq] at hi'
  subst hi'
  have hnext : 0 ≤ s.machine.pc + 1 ∧ s.machine.pc + 1 ≤ code.program.size := by
    have := h.pc_nonneg
    omega
  have hjump : ∀ {i : Nat}, ins.opcode = .beginLoop ∨ ins.opcode = .endLoop →
      code.jumps.target? s.machine.pc = some i → (0 : Int) ≤ i + 1 ∧ (i + 1 : Int) ≤ code.program.size := by
    intro i hb hj
    obtain ⟨j, hj', hlt⟩ := htarget hb
    rw [hj, Option.some.injEq] at hj'
    omega
  cases he with
  | left hu => exact h.counted hnext (h.tape.moveLeft hu) rfl hcap (.inl rfl)
  | right hu => exact h.counted hnext (h.tape.moveRight hu) rfl hcap (.inl rfl)
  | increment =>
    exact h.counted hnext (h.tape.put (CellKind.fits_increment h.tape.fits.current)) rfl hcap
      (.inl rfl)
  | decrement =>
    exact h.counted hnext (h.tape.put (CellKind.fits_decrement h.tape.fits.current)) rfl hcap
      (.inl rfl)
  | @read b bs _ _ =>
    have hb : s.machine.tape.kind.Fits (s.machine.tape.kind.ofByte b.toNat) :=
      CellKind.fits_byte (by rw [h.tape.kind]; exact hbits) b
    exact h.counted hnext (h.tape.put hb) rfl hcap (.inl rfl)
  | written hc => exact h.counted hnext h.tape rfl hcap (.inr ⟨rfl, capFault?_count_eq_none_iff.1 hc⟩)
  | skip _ hj => exact h.counted (hjump (.inl hop) hj) h.tape rfl hcap (.inl rfl)
  | enter => exact h.counted hnext h.tape rfl hcap (.inl rfl)
  | leave => exact h.counted hnext h.tape rfl hcap (.inl rfl)
  | again _ hj => exact h.counted (hjump (.inr hop) hj) h.tape rfl hcap (.inl rfl)
  | _ => exact h

/-- What a command raises is expected. -/
theorem expected_executes {s t : Snapshot} {ins : Instruction} {op : Opcode} {φ : Option Fault}
    (h : Kept code settings maxSteps maxOutput s.machine) (hcode : code.Complete)
    (hpc : s.machine.pc < code.program.size) (hi : code.fetch? s.machine.pc = some ins)
    (hop : ins.opcode = op) (he : Executes code.jumps (maxOutput.map .count) s op φ t) :
    ∀ ψ ∈ φ, ψ.Expected := by
  obtain ⟨ins', hi', htarget⟩ := h.lookup hcode hpc
  rw [hi, Option.some.injEq] at hi'
  subst hi'
  have hpartner : ins.opcode = .beginLoop ∨ ins.opcode = .endLoop →
      code.jumps.target? s.machine.pc ≠ none := by
    intro hb hj
    obtain ⟨j, hj', -⟩ := htarget hb
    rw [hj] at hj'
    cases hj'
  intro ψ hψ
  cases he with
  | leftEdge => cases hψ; trivial
  | rightEdge => cases hψ; trivial
  | readEnd => cases hψ; trivial
  | readFails => cases hψ; exact Fault.expected_ofFailure _ _
  | capped hc => cases hψ; exact expected_of_capFault? hc
  | writeFails => cases hψ; exact Fault.expected_ofFailure _ _
  | flushFails => cases hψ; exact Fault.expected_ofFailure _ _
  | openAlone _ hj => exact absurd hj (hpartner (.inl hop))
  | closeAlone _ hj => exact absurd hj (hpartner (.inr hop))
  | _ => cases hψ

theorem pc_lt {s : Snapshot} (h : ¬ s.Finished code) : s.machine.pc < code.program.size := by
  rw [Finished, Code.finished, decide_eq_true_eq] at h
  exact lt_of_not_ge h

/-- A step keeps what has to be kept, and what it raises is expected. -/
theorem stepped {s t : Snapshot} {φ : Option Fault}
    (h : Kept code settings maxSteps maxOutput s.machine) (hcode : code.Complete)
    (hbits : 8 ≤ settings.kind.bits)
    (hst : Stepped code (.ofInts maxSteps maxOutput) s φ t) :
    Kept code settings maxSteps maxOutput t.machine ∧ ∀ ψ ∈ φ, ψ.Expected := by
  cases hst with
  | finished => exact ⟨h, fun ψ hψ => nomatch hψ⟩
  | noInstruction hr hi =>
    obtain ⟨ins, hins, -⟩ := h.lookup hcode (pc_lt hr)
    rw [hi] at hins
    cases hins
  | @capped ins f hr hi hc =>
    refine ⟨h, fun ψ hψ => ?_⟩
    cases hψ
    exact (expected_of_capFault? hc).locate _ _
  | @executed ins f t hr hi hc he =>
    refine ⟨h.executes hcode hbits (pc_lt hr) hi rfl (capFault?_count_eq_none_iff.1 hc) he, ?_⟩
    intro ψ hψ
    obtain ⟨χ, hχ, rfl⟩ := Option.mem_map.1 hψ
    exact (h.expected_executes hcode (pc_lt hr) hi rfl he χ hχ).locate _ _

/-- Executed steps keep what has to be kept. -/
theorem after {s t : Snapshot} {n : Nat} (h : Kept code settings maxSteps maxOutput s.machine)
    (hcode : code.Complete) (hbits : 8 ≤ settings.kind.bits)
    (ht : s.after code (.ofInts maxSteps maxOutput) n = some t) :
    Kept code settings maxSteps maxOutput t.machine :=
  after_induction (P := fun s => Kept code settings maxSteps maxOutput s.machine)
    (fun _ _ hs _ hst => (hs.stepped hcode hbits hst).1) ht h

/-- A run keeps what has to be kept, also when it fails, and what it raises is expected. -/
theorem runFor {m : Machine} (h : Kept code settings maxSteps maxOutput m) (hcode : code.Complete)
    (hbits : 8 ≤ settings.kind.bits) (fuel : Nat) (io : Streams) :
    Kept code settings maxSteps maxOutput
        (TapeMachine.runFor code (.ofInts maxSteps maxOutput) fuel m io).2.1 ∧
      ∀ φ, (TapeMachine.runFor code (.ofInts maxSteps maxOutput) fuel m io).1 = .failed φ →
        φ.Expected := by
  have hspec := runFor_spec code (.ofInts maxSteps maxOutput) fuel m io
  generalize TapeMachine.runFor code (.ofInts maxSteps maxOutput) fuel m io = run at hspec ⊢
  obtain ⟨ending, m', io'⟩ := run
  have hstart : Kept code settings maxSteps maxOutput (Snapshot.of m io).machine := h
  cases ending with
  | finished =>
    obtain ⟨n, -, ht, -⟩ := hspec
    exact ⟨hstart.after hcode hbits ht, fun φ hφ => nomatch hφ⟩
  | failed f =>
    obtain ⟨n, -, t, ht, -, hstep⟩ := hspec
    have hst := Snapshot.stepped code (.ofInts maxSteps maxOutput) t
    rw [hstep] at hst
    obtain ⟨hkept, hexp⟩ := (hstart.after hcode hbits ht).stepped hcode hbits hst
    refine ⟨hkept, fun φ hφ => ?_⟩
    cases hφ
    exact hexp f rfl
  | unfinished => exact ⟨hstart.after hcode hbits hspec.1, fun φ hφ => nomatch hφ⟩

end Kept

/-! ### Calls -/

/-- A call on a machine, with the streams that it is given. -/
inductive Call where
  /-- One step. -/
  | step (input : Reader) (output : Sink)
  /-- A run from the start, of at most `fuel` steps. -/
  | interpret (fuel : Nat) (input : Reader) (output : Sink)
  /-- A fresh machine. -/
  | reset

namespace Call

/-- The machine that a call leaves. -/
def machine (code : Code) (settings : Settings) (m : Machine) : Call → Machine
  | .step input output =>
    (TapeMachine.step code settings.caps m ⟨input, .onto output, []⟩).machine
  | .interpret fuel input output => (TapeMachine.interpret fuel code settings input output).machine
  | .reset => .initial settings

/-- What is raised by a call, or by one of the steps that it makes. -/
inductive Raises (code : Code) (settings : Settings) (m : Machine) : Call → Fault → Prop where
  /-- The step raises it. -/
  | step {input : Reader} {output : Sink} {φ : Fault}
      (h : (TapeMachine.step code settings.caps m ⟨input, .onto output, []⟩).fault = some φ) :
      Raises code settings m (.step input output) φ
  /-- A step of the run raises it, whatever leaves the run in the end. -/
  | within {fuel : Nat} {input : Reader} {output : Sink} {φ : Fault}
      (h : (runFor code settings.caps fuel (.initial settings)
        ⟨input, .onto output, [settings.started code.program]⟩).1 = .failed φ) :
      Raises code settings m (.interpret fuel input output) φ
  /-- It leaves the run. -/
  | interpret {fuel : Nat} {input : Reader} {output : Sink} {φ : Fault}
      (h : (TapeMachine.interpret fuel code settings input output).ending = .failed φ) :
      Raises code settings m (.interpret fuel input output) φ

end Call

/-- Closing a run leaves the machine as it is. -/
theorem Run.close_machine (label : String) (ending : Ending) (m : Machine) (io : Streams) :
    (Run.close label ending m io).machine = m := by
  unfold Run.close
  split
  · split <;> rfl
  · split <;> rfl
  · rfl

/-- What leaves a run is what a step raised, or a failure of the sink. -/
theorem Run.eq_or_failure_of_close {label : String} {ending : Ending} {m : Machine} {io : Streams}
    {φ : Fault} (h : (Run.close label ending m io).ending = .failed φ) :
    ending = .failed φ ∨ ∃ f, φ = .failure f := by
  unfold Run.close at h
  split at h
  · split at h
    · cases h
    · cases h
      exact .inr ⟨_, rfl⟩
  · split at h
    · cases h
      exact .inl rfl
    · cases h
      exact .inr ⟨_, rfl⟩
  · cases h

namespace Kept

variable {code : Code} {settings : Settings} {maxSteps maxOutput : Option Int}

/-- A call keeps what has to be kept. -/
theorem call {m : Machine} (h : Kept code settings maxSteps maxOutput m) (hcode : code.Complete)
    (hbits : 8 ≤ settings.kind.bits) (hcaps : settings.caps = .ofInts maxSteps maxOutput)
    (c : Call) : Kept code settings maxSteps maxOutput (c.machine code settings m) := by
  cases c with
  | step input output =>
    have hst := stepped_of code settings.caps m ⟨input, .onto output, []⟩
    rw [hcaps] at hst
    have hkept := (Kept.stepped h hcode hbits hst).1
    rw [← hcaps] at hkept
    exact hkept
  | interpret fuel input output =>
    rw [Call.machine, interpret, Run.close_machine, hcaps]
    exact ((initial code settings maxSteps maxOutput).runFor hcode hbits fuel _).1
  | reset => exact initial code settings maxSteps maxOutput

/-- What a call raises is expected. -/
theorem expected_call {m : Machine} (h : Kept code settings maxSteps maxOutput m)
    (hcode : code.Complete) (hbits : 8 ≤ settings.kind.bits)
    (hcaps : settings.caps = .ofInts maxSteps maxOutput) {c : Call} {φ : Fault}
    (hφ : c.Raises code settings m φ) : φ.Expected := by
  have hrun := fun fuel io =>
    ((initial code settings maxSteps maxOutput).runFor hcode hbits fuel io).2
  rw [← hcaps] at hrun
  cases hφ with
  | @step input output _ hf =>
    have hst := stepped_of code settings.caps m ⟨input, .onto output, []⟩
    rw [hf, hcaps] at hst
    exact (Kept.stepped h hcode hbits hst).2 φ rfl
  | within hf => exact hrun _ _ φ hf
  | interpret hf =>
    rcases Run.eq_or_failure_of_close hf with hf | ⟨f, rfl⟩
    · exact hrun _ _ φ hf
    · trivial

end Kept

/-- **A machine is sound after any calls.** Take any finite sequence of steps, runs and resets of a
machine for a checked program, each call with streams of its own that fail when they like. The
machine is sound then, and the next call raises nothing but errors of the program and failures of
its streams, so no instruction and no partner of a bracket is ever missing. -/
theorem calls_sound (p : Program) (hp : p.check = .ok ()) (settings : Settings)
    (hkind : settings.kind ∈ CellKind.supported) (maxSteps maxOutput : Option Int)
    (hcaps : settings.caps = .ofInts maxSteps maxOutput) :
    ∃ code, Code.ofProgram p = .ok code ∧ code.program = p ∧ ∀ calls : List Call,
      Sound code settings maxSteps maxOutput
          (calls.foldl (Call.machine code settings) (.initial settings)) ∧
        ∀ (c : Call) (φ : Fault),
          c.Raises code settings (calls.foldl (Call.machine code settings) (.initial settings)) φ →
            φ.Expected := by
  have hbits := CellKind.eight_le_bits hkind
  obtain ⟨code, hof, hprogram⟩ := Code.exists_ofProgram hp
  have hcode := Code.complete_of_check hp hof hprogram
  refine ⟨code, hof, hprogram, fun calls => ?_⟩
  have hkept : Kept code settings maxSteps maxOutput
      (calls.foldl (Call.machine code settings) (.initial settings)) := by
    have hinit := Kept.initial code settings maxSteps maxOutput
    generalize Machine.initial settings = m at hinit ⊢
    induction calls generalizing m with
    | nil => exact hinit
    | cons c calls ih => exact ih _ (hinit.call hcode hbits hcaps c)
  exact ⟨hkept.sound hcode, fun c φ hφ => hkept.expected_call hcode hbits hcaps hφ⟩

/-- One cell to begin with, seven steps and two bytes of output. -/
def growing : Settings := ⟨1, Nat.one_pos, true, .u8, .ofInts (some 7) (some 2), "True"⟩

/-- The program `+[>+.]` doubles its tape and writes in every round. Run it until a flush fails, step
it on a sink that refuses every write, and run it again until it reaches a cap. -/
theorem calls_sound_growing :
    (Program.ofText (some "p") "+[>+.]").check = .ok () ∧ growing.kind ∈ CellKind.supported ∧
      growing.caps = .ofInts (some 7) (some 2) ∧
      ∃ code, Code.ofProgram (Program.ofText (some "p") "+[>+.]") = .ok code ∧
        Sound code growing (some 7) (some 2)
          ([.interpret 20 (.ofBytes []) ⟨[], [], 0, 0, fun _ => none, fun _ => some .closed⟩,
            .step (.ofBytes []) ⟨[], [], 0, 0, fun _ => some .closed, fun _ => none⟩,
            .interpret 20 (.ofBytes []) .healthy].foldl (Call.machine code growing)
              (.initial growing)) := by
  refine ⟨rfl, by decide, rfl, ?_⟩
  obtain ⟨code, hof, -, hsound⟩ := calls_sound (Program.ofText (some "p") "+[>+.]") rfl growing
    (by decide) (some 7) (some 2) rfl
  exact ⟨code, hof, (hsound _).1⟩

end TapeMachine
