import Mathlib
import TapeMachine.Proofs.Forest
import TapeMachine.Proofs.Snapshot
import TapeMachine.Proofs.Tape

/-!
# The machine runs forests

A forest has a meaning of its own, without a program counter and without a jump table: a command
changes the world, and a loop runs its body as long as the current cell is not zero. This module
defines that meaning as a relation and proves that the machine, with its jumps, has exactly the same
runs.

## The model

The world is the row of cells, the pointer, what is left to read and what was written. Cells are
integers modulo a power of two. `Eval shape task i w r n` says that `task`, whose first instruction
has index `i`, leads from the world `w` to the outcome `r` in `n` steps. The outcome is a world, or a
problem at the index of the command that failed. A command costs one step; a loop costs one step when
it is met and one step for each completed run of its body.

## What is proved

* `machine_of_eval`: the machine follows the meaning, step for step.
* `eval_of_machine`: a run of the machine that comes to an end, also one that fails in the middle of
  a nested loop, has a meaning.
* `machine_runs_forest`: a checked program is exactly one forest, and machine and meaning agree on the
  final worlds and on the failures.
-/

namespace TapeMachine

/-! ### The meaning of a forest -/

/-- What the cells are like. -/
structure Shape where
  /-- The number of bits of a cell. -/
  bits : Nat
  /-- The row of cells doubles when it is left on the right. -/
  extensible : Bool

/-- What a forest works on. -/
structure World where
  cells : List Int
  pointer : Nat
  /-- The bytes not read yet. -/
  input : List UInt8
  /-- The bytes written, in order. -/
  output : List UInt8

namespace World

/-- Cells at zero, the pointer at the first of them, and nothing written. -/
def initial (cells : Nat) (input : List UInt8) : World := ⟨List.replicate cells 0, 0, input, []⟩

/-- The current cell. -/
def current (w : World) : Int := w.cells.getD w.pointer 0

/-- Another value in the current cell. -/
def put (w : World) (v : Int) : World := { w with cells := w.cells.set w.pointer v }

end World

/-- What a command does to the world, or the problem that it has. -/
def Command.apply (shape : Shape) (w : World) : Command → Except Problem World
  | .moveLeft =>
    if w.pointer = 0 then .error .pointerUnderflow else .ok { w with pointer := w.pointer - 1 }
  | .moveRight =>
    if w.pointer + 1 < w.cells.length then .ok { w with pointer := w.pointer + 1 }
    else if shape.extensible then
      .ok { w with
        cells := w.cells ++ List.replicate w.cells.length 0
        pointer := w.pointer + 1 }
    else .error .pointerOverflow
  | .increment => .ok (w.put ((w.current + 1) % 2 ^ shape.bits))
  | .decrement => .ok (w.put ((w.current - 1) % 2 ^ shape.bits))
  | .input =>
    match w.input with
    | [] => .error (.read (.text "unexpected end of input"))
    | b :: bs => .ok { w.put b.toNat with input := bs }
  | .output => .ok { w with output := w.output ++ [UInt8.ofInt w.current] }

/-- Where a run of a forest leads. -/
inductive Outcome where
  /-- It ends in a world. -/
  | done (w : World)
  /-- The command at index `i` has a problem, in the world `w`. -/
  | failed (p : Problem) (i : Nat) (w : World)

/-- What is run. -/
inductive Task where
  /-- A forest, once. -/
  | row (f : Forest)
  /-- The body of a loop, as long as the current cell is not zero. -/
  | repeated (body : Forest)

/-- `Eval shape task i w r n`: the task, at index `i`, leads from `w` to `r` in `n` steps. -/
inductive Eval (shape : Shape) : Task → Nat → World → Outcome → Nat → Prop where
  /-- At the end of a row nothing is left to do. -/
  | nil {i : Nat} {w : World} : Eval shape (.row .nil) i w (.done w) 0
  /-- A command, then the rest of the row. -/
  | command {p : Position} {c : Command} {f : Forest} {i n : Nat} {w v : World} {r : Outcome}
      (h : c.apply shape w = .ok v) (rest : Eval shape (.row f) (i + 1) v r n) :
      Eval shape (.row (.command p c f)) i w r (n + 1)
  /-- A command that has a problem. -/
  | fault {p : Position} {c : Command} {f : Forest} {i : Nat} {w : World} {e : Problem}
      (h : c.apply shape w = .error e) :
      Eval shape (.row (.command p c f)) i w (.failed e i w) 0
  /-- A loop that ends, then the rest of the row. -/
  | loop {a b : Position} {body f : Forest} {i k n : Nat} {w v : World} {r : Outcome}
      (h : Eval shape (.repeated body) (i + 1) w (.done v) k)
      (rest : Eval shape (.row f) (i + body.size + 2) v r n) :
      Eval shape (.row (.loop a body b f)) i w r (k + n + 1)
  /-- A loop in which a command has a problem. -/
  | loopFault {a b : Position} {body f : Forest} {i j k : Nat} {w v : World} {e : Problem}
      (h : Eval shape (.repeated body) (i + 1) w (.failed e j v) k) :
      Eval shape (.row (.loop a body b f)) i w (.failed e j v) (k + 1)
  /-- The current cell is zero, and the body is not run again. -/
  | stop {body : Forest} {i : Nat} {w : World} (h : w.current = 0) :
      Eval shape (.repeated body) i w (.done w) 0
  /-- The body is run, and then the cell is tested again. -/
  | again {body : Forest} {i k n : Nat} {w v : World} {r : Outcome} (h : w.current ≠ 0)
      (once : Eval shape (.row body) i w (.done v) k)
      (rest : Eval shape (.repeated body) i v r n) :
      Eval shape (.repeated body) i w r (k + n + 1)
  /-- The body is run, and a command in it has a problem. -/
  | againFault {body : Forest} {i j k : Nat} {w v : World} {e : Problem} (h : w.current ≠ 0)
      (once : Eval shape (.row body) i w (.failed e j v) k) :
      Eval shape (.repeated body) i w (.failed e j v) k

/-! ### Machines that show a world -/

/-- The shape that settings ask for. -/
def Settings.shape (s : Settings) : Shape := ⟨s.kind.bits, s.extensible⟩

open Snapshot

/-- The machine and its streams, which never fail, stand for the world. `old` is what the sink held
before. -/
structure Shows (shape : Shape) (old : List UInt8) (s : Snapshot) (w : World) : Prop where
  bits : s.machine.tape.kind.bits = shape.bits
  extensible : s.machine.tape.extensible = shape.extensible
  fits : s.machine.tape.Fits
  cells : s.machine.tape.cells.toList = w.cells
  pointer : s.machine.tape.pointer = w.pointer
  input : s.input.rest = w.input
  output : s.output.bytes = old ++ w.output
  healthy : s.Healthy

variable {shape : Shape} {old : List UInt8} {code : Code}

namespace Shows

theorem current {s : Snapshot} {w : World} (h : Shows shape old s w) :
    s.machine.tape.current = w.current := by
  rw [Tape.current_eq, h.cells, h.pointer, World.current]

theorem current_fits {s : Snapshot} {w : World} (h : Shows shape old s w) :
    s.machine.tape.kind.Fits w.current := by
  rw [← h.current]
  exact h.fits.current

theorem length {s : Snapshot} {w : World} (h : Shows shape old s w) :
    s.machine.tape.length = w.cells.length := by
  rw [Tape.length, ← Array.length_toList, h.cells]

/-- Only the program counter and the counts change, as at a bracket. -/
theorem of_tape_eq {s t : Snapshot} {w : World} (h : Shows shape old s w)
    (htape : t.machine.tape = s.machine.tape) (hin : t.input = s.input)
    (hout : t.output = s.output) : Shows shape old t w where
  bits := by rw [htape]; exact h.bits
  extensible := by rw [htape]; exact h.extensible
  fits := by rw [htape]; exact h.fits
  cells := by rw [htape]; exact h.cells
  pointer := by rw [htape]; exact h.pointer
  input := by rw [hin]; exact h.input
  output := by rw [hout]; exact h.output
  healthy := by rw [Healthy, hin, hout]; exact h.healthy

/-- Another value in the current cell. -/
theorem put {s t : Snapshot} {w : World} {v : Int} (h : Shows shape old s w)
    (hv : s.machine.tape.kind.Fits v) (htape : t.machine.tape = s.machine.tape.put v)
    (hin : t.input.rest = s.input.rest) (hout : t.output = s.output) (ht : t.Healthy) :
    Shows shape old t (w.put v) where
  bits := by rw [htape]; exact h.bits
  extensible := by rw [htape]; exact h.extensible
  fits := by rw [htape]; exact h.fits.put hv
  cells := by rw [htape, Tape.toList_cells_put, h.cells, h.pointer, World.put]
  pointer := by rw [htape]; exact h.pointer
  input := by rw [hin]; exact h.input
  output := by rw [hout]; exact h.output
  healthy := ht

/-- The pointer moves, and the tape may have been doubled. -/
theorem move {s t : Snapshot} {w v : World} (h : Shows shape old s w) (ht : t.Healthy)
    (hkind : t.machine.tape.kind = s.machine.tape.kind)
    (hext : t.machine.tape.extensible = s.machine.tape.extensible) (hfits : t.machine.tape.Fits)
    (hcells : t.machine.tape.cells.toList = v.cells) (hpointer : t.machine.tape.pointer = v.pointer)
    (hin : t.input.rest = s.input.rest) (hout : t.output = s.output) (hvin : v.input = w.input)
    (hvout : v.output = w.output) : Shows shape old t v where
  bits := by rw [hkind]; exact h.bits
  extensible := by rw [hext]; exact h.extensible
  fits := hfits
  cells := hcells
  pointer := hpointer
  input := by rw [hin, hvin]; exact h.input
  output := by rw [hout, hvout]; exact h.output
  healthy := ht

end Shows

theorem Snapshot.outByte_eq (m : Machine) : m.outByte = UInt8.ofInt m.tape.current := rfl

/-- A command does to the machine what it does to the world. -/
theorem Shows.command (jumps : JumpTable) {s : Snapshot} {w v : World} {c : Command}
    (h : Shows shape old s w) (hbits : 8 ≤ shape.bits) (hc : c.apply shape w = .ok v) :
    ∃ t, Executes jumps none s c.opcode none t ∧ Shows shape old t v ∧
      t.machine.pc = s.machine.pc + 1 := by
  cases c with
  | moveLeft =>
    simp only [Command.apply] at hc
    split at hc
    · cases hc
    · next hp =>
      cases hc
      obtain ⟨u, hu⟩ := Option.ne_none_iff_exists'.1
        (mt Tape.moveLeft?_eq_none_iff.1 (by rwa [h.pointer]))
      obtain ⟨hkind, hext, hcells, hpointer⟩ := Tape.moveLeft?_eq_some_iff.1 hu
      have he : Executes jumps none s .moveLeft none _ := .left hu
      refine ⟨_, he, h.move (he.healthy h.healthy) hkind hext (h.fits.moveLeft hu) ?_ ?_ rfl rfl rfl
        rfl, rfl⟩
      · rw [← h.cells]
        exact congrArg Array.toList hcells
      · rw [← h.pointer]
        exact Nat.eq_sub_of_add_eq hpointer
  | moveRight =>
    cases hu : s.machine.tape.moveRight? with
    | none =>
      obtain ⟨hlast, hext⟩ := Tape.moveRight?_eq_none_iff.1 hu
      rw [h.length, h.pointer] at hlast
      rw [h.extensible] at hext
      simp only [Command.apply, hlast, hext, lt_irrefl, if_false] at hc
      cases hc
    | some u =>
      obtain ⟨hkind, hext, hpointer, hcells⟩ := Tape.moveRight?_eq_some hu
      have he : Executes jumps none s .moveRight none _ := .right hu
      rw [h.length, h.pointer] at hcells
      rcases hcells with ⟨hlt, hcells⟩ | ⟨hlast, hx, hcells⟩
      · simp only [Command.apply, hlt, if_true] at hc
        cases hc
        refine ⟨_, he, h.move (he.healthy h.healthy) hkind hext (h.fits.moveRight hu) ?_ ?_ rfl rfl
          rfl rfl, rfl⟩
        · rw [← h.cells]
          exact congrArg Array.toList hcells
        · rw [← h.pointer]
          exact hpointer
      · rw [h.extensible] at hx
        simp only [Command.apply, hlast, hx, lt_irrefl, if_true, if_false] at hc
        cases hc
        refine ⟨_, he, h.move (he.healthy h.healthy) hkind hext (h.fits.moveRight hu) ?_ ?_ rfl rfl
          rfl rfl, rfl⟩
        · show u.cells.toList = w.cells ++ List.replicate (w.pointer + 1) 0
          rw [hcells, Array.toList_append, Array.toList_replicate, h.cells, hlast]
        · show u.pointer = w.pointer + 1
          rw [hpointer, h.pointer]
  | increment =>
    cases hc
    have he : Executes jumps none s .increment none _ := .increment
    have hv : (w.current + 1) % 2 ^ shape.bits = s.machine.tape.kind.increment w.current := by
      rw [CellKind.increment_eq_emod h.current_fits, h.bits]
    refine ⟨_, he, ?_, rfl⟩
    rw [hv]
    refine h.put (CellKind.fits_increment h.current_fits) ?_ rfl rfl (he.healthy h.healthy)
    rw [← h.current]
    rfl
  | decrement =>
    cases hc
    have he : Executes jumps none s .decrement none _ := .decrement
    have hv : (w.current - 1) % 2 ^ shape.bits = s.machine.tape.kind.decrement w.current := by
      rw [CellKind.decrement_eq_emod h.current_fits, h.bits]
    refine ⟨_, he, ?_, rfl⟩
    rw [hv]
    refine h.put (CellKind.fits_decrement h.current_fits) ?_ rfl rfl (he.healthy h.healthy)
    rw [← h.current]
    rfl
  | input =>
    simp only [Command.apply] at hc
    split at hc
    · cases hc
    · next b bs hin =>
      cases hc
      have he : Executes jumps none s .input none _ := .read (h.healthy.1 _) (h.input.trans hin)
      refine ⟨_, he, ?_, rfl⟩
      have hput := h.put (t := { s with machine := s.machine.update (Tape.setByte · b.toNat) })
        (CellKind.fits_byte (h.bits ▸ hbits) b) rfl rfl rfl h.healthy
      exact { hput with input := rfl, healthy := he.healthy h.healthy }
  | output =>
    cases hc
    have he : Executes jumps none s .output none _ :=
      .written rfl (h.healthy.2.1 _) (h.healthy.2.2 _)
    refine ⟨_, he, ?_, rfl⟩
    refine { h with output := ?_, healthy := he.healthy h.healthy }
    rw [Sink.bytes_accepted, h.output, Snapshot.outByte_eq, h.current, List.append_assoc]

/-- A command has the same problem on the machine as in the world. -/
theorem Shows.command_fault (jumps : JumpTable) {s : Snapshot} {w : World} {c : Command}
    {e : Problem} (h : Shows shape old s w) (hc : c.apply shape w = .error e) :
    ∃ t, Executes jumps none s c.opcode (some (.ofProblem e)) t := by
  cases c with
  | moveLeft =>
    simp only [Command.apply] at hc
    split at hc
    · next hp =>
      cases hc
      exact ⟨_, .leftEdge (Tape.moveLeft?_eq_none_iff.2 (h.pointer.trans hp))⟩
    · cases hc
  | moveRight =>
    simp only [Command.apply] at hc
    split at hc
    · cases hc
    · next hp =>
      split at hc
      · cases hc
      · next hx =>
        cases hc
        have hlt := s.machine.tape.pointer_lt
        have hlen := h.length
        have hpointer := h.pointer
        refine ⟨_, .rightEdge (Tape.moveRight?_eq_none_iff.2 ⟨?_, ?_⟩)⟩
        · unfold Tape.length at hlen ⊢
          omega
        · rw [h.extensible]
          simpa using hx
  | increment => cases hc
  | decrement => cases hc
  | input =>
    simp only [Command.apply] at hc
    split at hc
    · next hin =>
      cases hc
      exact ⟨_, .readEnd (h.healthy.1 _) (h.input.trans hin)⟩
    · cases hc
  | output => cases hc

/-! ### The machine follows the meaning -/

/-- The task stands in the code with its first instruction at index `i`. The body of a loop stands
between its brackets, which are mapped to each other. -/
def Task.Placed (code : Code) : Task → (i : Nat) → Prop
  | .row f, i => f.Placed code i
  | .repeated body, i =>
    body.Placed code i ∧ (∃ b : Position, code.fetch? (i + body.size : Nat) = some (b.holding .endLoop)) ∧
      ∃ j, i = j + 1 ∧ code.jumps.target? (i + body.size : Nat) = some j

/-- The program counter at which the machine starts a task. A body that is not run is jumped over,
with its closing bracket. -/
def Task.entry (i : Nat) (w : World) : Task → Nat
  | .row _ => i
  | .repeated body => if w.current = 0 then i + body.size + 1 else i

/-- The program counter at which the machine has done a task. -/
def Task.exit (i : Nat) : Task → Nat
  | .row f => i + f.size
  | .repeated body => i + body.size + 1

/-- From `s`, the machine comes to the outcome in `n` steps. It has done its task when the program
counter is `stop`; a problem is raised by the next step, and blamed on the instruction there. -/
def Follows (code : Code) (shape : Shape) (old : List UInt8) (s : Snapshot) (stop n : Nat) :
    Outcome → Prop
  | .done v => ∃ t, s.after code .none n = some t ∧ Shows shape old t v ∧ t.machine.pc = stop
  | .failed e j v => ∃ t, s.after code .none n = some t ∧ Shows shape old t v ∧ t.machine.pc = j ∧
      ∃ ins, code.fetch? j = some ins ∧
        (t.step code .none).1 = some (.error ⟨e, code.program.source, some ins.place⟩ none)

theorem Follows.trans {s t : Snapshot} {stop k n : Nat} {r : Outcome}
    (h : s.after code .none k = some t) (ht : Follows code shape old t stop n r) :
    Follows code shape old s stop (k + n) r := by
  cases r with
  | done v =>
    obtain ⟨u, hu, hs⟩ := ht
    exact ⟨u, after_add_iff.2 ⟨t, h, hu⟩, hs⟩
  | failed e j v =>
    obtain ⟨u, hu, hs⟩ := ht
    exact ⟨u, after_add_iff.2 ⟨t, h, hu⟩, hs⟩

/-- Where there is an instruction, the program has not finished. -/
theorem Snapshot.not_finished_of_fetch {s : Snapshot} {i : Nat} {ins : Instruction}
    (hpc : s.machine.pc = i) (h : code.fetch? i = some ins) : ¬ s.Finished code := by
  intro hf
  rw [Finished, hpc, Code.finished, decide_eq_true_eq, Nat.cast_le] at hf
  have hlt : i < code.program.instructions.size := (Array.getElem?_eq_some_iff.1 h).1
  exact absurd hf (Nat.not_le_of_lt hlt)

/-- What an uncapped step does where there is an instruction. -/
theorem Snapshot.step_of_executes {s t : Snapshot} {i : Nat} {ins : Instruction} {f : Option Fault}
    (hpc : s.machine.pc = i) (hi : code.fetch? i = some ins)
    (he : Executes code.jumps none s ins.opcode f t) :
    s.step code .none = (f.map (·.locate code.program.source ins), t) :=
  (Stepped.executed (not_finished_of_fetch hpc hi) (hpc ▸ hi) rfl he).eq

theorem Snapshot.after_one_of_executes {s t : Snapshot} {i : Nat} {ins : Instruction}
    (hpc : s.machine.pc = i) (hi : code.fetch? i = some ins)
    (he : Executes code.jumps none s ins.opcode none t) : s.after code .none 1 = some t :=
  after_one_iff.2 ⟨not_finished_of_fetch hpc hi, step_of_executes hpc hi he⟩

/-- One step of the machine at a command. -/
theorem Shows.after_command {s : Snapshot} {w v : World} {c : Command} {p : Position} {f : Forest}
    {i : Nat} (h : Shows shape old s w) (hbits : 8 ≤ shape.bits)
    (hp : (Forest.command p c f).Placed code i) (hpc : s.machine.pc = i)
    (hc : c.apply shape w = .ok v) :
    ∃ t, s.after code .none 1 = some t ∧ Shows shape old t v ∧ t.machine.pc = (i + 1 : Nat) := by
  obtain ⟨t, he, hs, ht⟩ := h.command code.jumps hbits hc
  exact ⟨t, after_one_of_executes hpc hp.1 he, hs, by rw [ht, hpc]; rfl⟩

/-- One step of the machine at an opening bracket: into the body, or past the loop. -/
theorem Shows.after_beginLoop {s : Snapshot} {w : World} {a b : Position} {body f : Forest} {i : Nat}
    (h : Shows shape old s w) (hp : (Forest.loop a body b f).Placed code i)
    (hpc : s.machine.pc = i) :
    ∃ t, s.after code .none 1 = some t ∧ Shows shape old t w ∧
      t.machine.pc = (Task.repeated body).entry (i + 1) w := by
  obtain ⟨hopen, -, hforth, -⟩ := hp
  by_cases hw : w.current = 0
  · have he : Executes code.jumps none s .beginLoop none _ :=
      .skip (h.current.trans hw) (hpc ▸ hforth)
    refine ⟨_, after_one_of_executes hpc hopen he, h.of_tape_eq rfl rfl rfl, ?_⟩
    rw [Task.entry, if_pos hw, Nat.add_right_comm i 1]
    rfl
  · have he : Executes code.jumps none s .beginLoop none _ := .enter (by rwa [h.current])
    refine ⟨_, after_one_of_executes hpc hopen he, h.of_tape_eq rfl rfl rfl, ?_⟩
    rw [Task.entry, if_neg hw]
    exact congrArg (· + 1) hpc

/-- One step of the machine at a closing bracket: back into the body, or out of the loop. -/
theorem Shows.after_endLoop {s : Snapshot} {w : World} {body : Forest} {i : Nat}
    (h : Shows shape old s w) (hp : (Task.repeated body).Placed code i)
    (hpc : s.machine.pc = (i + body.size : Nat)) :
    ∃ t, s.after code .none 1 = some t ∧ Shows shape old t w ∧
      t.machine.pc = (Task.repeated body).entry i w := by
  obtain ⟨-, ⟨b, hclose⟩, j, rfl, hback⟩ := hp
  by_cases hw : w.current = 0
  · have he : Executes code.jumps none s .endLoop none _ := .leave (h.current.trans hw)
    refine ⟨_, after_one_of_executes hpc hclose he, h.of_tape_eq rfl rfl rfl, ?_⟩
    rw [Task.entry, if_pos hw]
    exact congrArg (· + 1) hpc
  · have he : Executes code.jumps none s .endLoop none _ :=
      .again (by rwa [h.current]) (hpc ▸ hback)
    refine ⟨_, after_one_of_executes hpc hclose he, h.of_tape_eq rfl rfl rfl, ?_⟩
    rw [Task.entry, if_neg hw]
    rfl

theorem Task.placed_repeated {a b : Position} {body f : Forest} {i : Nat}
    (h : (Forest.loop a body b f).Placed code i) : (Task.repeated body).Placed code (i + 1) := by
  obtain ⟨-, hclose, -, hback, hbody, -⟩ := h
  rw [Nat.add_right_comm] at hclose hback
  exact ⟨hbody, ⟨b, hclose⟩, i, rfl, hback⟩

/-- **The machine follows the meaning**: what a task leads to, the machine comes to in as many
steps. -/
theorem machine_of_eval {task : Task} {i n : Nat} {w : World} {r : Outcome}
    (h : Eval shape task i w r n) (hbits : 8 ≤ shape.bits) {s : Snapshot}
    (hp : task.Placed code i) (hs : Shows shape old s w) (hpc : s.machine.pc = task.entry i w) :
    Follows code shape old s (task.exit i) n r := by
  induction h generalizing s with
  | nil => exact ⟨s, rfl, hs, hpc⟩
  | @command p c f i n w v r hc _ ih =>
    obtain ⟨t, ht, hst, hpct⟩ := hs.after_command hbits hp hpc hc
    have hrest := ih hp.2 hst hpct
    simp only [Task.exit, Forest.size] at hrest ⊢
    rw [Nat.add_comm n, show i + (f.size + 1) = i + 1 + f.size by omega]
    exact .trans ht hrest
  | @fault p c f i w e hc =>
    obtain ⟨t, he⟩ := hs.command_fault code.jumps hc
    exact ⟨s, rfl, hs, hpc, _, hp.1, by rw [step_of_executes hpc hp.1 he]; rfl⟩
  | @loop a b body f i k n w v r _ _ ihloop ihrest =>
    obtain ⟨t, ht, hst, hpct⟩ := hs.after_beginLoop hp hpc
    obtain ⟨u, hu, hsu, hpcu⟩ := ihloop (Task.placed_repeated hp) hst hpct
    have hrest := ihrest hp.2.2.2.2.2 hsu (by
      rw [hpcu, Task.exit, Task.entry, Nat.add_right_comm i 1])
    simp only [Task.exit, Forest.size] at hrest ⊢
    rw [show k + n + 1 = 1 + (k + n) by omega,
      show i + (body.size + f.size + 2) = i + body.size + 2 + f.size by omega]
    exact .trans ht (.trans hu hrest)
  | @loopFault a b body f i j k w v e _ ih =>
    obtain ⟨t, ht, hst, hpct⟩ := hs.after_beginLoop hp hpc
    rw [Nat.add_comm k]
    exact .trans ht (ih (Task.placed_repeated hp) hst hpct)
  | @stop body i w hw =>
    rw [Task.entry, if_pos hw] at hpc
    exact ⟨s, rfl, hs, hpc⟩
  | @again body i k n w v r hw _ _ ihonce ihrest =>
    rw [Task.entry, if_neg hw] at hpc
    obtain ⟨t, ht, hst, hpct⟩ := ihonce hp.1 hs hpc
    obtain ⟨u, hu, hsu, hpcu⟩ := hst.after_endLoop hp hpct
    rw [show k + n + 1 = k + (1 + n) by omega]
    exact .trans ht (.trans hu (ihrest hp hsu hpcu))
  | @againFault body i j k w v e hw _ ih =>
    rw [Task.entry, if_neg hw] at hpc
    exact ih hp.1 hs hpc

/-! ### A run that stops has a meaning -/

/-- A row on which the machine stops within `N` steps has a meaning, if every task has on which it
stops within fewer. -/
theorem eval_row_of_machine {N : Nat} (hbits : 8 ≤ shape.bits)
    (ih : ∀ M < N, ∀ {task : Task} {i : Nat} {w : World} {s : Snapshot}, task.Placed code i →
      Shows shape old s w → s.machine.pc = task.entry i w → s.after code .none M = none →
      ∃ r n, Eval shape task i w r n)
    {f : Forest} {i : Nat} {w : World} {s : Snapshot} (hp : f.Placed code i)
    (hs : Shows shape old s w) (hpc : s.machine.pc = i) (hN : s.after code .none N = none) :
    ∃ r n, Eval shape (.row f) i w r n := by
  cases f with
  | nil => exact ⟨_, _, .nil⟩
  | command p c f =>
    cases hc : c.apply shape w with
    | error e => exact ⟨_, _, .fault hc⟩
    | ok v =>
      obtain ⟨t, ht, hst, hpct⟩ := hs.after_command hbits hp hpc hc
      obtain ⟨hlt, hstop⟩ := after_sub_eq_none hN ht
      obtain ⟨r, n, hr⟩ := ih (N - 1) (by omega) (show (Task.row f).Placed code (i + 1) from hp.2)
        hst hpct hstop
      exact ⟨r, _, .command hc hr⟩
  | loop a body b f =>
    obtain ⟨t, ht, hst, hpct⟩ := hs.after_beginLoop hp hpc
    obtain ⟨hlt, hstop⟩ := after_sub_eq_none hN ht
    obtain ⟨r, k, hr⟩ := ih (N - 1) (by omega) (Task.placed_repeated hp) hst hpct hstop
    cases r with
    | failed e j v => exact ⟨_, _, .loopFault hr⟩
    | done v =>
      -- the machine gets past the loop, and has fewer steps left for the rest
      obtain ⟨u, hu, hsu, hpcu⟩ := machine_of_eval hr hbits (Task.placed_repeated hp) hst hpct
      obtain ⟨-, hstop'⟩ := after_sub_eq_none hstop hu
      have hpf : (Task.row f).Placed code (i + body.size + 2) := hp.2.2.2.2.2
      obtain ⟨r, n, hrest⟩ := ih (N - 1 - k) (by omega) hpf hsu (by
        rw [hpcu, Task.exit, Task.entry, Nat.add_right_comm i 1]) hstop'
      exact ⟨r, _, .loop hr hrest⟩

/-- **A run that stops has a meaning**: where the machine stops, the task has an outcome. -/
theorem eval_of_machine {N : Nat} (hbits : 8 ≤ shape.bits) {task : Task} {i : Nat} {w : World}
    {s : Snapshot} (hp : task.Placed code i) (hs : Shows shape old s w)
    (hpc : s.machine.pc = task.entry i w) (hN : s.after code .none N = none) :
    ∃ r n, Eval shape task i w r n := by
  -- on the number of steps; the body of a loop is run within the same number, as a row
  induction N using Nat.strong_induction_on generalizing task i w s with
  | _ N ih =>
    cases task with
    | row f => exact eval_row_of_machine hbits ih hp hs hpc hN
    | repeated body =>
      by_cases hw : w.current = 0
      · exact ⟨_, _, .stop hw⟩
      · rw [Task.entry, if_neg hw] at hpc
        obtain ⟨r, k, hr⟩ := eval_row_of_machine hbits ih hp.1 hs hpc hN
        cases r with
        | failed e j v => exact ⟨_, _, .againFault hw hr⟩
        | done v =>
          obtain ⟨t, ht, hst, hpct⟩ := machine_of_eval hr hbits hp.1 hs hpc
          obtain ⟨hlt, hstop⟩ := after_sub_eq_none hN ht
          obtain ⟨u, hu, hsu, hpcu⟩ := hst.after_endLoop hp hpct
          obtain ⟨hlt', hstop'⟩ := after_sub_eq_none hstop hu
          obtain ⟨r, n, hrest⟩ := ih (N - k - 1) (by omega) hp hsu hpcu hstop'
          exact ⟨r, _, .again hw hr hrest⟩

/-! ### Checked programs -/

theorem shows_start (settings : Settings) {input : Reader} {output : Sink} (hin : input.Healthy)
    (hout : output.Healthy) :
    Shows settings.shape output.bytes (start settings input output)
      (.initial settings.cells input.rest) where
  bits := rfl
  extensible := rfl
  fits := Tape.fits_blank settings.cells settings.cells_pos settings.extensible settings.kind
  cells := by simp [start, Machine.initial, Tape.blank, World.initial]
  pointer := rfl
  input := rfl
  output := (List.append_nil _).symm
  healthy := ⟨hin, hout⟩

/-- The tape contents, the pointer, the bytes left to read and the bytes written are those of a
world. `old` is what the sink held before. -/
def Snapshot.Holds (old : List UInt8) (s : Snapshot) (w : World) : Prop :=
  s.machine.tape.cells.toList = w.cells ∧ s.machine.tape.pointer = w.pointer ∧
    s.input.rest = w.input ∧ s.output.bytes = old ++ w.output

theorem Shows.holds {s : Snapshot} {w : World} (h : Shows shape old s w) : s.Holds old w :=
  ⟨h.cells, h.pointer, h.input, h.output⟩

theorem Snapshot.Holds.unique {s : Snapshot} {v w : World} (hv : s.Holds old v)
    (hw : s.Holds old w) : v = w := by
  obtain ⟨v₁, v₂, v₃, v₄⟩ := v
  obtain ⟨w₁, w₂, w₃, w₄⟩ := w
  obtain ⟨rfl, rfl, rfl, h₄⟩ := hv
  obtain ⟨rfl, rfl, rfl, h₄'⟩ := hw
  obtain rfl : v₄ = w₄ := List.append_cancel_left (h₄.symm.trans h₄')
  rfl

/-- The task of running a whole program, from its start. -/
structure Begins (code : Code) (shape : Shape) (old : List UInt8) (f : Forest) (s : Snapshot)
    (w : World) : Prop where
  bits : 8 ≤ shape.bits
  placed : f.Placed code 0
  size : code.program.size = f.size
  shows : Shows shape old s w
  pc : s.machine.pc = 0

namespace Begins

variable {f : Forest} {s : Snapshot} {w : World}

theorem finished_of_pc (h : Begins code shape old f s w) {t : Snapshot}
    (hpc : t.machine.pc = f.size) : t.Finished code := by
  rw [Finished, hpc, Code.finished, h.size, decide_eq_true_eq]

theorem follows (h : Begins code shape old f s w) {r : Outcome} {n : Nat}
    (hr : Eval shape (.row f) 0 w r n) : Follows code shape old s f.size n r := by
  have hf := machine_of_eval hr h.bits h.placed h.shows h.pc
  rwa [Task.exit, Nat.zero_add] at hf

/-- Where a run has come to its end, the forest has an outcome that leads there. -/
theorem exists_eval (h : Begins code shape old f s w) {n : Nat} {t : Snapshot}
    (ht : s.after code .none n = some t) (hstop : t.after code .none 1 = none) :
    ∃ r, Eval shape (.row f) 0 w r n ∧ Follows code shape old s f.size n r := by
  have hnone : s.after code .none (n + 1) = none := by
    rw [Option.eq_none_iff_forall_ne_some]
    intro u hu
    obtain ⟨v, hv, hvu⟩ := after_add_iff.1 hu
    rw [ht] at hv
    cases hv
    rw [hstop] at hvu
    cases hvu
  have hp : (Task.row f).Placed code 0 := h.placed
  obtain ⟨r, k, hr⟩ := eval_of_machine h.bits hp h.shows h.pc hnone
  have hf := h.follows hr
  -- both the run and the outcome stop, so they stop after the same number of steps
  have hk : ∃ u, s.after code .none k = some u ∧ u.after code .none 1 = none := by
    cases r with
    | done v =>
      obtain ⟨u, hu, hsu, hpc⟩ := hf
      exact ⟨u, hu, (h.finished_of_pc hpc).after_one⟩
    | failed e j v =>
      obtain ⟨u, hu, hsu, hpc, ins, hins, hfault⟩ := hf
      exact ⟨u, hu, after_one_of_fault hfault⟩
  obtain ⟨u, hu, hustop⟩ := hk
  obtain ⟨rfl, rfl⟩ := stop_unique ht hstop hu hustop
  exact ⟨r, hr, hf⟩

/-- The machine finishes with a world exactly if the forest ends in it. -/
theorem finishes_iff (h : Begins code shape old f s w) {v : World} {n : Nat} :
    (∃ t, s.after code .none n = some t ∧ t.Finished code ∧ t.Holds old v) ↔
      Eval shape (.row f) 0 w (.done v) n := by
  constructor
  · rintro ⟨t, ht, hfin, hv⟩
    obtain ⟨r, hr, hf⟩ := h.exists_eval ht hfin.after_one
    cases r with
    | done v' =>
      obtain ⟨u, hu, hsu, -⟩ := hf
      rw [ht] at hu
      cases hu
      rwa [hv.unique hsu.holds]
    | failed e j v' =>
      -- a program that has finished raises nothing
      obtain ⟨u, hu, -, -, ins, -, hfault⟩ := hf
      rw [ht] at hu
      cases hu
      rw [(Stepped.finished hfin).eq] at hfault
      cases hfault
  · intro hr
    obtain ⟨t, ht, hst, hpc⟩ := h.follows hr
    exact ⟨t, ht, h.finished_of_pc hpc, hst.holds⟩

/-- A step raises a fault exactly if the forest has a problem there; the fault is that problem,
blamed on the instruction. -/
theorem fails_iff (h : Begins code shape old f s w) {v : World} {i n : Nat} {φ : Fault} :
    (∃ t, s.after code .none n = some t ∧ t.machine.pc = i ∧ t.Holds old v ∧
        (t.step code .none).1 = some φ) ↔
      ∃ e ins, code.fetch? i = some ins ∧
        φ = .error ⟨e, code.program.source, some ins.place⟩ none ∧
        Eval shape (.row f) 0 w (.failed e i v) n := by
  constructor
  · rintro ⟨t, ht, hpc, hv, hφ⟩
    obtain ⟨r, hr, hf⟩ := h.exists_eval ht (after_one_of_fault hφ)
    cases r with
    | done v' =>
      obtain ⟨u, hu, -, hpcu⟩ := hf
      rw [ht] at hu
      cases hu
      rw [(Stepped.finished (h.finished_of_pc hpcu)).eq] at hφ
      cases hφ
    | failed e j v' =>
      obtain ⟨u, hu, hsu, hpcu, ins, hins, hfault⟩ := hf
      rw [ht] at hu
      cases hu
      obtain rfl : i = j := by
        rw [hpc] at hpcu
        exact_mod_cast hpcu
      rw [hφ] at hfault
      cases hfault
      rw [hv.unique hsu.holds]
      exact ⟨e, ins, hins, rfl, hr⟩
  · rintro ⟨e, ins, hins, rfl, hr⟩
    obtain ⟨t, ht, hst, hpc, ins', hins', hfault⟩ := h.follows hr
    rw [hins] at hins'
    cases hins'
    exact ⟨t, ht, hpc, hst.holds, hfault⟩

end Begins

/-- **A checked program is exactly one forest, and the machine runs that forest.** On streams that
never fail and without caps, the machine finishes after `n` steps with a world exactly if the forest
ends in that world in `n` steps; and a step after `n` steps, at the instruction with index `i`,
raises a fault exactly if the forest has a problem at `i` after `n` steps. The fault is then that
problem, blamed on that instruction. -/
theorem machine_runs_forest (p : Program) (hp : p.check = .ok ()) (settings : Settings)
    (hkind : settings.kind ∈ CellKind.supported) (input : Reader) (output : Sink)
    (hin : input.Healthy) (hout : output.Healthy) :
    ∃ code f, Code.ofProgram p = .ok code ∧ Forest.flatten f = p.instructions.toList ∧
      (∀ g : Forest, g.flatten = p.instructions.toList → g = f) ∧
      (∀ w n,
        (∃ s, (start settings input output).after code .none n = some s ∧ s.Finished code ∧
            s.Holds output.bytes w ∧ s.machine.steps = n) ↔
          Eval settings.shape (.row f) 0 (.initial settings.cells input.rest) (.done w) n) ∧
      (∀ (i n : Nat) φ w,
        (∃ s, (start settings input output).after code .none n = some s ∧ s.machine.pc = i ∧
            s.Holds output.bytes w ∧ s.machine.steps = n ∧ (s.step code .none).1 = some φ) ↔
          ∃ e ins, p.instructions[i]? = some ins ∧
            φ = .error ⟨e, p.source, some ins.place⟩ none ∧
            Eval settings.shape (.row f) 0 (.initial settings.cells input.rest) (.failed e i w) n) := by
  obtain ⟨f, hf⟩ := (Forest.check_eq_ok_iff p).1 hp
  obtain ⟨code, hcode, rfl⟩ := Code.exists_ofProgram hp
  have hbegin : Begins code settings.shape output.bytes f (start settings input output)
      (.initial settings.cells input.rest) :=
    ⟨CellKind.eight_le_bits hkind, Forest.placed_of_flatten hcode hf,
      by rw [← Forest.length_flatten, hf, Array.length_toList]; rfl, shows_start settings hin hout, rfl⟩
  have hcount : ∀ {n s}, (start settings input output).after code .none n = some s →
      s.machine.steps = n := by
    intro n s hs
    rw [steps_after hs]
    exact Int.zero_add _
  refine ⟨code, f, hcode, hf, fun g hg => Forest.flatten_injective (hg.trans hf.symm),
    fun w n => ?_, fun i n φ w => ?_⟩
  · rw [← hbegin.finishes_iff]
    constructor
    · rintro ⟨s, hs, hfin, hw, -⟩
      exact ⟨s, hs, hfin, hw⟩
    · rintro ⟨s, hs, hfin, hw⟩
      exact ⟨s, hs, hfin, hw, hcount hs⟩
  · show _ ↔ ∃ e ins, code.fetch? i = some ins ∧ _
    rw [← hbegin.fails_iff]
    constructor
    · rintro ⟨s, hs, hpc, hw, -, hφ⟩
      exact ⟨s, hs, hpc, hw, hφ⟩
    · rintro ⟨s, hs, hpc, hw, hφ⟩
      exact ⟨s, hs, hpc, hw, hcount hs, hφ⟩

/-- One cell of eight bits that cannot be extended, and no caps. -/
def oneCell : Settings := ⟨1, Nat.one_pos, false, .u8, .none, "False"⟩

/-- The program `+[[<]]` gets into its inner loop and fails there, after three steps and at the
instruction with index 3. -/
theorem machine_runs_forest_nested :
    (Program.ofText (some "p") "+[[<]]").check = .ok () ∧
      ∃ code s, Code.ofProgram (Program.ofText (some "p") "+[[<]]") = .ok code ∧
        (start oneCell (.ofBytes []) .healthy).after code .none 3 = some s ∧ s.machine.pc = 3 ∧
        (s.step code .none).1 =
          some (.error ⟨.pointerUnderflow, some "p", some ⟨1, 4, .moveLeft⟩⟩ none) := by
  refine ⟨rfl, ?_⟩
  obtain ⟨code, f, hcode, hf, huniq, -, hfails⟩ :=
    machine_runs_forest (Program.ofText (some "p") "+[[<]]") rfl oneCell (by decide) (.ofBytes [])
      .healthy (Reader.healthy_ofBytes _) Sink.healthy_healthy
  obtain rfl := huniq (.command ⟨1, 1⟩ .increment (.loop ⟨1, 2⟩ (.loop ⟨1, 3⟩
    (.command ⟨1, 4⟩ .moveLeft .nil) ⟨1, 5⟩ .nil) ⟨1, 6⟩ .nil)) rfl
  obtain ⟨s, hs, hpc, -, -, hfault⟩ := (hfails 3 3 _ _).2 ⟨.pointerUnderflow, _, rfl, rfl,
    .command rfl (.loopFault (.againFault (by decide) (.loopFault (.againFault (by decide)
      (.fault rfl)))))⟩
  exact ⟨code, s, hcode, hs, hpc, hfault⟩

end TapeMachine
