import Mathlib
import TapeMachine.Proofs.Printing

/-!
# Two runs in lockstep

Two runs are compared that differ in something no step looks at: in their tapes, in the bytes that are
still to be read, in the places of their instructions. Then every step does the same in both, and so do
the runs. Some differences do show, but at one kind of step only; then the runs agree until they get
there.

## The model

`InStep` says of a relation between snapshots that steps keep it, unless the second snapshot is at a stop,
and that the steps have related faults. The two runs may be runs of different codes.

Most of the module is about the same code on two kinds of tapes. A relation between tapes is `Congruent`
if the commands that can always be relied on keep it; moves to the right and tests for zero are left out,
and `Indistinct` says that a command does not tell two tapes apart there. `Alike` lifts the relation to
snapshots that have everything else in common. `AgreeUntil` is what is proved of two runs: as long as the
second has not come to a stop, both are at alike snapshots or both have ended, and a step has the same
fault in both.

## What is proved

* `InStep.after`, `InStep.runFor`, `InStep.interpret`: counted runs in step, and whole runs.
* `Alike.executes`, `Alike.inStep`: one command on two tapes, and one step.
* `agreeUntil`, `interpret_alike`: counted runs on two tapes, and whole runs, which have the same ending
  and leave the same streams.
-/

namespace TapeMachine

open Snapshot

/-! ### Runs in step -/

theorem exists_of_rel_some {α β : Type} {R : α → β → Prop} {a : α} {y : Option β}
    (h : Option.Rel R (some a) y) : ∃ b, y = some b ∧ R a b := by
  cases h with
  | some h => exact ⟨_, rfl, h⟩

theorem eq_none_of_rel_none {α β : Type} {R : α → β → Prop} {y : Option β}
    (h : Option.Rel R none y) : y = none := by
  cases h
  rfl

theorem rel_of_none_iff {α β : Type} {R : α → β → Prop} {x : Option α} {y : Option β}
    (hnone : x = none ↔ y = none) (hsome : ∀ a b, x = some a → y = some b → R a b) :
    Option.Rel R x y := by
  cases x with
  | none =>
    rw [hnone.1 rfl]
    exact .none
  | some a =>
    obtain ⟨b, rfl⟩ := Option.ne_none_iff_exists'.1 (mt hnone.2 (Option.some_ne_none a))
    exact .some (hsome a b rfl rfl)

theorem rel_mono {α β : Type} {R S : α → β → Prop} (hRS : ∀ a b, R a b → S a b) {x : Option α}
    {y : Option β} (h : Option.Rel R x y) : Option.Rel S x y := by
  cases h with
  | none => exact .none
  | some h => exact .some (hRS _ _ h)

theorem rel_of_eq {α : Type} {x y : Option α} (h : x = y) : Option.Rel Eq x y := by
  subst h
  cases x with
  | none => exact .none
  | some a => exact .some rfl

/-- Two endings that are the same up to a relation between faults. -/
inductive Ending.Related (F : Fault → Fault → Prop) : Ending → Ending → Prop where
  | finished : Related F .finished .finished
  | failed {f f' : Fault} (h : F f f') : Related F (.failed f) (.failed f')
  | unfinished : Related F .unfinished .unfinished

theorem Ending.Related.eq {e e' : Ending} (h : Related Eq e e') : e = e' := by
  cases h with
  | failed h => rw [h]
  | _ => rfl

/-- The machine and the streams that a run leaves behind. -/
def Run.snapshot (r : Run) : Snapshot := ⟨r.machine, r.input, r.output⟩

namespace Snapshot

/-- The run does not come to a stop in its first `n` steps. -/
def StopFree (code : Code) (caps : Caps) (Stop : Snapshot → Prop) (t : Snapshot) (n : Nat) : Prop :=
  ∀ j < n, ∀ u, t.after code caps j = some u → ¬ Stop u

theorem StopFree.head {code : Code} {caps : Caps} {Stop : Snapshot → Prop} {t : Snapshot} {n : Nat}
    (h : StopFree code caps Stop t (n + 1)) : ¬ Stop t :=
  h 0 (Nat.succ_pos n) t rfl

theorem StopFree.tail {code : Code} {caps : Caps} {Stop : Snapshot → Prop} {t t' : Snapshot} {n : Nat}
    (h : StopFree code caps Stop t (n + 1)) (hr : ¬ t.Finished code)
    (hstep : t.step code caps = (none, t')) : StopFree code caps Stop t' n :=
  fun j hj u hu => h (j + 1) (Nat.succ_lt_succ hj) u (after_succ_iff.2 ⟨t', hr, hstep, hu⟩)

/-- Related snapshots stay related in a step, and the step has related faults, unless the second of them
is at a stop. -/
structure InStep (code code' : Code) (caps : Caps) (R : Snapshot → Snapshot → Prop)
    (F : Fault → Fault → Prop) (Stop : Snapshot → Prop) : Prop where
  finished {s t : Snapshot} (h : R s t) : s.Finished code ↔ t.Finished code'
  step {s t : Snapshot} (h : R s t) (hstop : ¬ Stop t) :
    Option.Rel F (s.step code caps).1 (t.step code' caps).1 ∧
      R (s.step code caps).2 (t.step code' caps).2

namespace InStep

variable {code code' : Code} {caps : Caps} {R : Snapshot → Snapshot → Prop}
variable {F : Fault → Fault → Prop} {Stop : Snapshot → Prop}

/-- **Counted runs stay in step** until the second comes to a stop. -/
theorem after (h : InStep code code' caps R F Stop) {s t : Snapshot} (hst : R s t) {n : Nat}
    (hn : StopFree code' caps Stop t n) :
    Option.Rel R (s.after code caps n) (t.after code' caps n) := by
  induction n generalizing s t with
  | zero => exact .some hst
  | succ n ih =>
    have hfin := h.finished hst
    obtain ⟨hfault, hnext⟩ := h.step hst hn.head
    by_cases hr : t.Finished code'
    · rw [Snapshot.after, Snapshot.after, if_pos hr, if_pos (hfin.2 hr)]
      exact .none
    · -- the first steps have related faults, so both runs end there or both go on
      rw [Snapshot.after, Snapshot.after, if_neg hr, if_neg (mt hfin.1 hr)]
      generalize s.step code caps = x at hfault hnext
      generalize ht : t.step code' caps = y at hfault hnext
      obtain ⟨f, s'⟩ := x
      obtain ⟨f', t'⟩ := y
      cases hfault with
      | some => exact .none
      | none => exact ih hnext (hn.tail hr ht)

/-- Runs have related endings and leave related snapshots. -/
theorem runFor (h : InStep code code' caps R F Stop) {m m' : Machine} {io io' : Streams}
    (hst : R (of m io) (of m' io')) {fuel : Nat}
    (hfree : StopFree code' caps Stop (of m' io') fuel) :
    Ending.Related F (runFor code caps fuel m io).1 (runFor code' caps fuel m' io').1 ∧
      R (of (runFor code caps fuel m io).2.1 (runFor code caps fuel m io).2.2)
        (of (runFor code' caps fuel m' io').2.1 (runFor code' caps fuel m' io').2.2) := by
  induction fuel generalizing m m' io io' with
  | zero =>
    have hfin : code.finished m.pc = true ↔ code'.finished m'.pc = true := h.finished hst
    rw [TapeMachine.runFor, TapeMachine.runFor]
    by_cases hr : code'.finished m'.pc = true
    · rw [if_pos hr, if_pos (hfin.2 hr)]
      exact ⟨.finished, hst⟩
    · rw [if_neg hr, if_neg (mt hfin.1 hr)]
      exact ⟨.unfinished, hst⟩
  | succ fuel ih =>
    have hfin : code.finished m.pc = true ↔ code'.finished m'.pc = true := h.finished hst
    obtain ⟨hfault, hnext⟩ := h.step hst hfree.head
    rw [step_of, step_of] at hfault hnext
    rw [TapeMachine.runFor, TapeMachine.runFor]
    by_cases hr : code'.finished m'.pc = true
    · rw [if_pos hr, if_pos (hfin.2 hr)]
      exact ⟨.finished, hst⟩
    · rw [if_neg hr, if_neg (mt hfin.1 hr)]
      have ht := step_of code' caps m' io'
      generalize TapeMachine.step code caps m io = x at hfault hnext
      generalize TapeMachine.step code' caps m' io' = y at hfault hnext ht
      obtain ⟨f, m₁, io₁⟩ := x
      obtain ⟨f', m₂, io₂⟩ := y
      change Option.Rel F f f' at hfault
      cases hfault with
      | some hφ => exact ⟨.failed hφ, hnext⟩
      | none => exact ih hnext (hfree.tail hr ht)

end InStep

end Snapshot

/-- Related runs are closed in the same way, if their writers are the same. -/
theorem Run.close_related {R : Snapshot → Snapshot → Prop} {F : Fault → Fault → Prop}
    (hF : ∀ f, F (.failure f) (.failure f))
    (hsink : ∀ {s t : Snapshot} (k : Sink), R s t → R { s with output := k } { t with output := k })
    {label label' : String} {ending ending' : Ending} {m m' : Machine} {io io' : Streams}
    (hending : Ending.Related F ending ending') (hst : R (of m io) (of m' io'))
    (hout : io.output = io'.output) :
    Ending.Related F (Run.close label ending m io).ending (Run.close label' ending' m' io').ending ∧
      R (Run.close label ending m io).snapshot (Run.close label' ending' m' io').snapshot := by
  unfold Run.close
  rw [hout]
  cases hending with
  | finished =>
    rcases io'.output.exit false with ⟨_ | f, w, told⟩
    · exact ⟨.finished, hsink w.sink hst⟩
    · exact ⟨.failed (hF f), hsink w.sink hst⟩
  | failed hφ =>
    rcases io'.output.exit true with ⟨_ | f, w, told⟩
    · exact ⟨.failed hφ, hsink w.sink hst⟩
    · exact ⟨.failed (hF f), hsink w.sink hst⟩
  | unfinished => exact ⟨.unfinished, hsink io'.output.sink hst⟩

/-- **Whole runs in step** have related endings and leave related snapshots, if related snapshots have the
same sink. -/
theorem Snapshot.InStep.interpret {code code' : Code} {R : Snapshot → Snapshot → Prop}
    {F : Fault → Fault → Prop} {Stop : Snapshot → Prop} {settings settings' : Settings}
    {input input' : Reader} {output : Sink}
    (h : InStep code code' settings'.caps R F Stop) (hF : ∀ f, F (.failure f) (.failure f))
    (hsame : ∀ {s t : Snapshot}, R s t → s.output = t.output)
    (hsink : ∀ {s t : Snapshot} (k : Sink), R s t → R { s with output := k } { t with output := k })
    (hcaps : settings.caps = settings'.caps)
    (hstart : R (start settings input output) (start settings' input' output)) {fuel : Nat}
    (hfree : StopFree code' settings'.caps Stop (start settings' input' output) fuel) :
    Ending.Related F (interpret fuel code settings input output).ending
        (interpret fuel code' settings' input' output).ending ∧
      R (interpret fuel code settings input output).snapshot
        (interpret fuel code' settings' input' output).snapshot := by
  let io : Streams := ⟨input, .onto output, [settings.started code.program]⟩
  let io' : Streams := ⟨input', .onto output, [settings'.started code'.program]⟩
  have hio : LineWriter.Added output.bytes [] io.output := .onto output
  have hio' : LineWriter.Added output.bytes [] io'.output := .onto output
  have hst : R (of (.initial settings) io) (of (.initial settings') io') := hstart
  obtain ⟨hending, hlast⟩ := h.runFor hst hfree
  obtain ⟨added, hadded⟩ := hio.runFor code settings'.caps fuel (.initial settings)
  obtain ⟨added', hadded'⟩ := hio'.runFor code' settings'.caps fuel (.initial settings')
  -- the sinks are the same, so the writers remember the same of their last lines
  have hwriter := hadded.unique hadded' (hsame hlast)
  unfold TapeMachine.interpret
  rw [hcaps]
  exact Run.close_related hF hsink hending hlast hwriter

/-! ### Tapes that commands do not tell apart -/

/-- A relation between tapes that is kept by stepping cells, by storing bytes and by moves to the left,
and whose tapes show the same byte. -/
structure Tape.Congruent (T : Tape → Tape → Prop) : Prop where
  moveLeft {a b : Tape} (h : T a b) : Option.Rel T a.moveLeft? b.moveLeft?
  increment {a b : Tape} (h : T a b) : T a.increment b.increment
  decrement {a b : Tape} (h : T a b) : T a.decrement b.decrement
  setByte {a b : Tape} (h : T a b) (x : UInt8) : T (a.setByte x.toNat) (b.setByte x.toNat)
  byte {a b : Tape} (h : T a b) : a.byte = b.byte

/-- The command does not tell the tapes apart, should it move to the right or test for zero. -/
structure Tape.Indistinct (T : Tape → Tape → Prop) (op : Opcode) (a b : Tape) : Prop where
  moveRight (h : op = .moveRight) : Option.Rel T a.moveRight? b.moveRight?
  test (h : op = .beginLoop ∨ op = .endLoop) : a.current = 0 ↔ b.current = 0

namespace Snapshot

/-- Two snapshots that differ in their tapes only, and the tapes are related. -/
structure Alike (T : Tape → Tape → Prop) (s t : Snapshot) : Prop where
  tape : T s.machine.tape t.machine.tape
  pc : s.machine.pc = t.machine.pc
  steps : s.machine.steps = t.machine.steps
  outputBytes : s.machine.outputBytes = t.machine.outputBytes
  input : s.input = t.input
  output : s.output = t.output

/-- The next step executes this command: the program has not finished, and the cap on the steps is not
reached. -/
def Executing (code : Code) (caps : Caps) (s : Snapshot) (op : Opcode) : Prop :=
  ¬ s.Finished code ∧ capFault? s.machine.steps .stepLimit caps.steps = none ∧
    ∃ ins, code.fetch? s.machine.pc = some ins ∧ ins.opcode = op

/-- The two runs agree until the second comes to a stop. Up to there both have ended or both are at
alike snapshots, and before it a step has the same fault in both. -/
def AgreeUntil (code : Code) (caps : Caps) (T : Tape → Tape → Prop) (Stop : Snapshot → Prop)
    (s t : Snapshot) : Prop :=
  ∀ n, StopFree code caps Stop t n →
    Option.Rel (Alike T) (s.after code caps n) (t.after code caps n) ∧
    ∀ u v, s.after code caps n = some u → t.after code caps n = some v → ¬ Stop v →
      (u.step code caps).1 = (v.step code caps).1

/-! ### One step -/

namespace Alike

variable {T : Tape → Tape → Prop} {code : Code} {caps : Caps} {s t : Snapshot}

theorem finished_iff (code : Code) (h : Alike T s t) : s.Finished code ↔ t.Finished code := by
  rw [Finished, Finished, h.pc]

/-- The same bytes are written. -/
theorem outByte (hT : Tape.Congruent T) (h : Alike T s t) :
    s.machine.outByte = t.machine.outByte := by
  rw [Machine.outByte, Machine.outByte, hT.byte h.tape]

/-- The machines make a step to the next instruction, and the tapes are related again. -/
theorem advance {a b : Tape} (h : Alike T s t) (htape : T a b) :
    Alike T { s with machine := s.machine.advance a } { t with machine := t.machine.advance b } where
  tape := htape
  pc := congrArg (· + 1) h.pc
  steps := congrArg (· + 1) h.steps
  outputBytes := h.outputBytes
  input := h.input
  output := h.output

/-- The machines jump to the same place. -/
theorem jump (h : Alike T s t) (i : Nat) :
    Alike T { s with machine := s.machine.jump i } { t with machine := t.machine.jump i } where
  tape := h.tape
  pc := rfl
  steps := congrArg (· + 1) h.steps
  outputBytes := h.outputBytes
  input := h.input
  output := h.output

/-- The same streams are left behind. -/
theorem withStreams (h : Alike T s t) (r : Reader) (k : Sink) :
    Alike T ⟨s.machine, r, k⟩ ⟨t.machine, r, k⟩ :=
  ⟨h.tape, h.pc, h.steps, h.outputBytes, rfl, rfl⟩

theorem withSink (h : Alike T s t) (k : Sink) : Alike T { s with output := k } { t with output := k } :=
  ⟨h.tape, h.pc, h.steps, h.outputBytes, h.input, rfl⟩

/-- **A command that does not tell the tapes apart** does the same in both snapshots. -/
theorem executes {jumps : JumpTable} {cap : Option Limit} {op : Opcode} {f : Option Fault}
    {s' : Snapshot} (hT : Tape.Congruent T) (h : Alike T s t)
    (hop : Tape.Indistinct T op s.machine.tape t.machine.tape)
    (he : Executes jumps cap s op f s') : ∃ t', Executes jumps cap t op f t' ∧ Alike T s' t' := by
  -- once the streams are the same, a command is left with what it sees of the tape
  obtain ⟨m, r, k⟩ := s
  obtain ⟨m', r', k'⟩ := t
  obtain rfl : r = r' := h.input
  obtain rfl : k = k' := h.output
  have hbyte := h.outByte hT
  cases he with
  | left hu =>
    obtain ⟨v, hv, hrel⟩ := exists_of_rel_some (hu ▸ hT.moveLeft h.tape)
    exact ⟨_, .left hv, h.advance hrel⟩
  | leftEdge hu => exact ⟨_, .leftEdge (eq_none_of_rel_none (hu ▸ hT.moveLeft h.tape)), h⟩
  | right hu =>
    obtain ⟨v, hv, hrel⟩ := exists_of_rel_some (hu ▸ hop.moveRight rfl)
    exact ⟨_, .right hv, h.advance hrel⟩
  | rightEdge hu => exact ⟨_, .rightEdge (eq_none_of_rel_none (hu ▸ hop.moveRight rfl)), h⟩
  | increment => exact ⟨_, .increment, h.advance (hT.increment h.tape)⟩
  | decrement => exact ⟨_, .decrement, h.advance (hT.decrement h.tape)⟩
  | @read b bs hr hb =>
    exact ⟨_, .read hr hb, (h.advance (hT.setByte h.tape b)).withStreams _ _⟩
  | readEnd hr hb => exact ⟨_, .readEnd hr hb, h.withStreams _ _⟩
  | readFails hr => exact ⟨_, .readFails hr, h.withStreams _ _⟩
  | capped hc => exact ⟨_, .capped (h.outputBytes ▸ hc), h⟩
  | written hc hw hf =>
    refine ⟨_, .written (h.outputBytes ▸ hc) hw hf, ?_⟩
    have hnext := h.advance h.tape
    exact ⟨hnext.tape, hnext.pc, hnext.steps, congrArg (· + 1) h.outputBytes, rfl,
      congrArg k.accepted hbyte⟩
  | writeFails hc hw =>
    refine ⟨_, .writeFails (h.outputBytes ▸ hc) hw, ?_⟩
    exact ⟨h.tape, h.pc, h.steps, h.outputBytes, rfl, congrArg (fun b => k.refused [b]) hbyte⟩
  | flushFails hc hw hf =>
    refine ⟨_, .flushFails (h.outputBytes ▸ hc) hw hf, ?_⟩
    exact ⟨h.tape, h.pc, h.steps, h.outputBytes, rfl, congrArg k.accepted hbyte⟩
  | skip hz hj =>
    exact ⟨_, .skip ((hop.test (.inl rfl)).1 hz) (h.pc ▸ hj), h.jump _⟩
  | enter hz => exact ⟨_, .enter (mt (hop.test (.inl rfl)).2 hz), h.advance h.tape⟩
  | leave hz => exact ⟨_, .leave ((hop.test (.inr rfl)).1 hz), h.advance h.tape⟩
  | again hz hj =>
    exact ⟨_, .again (mt (hop.test (.inr rfl)).2 hz) (h.pc ▸ hj), h.jump _⟩
  | openAlone hz hj =>
    have hpc : m.pc = m'.pc := h.pc
    rw [hpc] at hj ⊢
    exact ⟨_, .openAlone ((hop.test (.inl rfl)).1 hz) hj, h⟩
  | closeAlone hz hj =>
    have hpc : m.pc = m'.pc := h.pc
    rw [hpc] at hj ⊢
    exact ⟨_, .closeAlone (mt (hop.test (.inr rfl)).2 hz) hj, h⟩

/-- A step that does not tell the tapes apart can be made in both snapshots. -/
theorem stepped {f : Option Fault} {s' : Snapshot} (hT : Tape.Congruent T) (h : Alike T s t)
    (hop : ∀ op, Executing code caps t op → Tape.Indistinct T op s.machine.tape t.machine.tape)
    (hst : Stepped code caps s f s') : ∃ t', Stepped code caps t f t' ∧ Alike T s' t' := by
  have hpc := h.pc
  have hfin := h.finished_iff code
  cases hst with
  | finished hr => exact ⟨t, .finished (hfin.1 hr), h⟩
  | noInstruction hr hi =>
    rw [hpc] at hi ⊢
    exact ⟨t, .noInstruction (mt hfin.2 hr) hi, h⟩
  | capped hr hi hc =>
    rw [hpc] at hi
    rw [h.steps] at hc
    exact ⟨t, .capped (mt hfin.2 hr) hi hc, h⟩
  | executed hr hi hc he =>
    rw [hpc] at hi
    rw [h.steps] at hc
    obtain ⟨t', he', ht'⟩ := h.executes hT (hop _ ⟨mt hfin.2 hr, hc, _, hi, rfl⟩) he
    exact ⟨t', .executed (mt hfin.2 hr) hi hc he', ht'⟩

/-- **A step that does not tell the tapes apart** has the same fault in both snapshots, and leaves alike
ones. -/
theorem step (hT : Tape.Congruent T) (h : Alike T s t)
    (hop : ∀ op, Executing code caps t op → Tape.Indistinct T op s.machine.tape t.machine.tape) :
    (s.step code caps).1 = (t.step code caps).1 ∧
      Alike T (s.step code caps).2 (t.step code caps).2 := by
  obtain ⟨t', hst, ht'⟩ := h.stepped hT hop (Snapshot.stepped code caps s)
  rw [hst.eq]
  exact ⟨rfl, ht'⟩

end Alike

/-! ### Runs -/

section Runs

variable {T : Tape → Tape → Prop} {Stop : Snapshot → Prop} {code : Code} {caps : Caps}
variable (hT : Tape.Congruent T)
variable (hop : ∀ s t op, Alike T s t → Executing code caps t op → ¬ Stop t →
  Tape.Indistinct T op s.machine.tape t.machine.tape)
include hT hop

/-- Alike snapshots go on in step until the second comes to a stop. -/
theorem Alike.inStep : InStep code code caps (Alike T) Eq Stop where
  finished h := h.finished_iff code
  step {s t} h hstop := by
    obtain ⟨hfault, hnext⟩ := h.step hT fun op hx => hop s t op h hx hstop
    exact ⟨rel_of_eq hfault, hnext⟩

/-- **Counted runs agree until the second comes to a stop.** -/
theorem agreeUntil {s t : Snapshot} (h : Alike T s t) : AgreeUntil code caps T Stop s t := by
  intro n hn
  have hrel := (Alike.inStep hT hop).after h hn
  refine ⟨hrel, fun u v hu hv hstop => ?_⟩
  rw [hu, hv] at hrel
  cases hrel with
  | some huv => exact (huv.step hT fun op hx => hop u v op huv hx hstop).1

end Runs

end Snapshot

/-- Two runs have the same ending and leave alike snapshots behind: the streams are the same, and the
tapes are related. -/
def Run.SameOutcome (T : Tape → Tape → Prop) (r r' : Run) : Prop :=
  r.ending = r'.ending ∧ Alike T r.snapshot r'.snapshot

/-- **Whole runs that never come to a stop** have the same outcome. -/
theorem interpret_alike {T : Tape → Tape → Prop} {Stop : Snapshot → Prop} {code : Code}
    {settings settings' : Settings} {input : Reader} {output : Sink} (hT : Tape.Congruent T)
    (hop : ∀ s t op, Alike T s t → Executing code settings'.caps t op → ¬ Stop t →
      Tape.Indistinct T op s.machine.tape t.machine.tape)
    (hstart : Alike T (start settings input output) (start settings' input output))
    (hcaps : settings.caps = settings'.caps)
    (hnever : ∀ n, StopFree code settings'.caps Stop (start settings' input output) n)
    (fuel : Nat) :
    Run.SameOutcome T (interpret fuel code settings input output)
      (interpret fuel code settings' input output) := by
  obtain ⟨hending, hlast⟩ := (Alike.inStep hT hop).interpret (fun _ => rfl) (fun h => h.output)
    (fun k h => h.withSink k) hcaps hstart (hnever fuel)
  exact ⟨hending.eq, hlast⟩

end TapeMachine
