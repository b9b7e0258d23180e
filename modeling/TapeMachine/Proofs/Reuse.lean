import Mathlib
import TapeMachine.Session
import TapeMachine.Proofs.Consumption
import TapeMachine.Proofs.Invariant

/-!
# Using a machine again

A session keeps its machine between calls. A run has to forget all of it: the tape that an earlier run has
grown, the counters of one that was stopped, and that the sink holds its output. So a run in a used session
is compared with one in a new session, and the two may be given streams with different pasts.

## The model

`Behaves` says of two readers or sinks that they do the same from now on. A sink that holds the output of
earlier runs behaves as an empty one, if it fails at no other calls. `Twins` says of two streams that they
behave alike, and that the same has happened to both since they were two others: sinks have got the same
calls in the same order and the same bytes, and readers have been called as often and have given the same
bytes. Snapshots leave out what a writer remembers and what was told, so the steps are compared with the
streams as they are.

## What is proved

* `Streams.Twins.step`, `Streams.Twins.runFor`, `interpret_twins`: on twins a step, its repetition and a
  whole run do the same, and leave twins.
* `Session.interpret_eq`: a run of a session resets its machine, and so comes to a run from the start.
* `Call.session_kept`: no call changes the code of a session or its setup.
* `run_forgets_history`: all of it, for sessions.
-/

namespace TapeMachine

/-! ### Streams that behave alike -/

/-- From now on the readers give the same bytes and fail at the same calls. -/
structure Reader.Behaves (r r' : Reader) : Prop where
  rest : r.rest = r'.rest
  fault : ∀ n, r.fault (r.reads + n) = r'.fault (r'.reads + n)

/-- From now on the sinks fail at the same calls. They may hold different bytes. -/
structure Sink.Behaves (k k' : Sink) : Prop where
  writeFault : ∀ n, k.writeFault (k.writes + n) = k'.writeFault (k'.writes + n)
  flushFault : ∀ n, k.flushFault (k.flushes + n) = k'.flushFault (k'.flushes + n)

/-- The readers behave alike. Since they were `r₀` and `r₀'` they have been called as often, and have given
the same bytes. -/
structure Reader.Twins (r₀ r₀' r r' : Reader) : Prop where
  behaves : r.Behaves r'
  reads : ∃ n, r.reads = r₀.reads + n ∧ r'.reads = r₀'.reads + n
  rest : ∃ consumed, r₀.rest = consumed ++ r.rest ∧ r₀'.rest = consumed ++ r'.rest

/-- The sinks behave alike. Since they were `k₀` and `k₀'` they have got the same calls in the same order, and
have accepted the same bytes. -/
structure Sink.Twins (k₀ k₀' k k' : Sink) : Prop where
  behaves : k.Behaves k'
  calls : ∃ made, k.calls = made ++ k₀.calls ∧ k'.calls = made ++ k₀'.calls
  bytes : ∃ added, k.bytes = k₀.bytes ++ added ∧ k'.bytes = k₀'.bytes ++ added

/-- The sinks of the writers are twins, and the writers remember the same of the last line. -/
structure LineWriter.Twins (k₀ k₀' : Sink) (w w' : LineWriter) : Prop where
  sink : Sink.Twins k₀ k₀' w.sink w'.sink
  endsLine : w.endsLine = w'.endsLine

/-- The streams of two runs are twins, and the same has been told. -/
structure Streams.Twins (r₀ r₀' : Reader) (k₀ k₀' : Sink) (io io' : Streams) : Prop where
  input : Reader.Twins r₀ r₀' io.input io'.input
  output : LineWriter.Twins k₀ k₀' io.output io'.output
  log : io.log = io'.log

theorem Reader.Behaves.refl (r : Reader) : r.Behaves r := ⟨rfl, fun _ => rfl⟩

/-- Nothing has happened to the readers yet. -/
theorem Reader.Behaves.twins {r r' : Reader} (h : r.Behaves r') : Twins r r' r r' :=
  ⟨h, ⟨0, rfl, rfl⟩, ⟨[], rfl, rfl⟩⟩

/-- Nothing has happened to the sinks yet. -/
theorem Sink.Behaves.twins {k k' : Sink} (h : k.Behaves k') : Twins k k' k k' :=
  ⟨h, ⟨[], rfl, rfl⟩, ⟨[], (List.append_nil _).symm, (List.append_nil _).symm⟩⟩

/-- After one call the schedules agree from the next call on. -/
theorem schedule_succ {α : Type} {f g : Nat → α} {a b : Nat} (h : ∀ n, f (a + n) = g (b + n)) (n : Nat) :
    f (a + 1 + n) = g (b + 1 + n) := by
  rw [Nat.add_assoc, Nat.add_assoc]
  exact h (1 + n)

variable {r₀ r₀' : Reader} {k₀ k₀' : Sink}

theorem Reader.Twins.read {r r' : Reader} (h : Twins r₀ r₀' r r') :
    ∃ res s s', r.read = (res, s) ∧ r'.read = (res, s') ∧ Twins r₀ r₀' s s' := by
  obtain ⟨⟨hrest, hfault⟩, ⟨n, hreads, hreads'⟩, consumed, hconsumed, hconsumed'⟩ := h
  have hnow : r.fault r.reads = r'.fault r'.reads := hfault 0
  have hlater := schedule_succ hfault
  have hmore : ∃ m, r.reads + 1 = r₀.reads + m ∧ r'.reads + 1 = r₀'.reads + m :=
    ⟨n + 1, by omega, by omega⟩
  rw [hrest] at hconsumed
  unfold Reader.read
  rw [hnow, hrest]
  cases r'.fault r'.reads with
  | some f => exact ⟨_, _, _, rfl, rfl, ⟨rfl, hlater⟩, hmore, consumed, hconsumed, hconsumed'⟩
  | none =>
    cases hcase : r'.rest with
    | nil =>
      rw [hcase] at hconsumed hconsumed'
      exact ⟨_, _, _, rfl, rfl, ⟨rfl, hlater⟩, hmore, consumed, hconsumed, hconsumed'⟩
    | cons b bs =>
      rw [hcase, List.append_cons] at hconsumed hconsumed'
      exact ⟨_, _, _, rfl, rfl, ⟨rfl, hlater⟩, hmore, consumed ++ [b], hconsumed, hconsumed'⟩

namespace Sink.Twins

variable {k k' : Sink}

theorem write (h : Twins k₀ k₀' k k') (data : List UInt8) :
    ∃ res j j', k.write data = (res, j) ∧ k'.write data = (res, j') ∧ Twins k₀ k₀' j j' := by
  obtain ⟨⟨hwrite, hflush⟩, ⟨made, hmade, hmade'⟩, added, hadded, hadded'⟩ := h
  have hnow : k.writeFault k.writes = k'.writeFault k'.writes := hwrite 0
  have hlater := schedule_succ hwrite
  have hcalls : ∃ made, SinkCall.write data :: k.calls = made ++ k₀.calls ∧
      SinkCall.write data :: k'.calls = made ++ k₀'.calls :=
    ⟨.write data :: made, by rw [hmade, List.cons_append], by rw [hmade', List.cons_append]⟩
  unfold Sink.write
  rw [hnow]
  cases k'.writeFault k'.writes with
  | some f => exact ⟨_, _, _, rfl, rfl, ⟨hlater, hflush⟩, hcalls, added, hadded, hadded'⟩
  | none =>
    refine ⟨_, _, _, rfl, rfl, ⟨hlater, hflush⟩, hcalls, added ++ data, ?_, ?_⟩
    · rw [← List.append_assoc, ← hadded]
      simp [Sink.bytes]
    · rw [← List.append_assoc, ← hadded']
      simp [Sink.bytes]

theorem flush (h : Twins k₀ k₀' k k') :
    ∃ res j j', k.flush = (res, j) ∧ k'.flush = (res, j') ∧ Twins k₀ k₀' j j' := by
  obtain ⟨⟨hwrite, hflush⟩, ⟨made, hmade, hmade'⟩, hbytes⟩ := h
  have hnow : k.flushFault k.flushes = k'.flushFault k'.flushes := hflush 0
  have hlater := schedule_succ hflush
  have hcalls : ∃ made, SinkCall.flush :: k.calls = made ++ k₀.calls ∧
      SinkCall.flush :: k'.calls = made ++ k₀'.calls :=
    ⟨.flush :: made, by rw [hmade, List.cons_append], by rw [hmade', List.cons_append]⟩
  unfold Sink.flush
  rw [hnow]
  cases k'.flushFault k'.flushes <;> exact ⟨_, _, _, rfl, rfl, ⟨hwrite, hlater⟩, hcalls, hbytes⟩

end Sink.Twins

namespace LineWriter.Twins

variable {w w' : LineWriter}

theorem write (h : Twins k₀ k₀' w w') (data : List UInt8) :
    ∃ res v v', w.write data = (res, v) ∧ w'.write data = (res, v') ∧ Twins k₀ k₀' v v' := by
  obtain ⟨res, k, k', hk, hk', hsink⟩ := h.sink.write data
  simp only [LineWriter.write, hk, hk', h.endsLine]
  cases res <;> exact ⟨_, _, _, rfl, rfl, hsink, rfl⟩

theorem flush (h : Twins k₀ k₀' w w') :
    ∃ res v v', w.flush = (res, v) ∧ w'.flush = (res, v') ∧ Twins k₀ k₀' v v' := by
  obtain ⟨res, k, k', hk, hk', hsink⟩ := h.sink.flush
  simp only [LineWriter.flush, hk, hk']
  exact ⟨_, _, _, rfl, rfl, hsink, h.endsLine⟩

theorem writeThrough (h : Twins k₀ k₀' w w') (data : List UInt8) :
    ∃ res v v', w.writeThrough data = (res, v) ∧ w'.writeThrough data = (res, v') ∧
      Twins k₀ k₀' v v' := by
  obtain ⟨res, v, v', hv, hv', hwriter⟩ := h.write data
  simp only [LineWriter.writeThrough, hv, hv']
  cases res with
  | error f => exact ⟨_, _, _, rfl, rfl, hwriter⟩
  | ok n => exact hwriter.flush

theorem finalize (h : Twins k₀ k₀' w w') :
    ∃ res v v', w.finalize = (res, v) ∧ w'.finalize = (res, v') ∧ Twins k₀ k₀' v v' := by
  unfold LineWriter.finalize
  rw [h.endsLine]
  split
  · exact ⟨_, _, _, rfl, rfl, h⟩
  · exact h.writeThrough _

theorem exit (h : Twins k₀ k₀' w w') (failed : Bool) :
    ∃ f v v' told, w.exit failed = (f, v, told) ∧ w'.exit failed = (f, v', told) ∧
      Twins k₀ k₀' v v' := by
  obtain ⟨res, v, v', hv, hv', hwriter⟩ := h.finalize
  simp only [LineWriter.exit, hv, hv']
  cases res with
  | ok n => exact ⟨_, _, _, _, rfl, rfl, hwriter⟩
  | error f =>
    dsimp only
    split <;> exact ⟨_, _, _, _, rfl, rfl, hwriter⟩

end LineWriter.Twins

/-! ### Two runs -/

namespace Streams.Twins

variable {io io' : Streams}

/-- **A command does the same on twins.** -/
theorem execute (h : Twins r₀ r₀' k₀ k₀' io io') (jumps : JumpTable) (cap : Option Limit) (op : Opcode)
    (m : Machine) :
    ∃ φ m' a b, execute jumps cap op m io = ⟨φ, m', a⟩ ∧ execute jumps cap op m io' = ⟨φ, m', b⟩ ∧
      Twins r₀ r₀' k₀ k₀' a b := by
  cases op with
  | input =>
    obtain ⟨res, s, s', hs, hs', hreader⟩ := h.input.read
    simp only [TapeMachine.execute, hs, hs']
    rcases res with f | _ | b <;> exact ⟨_, _, _, _, rfl, rfl, hreader, h.output, h.log⟩
  | output =>
    obtain ⟨res, v, v', hv, hv', hwriter⟩ := h.output.writeThrough [UInt8.ofNat m.tape.byte.toNat]
    simp only [TapeMachine.execute, hv, hv']
    cases capFault? m.outputBytes .outputLimit cap with
    | some f => exact ⟨_, _, _, _, rfl, rfl, h⟩
    | none => cases res <;> exact ⟨_, _, _, _, rfl, rfl, h.input, hwriter, h.log⟩
  | moveRight =>
    simp only [TapeMachine.execute]
    cases m.tape.moveRight? with
    | none => exact ⟨_, _, _, _, rfl, rfl, h⟩
    | some t =>
      -- a doubled tape is told in both logs
      dsimp only
      split
      · exact ⟨_, _, _, _, rfl, rfl, h⟩
      · exact ⟨_, _, _, _, rfl, rfl, h.input, h.output, congrArg (.extended t.length :: ·) h.log⟩
  | moveLeft | beginLoop | endLoop =>
    simp only [TapeMachine.execute]
    repeat' split
    all_goals exact ⟨_, _, _, _, rfl, rfl, h⟩
  | increment | decrement => exact ⟨_, _, _, _, rfl, rfl, h⟩

theorem step (h : Twins r₀ r₀' k₀ k₀' io io') (code : Code) (caps : Caps) (m : Machine) :
    ∃ φ m' a b, step code caps m io = ⟨φ, m', a⟩ ∧ step code caps m io' = ⟨φ, m', b⟩ ∧
      Twins r₀ r₀' k₀ k₀' a b := by
  unfold TapeMachine.step
  split
  · exact ⟨_, _, _, _, rfl, rfl, h⟩
  · cases code.fetch? m.pc with
    | none => exact ⟨_, _, _, _, rfl, rfl, h⟩
    | some ins =>
      dsimp only
      cases capFault? m.steps .stepLimit caps.steps with
      | some f => exact ⟨_, _, _, _, rfl, rfl, h⟩
      | none =>
        obtain ⟨φ, m', a, b, ha, hb, hstreams⟩ := h.execute code.jumps caps.output ins.opcode m
        dsimp only
        rw [ha, hb, Snapshot.locate_eq, Snapshot.locate_eq]
        exact ⟨_, _, _, _, rfl, rfl, hstreams⟩

/-- **Steps repeated on twins** end in the same way, and leave the same machine and twins. -/
theorem runFor (h : Twins r₀ r₀' k₀ k₀' io io') (code : Code) (caps : Caps) (fuel : Nat) (m : Machine) :
    ∃ ending m' a b, runFor code caps fuel m io = (ending, m', a) ∧
      runFor code caps fuel m io' = (ending, m', b) ∧ Twins r₀ r₀' k₀ k₀' a b := by
  induction fuel generalizing m io io' with
  | zero => exact ⟨_, _, _, _, rfl, rfl, h⟩
  | succ fuel ih =>
    obtain ⟨φ, m', a, b, ha, hb, hstreams⟩ := h.step code caps m
    simp only [TapeMachine.runFor, ha, hb]
    split
    · exact ⟨_, _, _, _, rfl, rfl, h⟩
    · cases φ with
      | some f => exact ⟨_, _, _, _, rfl, rfl, hstreams⟩
      | none => exact ih hstreams m'

theorem close (h : Twins r₀ r₀' k₀ k₀' io io') (label : String) (ending : Ending) (m : Machine) :
    ∃ ending' r r' k k' log, Run.close label ending m io = ⟨ending', m, r, k, log⟩ ∧
      Run.close label ending m io' = ⟨ending', m, r', k', log⟩ ∧
      Reader.Twins r₀ r₀' r r' ∧ Sink.Twins k₀ k₀' k k' := by
  cases ending with
  | finished =>
    obtain ⟨f, v, v', told, hv, hv', hwriter⟩ := h.output.exit false
    simp only [Run.close, hv, hv', h.log]
    cases f <;> exact ⟨_, _, _, _, _, _, rfl, rfl, h.input, hwriter.sink⟩
  | failed φ =>
    obtain ⟨f, v, v', told, hv, hv', hwriter⟩ := h.output.exit true
    simp only [Run.close, hv, hv', h.log]
    cases f <;> exact ⟨_, _, _, _, _, _, rfl, rfl, h.input, hwriter.sink⟩
  | unfinished =>
    simp only [Run.close, h.log]
    exact ⟨_, _, _, _, _, _, rfl, rfl, h.input, h.output.sink⟩

end Streams.Twins

/-- **Whole runs on streams that behave alike** end in the same way, leave the same machine, tell the same and
leave twins. -/
theorem interpret_twins {r r' : Reader} {k k' : Sink} (hr : r.Behaves r') (hk : k.Behaves k') (fuel : Nat)
    (code : Code) (settings : Settings) :
    ∃ ending m s s' j j' log,
      interpret fuel code settings r k = ⟨ending, m, s, j, log⟩ ∧
      interpret fuel code settings r' k' = ⟨ending, m, s', j', log⟩ ∧
      Reader.Twins r r' s s' ∧ Sink.Twins k k' j j' := by
  have hio : Streams.Twins r r' k k' ⟨r, .onto k, [settings.started code.program]⟩
      ⟨r', .onto k', [settings.started code.program]⟩ := ⟨hr.twins, ⟨hk.twins, rfl⟩, rfl⟩
  obtain ⟨ending, m, a, b, ha, hb, hends⟩ := hio.runFor code settings.caps fuel (.initial settings)
  obtain ⟨ending', s, s', j, j', log, hs, hs', hreader, hsink⟩ := hends.close code.program.label ending m
  simp only [interpret, ha, hb, hs, hs']
  exact ⟨ending', m, s, s', j, j', log, rfl, rfl, hreader, hsink⟩

/-! ### Sessions -/

namespace Session

/-- The session with other streams for its next call. -/
def on (s : Session) (input : Reader) (output : Sink) : Session := { s with input := input, output := output }

/-- The session that a run leaves. -/
def after (s : Session) (run : Run) : Session :=
  { s with machine := .ofMachine run.machine, input := run.input, output := run.output }

theorem proceed_eq {s : Session} {settings : Settings} (hsettings : s.setup.settings = .ok settings)
    (hnew : s.machine = .ofMachine (.initial settings)) (patience : Nat) :
    s.proceed patience =
      ((TapeMachine.interpret (settings.caps.fuel patience) s.code settings s.input s.output).ending,
        s.after (TapeMachine.interpret (settings.caps.fuel patience) s.code settings s.input s.output),
        (TapeMachine.interpret (settings.caps.fuel patience) s.code settings s.input s.output).log) := by
  obtain ⟨code, setup, machine, input, output⟩ := s
  dsimp only at hsettings hnew
  obtain ⟨hcaps, hkind, hshown⟩ := Setup.eq_of_settings hsettings
  subst hnew
  have hstarted : started ⟨code, setup, .ofMachine (.initial settings), input, output⟩ =
      settings.started code.program := by
    have hlength : (Machine.initial settings).tape.length = settings.cells := by
      simp [Machine.initial, Tape.blank, Tape.length]
    rw [Settings.started, hkind, hshown, ← hlength]
    rfl
  unfold proceed
  dsimp only
  rw [hstarted, LooseMachine.runFor_ofMachine, ← hcaps]
  simp only [after, TapeMachine.interpret, Run.close_machine]
  rfl

/-- **A run starts anew**: whatever the machine is like, it is reset first. -/
theorem interpret_eq (s : Session) {settings : Settings} (h : s.setup.settings = .ok settings)
    (patience : Nat) :
    s.interpret patience = .ok (
      (TapeMachine.interpret (settings.caps.fuel patience) s.code settings s.input s.output).ending,
      s.after (TapeMachine.interpret (settings.caps.fuel patience) s.code settings s.input s.output),
      (TapeMachine.interpret (settings.caps.fuel patience) s.code settings s.input s.output).log) := by
  have hreset : s.reset = .ok { s with machine := .ofMachine (.initial settings) } := by
    rw [reset, h]
  have hproceed := proceed_eq (s := { s with machine := .ofMachine (.initial settings) }) h rfl patience
  rw [interpret, hreset]
  exact congrArg Except.ok hproceed

/-- A session can be started again with the same code and setup, on any streams. -/
theorem start_eq_ok {room : Room} {p : Program} {c : Config} {input : Reader} {output : Sink} {s : Session}
    (h : start room p c input output = .ok s) :
    ∃ settings, s.setup.settings = .ok settings ∧
      ∀ r k, start room p c r k = .ok ⟨s.code, s.setup, .ofMachine (.initial settings), r, k⟩ := by
  unfold start at h ⊢
  cases hsetup : Setup.ofConfig room p c with
  | error e =>
    rw [hsetup] at h
    cases h
  | ok x =>
    obtain ⟨code, setup, settings⟩ := x
    rw [hsetup] at h
    cases h
    exact ⟨settings, (Setup.of_ofConfig_eq_ok hsetup).2.1, fun r k => rfl⟩

end Session

/-- The session that a call leaves, whether it returns or raises. -/
def Call.session (s : Session) : Call → Session
  | .step input output => (s.on input output).step.2.1
  | .interpret patience input output =>
    match (s.on input output).interpret patience with
    | .error _ => s.on input output
    | .ok (_, t, _) => t
  | .reset =>
    match s.reset with
    | .error _ => s
    | .ok t => t

/-- **No call changes the code or the setup.** -/
theorem Call.session_kept (s : Session) (c : Call) :
    (c.session s).code = s.code ∧ (c.session s).setup = s.setup := by
  cases c with
  | step input output => exact ⟨rfl, rfl⟩
  | interpret patience input output =>
    rw [Call.session, Session.interpret, Session.reset]
    cases (s.on input output).setup.settings <;> exact ⟨rfl, rfl⟩
  | reset =>
    rw [Call.session, Session.reset]
    cases s.setup.settings <;> exact ⟨rfl, rfl⟩

theorem Call.session_foldl_kept (s : Session) (history : List Call) :
    (history.foldl Call.session s).code = s.code ∧ (history.foldl Call.session s).setup = s.setup := by
  induction history generalizing s with
  | nil => exact ⟨rfl, rfl⟩
  | cons c history ih =>
    obtain ⟨hcode, hsetup⟩ := ih (c.session s)
    exact ⟨hcode.trans (c.session_kept s).1, hsetup.trans (c.session_kept s).2⟩

/-- **A run forgets the history of its session.** After any calls, each with streams of its own and returning
or raising, a run ends as it would in a new session on streams that behave alike, leaves the same machine and
tells the same. Its sink gets the same calls in the same order and accepts the same bytes, whatever it holds
already; its reader is called as often, and gives the same bytes. -/
theorem run_forgets_history {room : Room} {p : Program} {c : Config} {r₀ r r' : Reader} {k₀ k k' : Sink}
    {old : Session} (hold : Session.start room p c r₀ k₀ = .ok old) (history : List Call)
    (hr : r.Behaves r') (hk : k.Behaves k') (patience : Nat) :
    let used := (history.foldl Call.session old).on r k
    ∃ new s t ending log made added n consumed,
      Session.start room p c r' k' = .ok new ∧
      used.interpret patience = .ok (ending, s, log) ∧ new.interpret patience = .ok (ending, t, log) ∧
      s.machine = t.machine ∧
      s.output.calls = made ++ k.calls ∧ t.output.calls = made ++ k'.calls ∧
      s.output.bytes = k.bytes ++ added ∧ t.output.bytes = k'.bytes ++ added ∧
      s.input.reads = r.reads + n ∧ t.input.reads = r'.reads + n ∧
      r.rest = consumed ++ s.input.rest ∧ r'.rest = consumed ++ t.input.rest := by
  intro used
  obtain ⟨settings, hsettings, hstart⟩ := Session.start_eq_ok hold
  obtain ⟨hcode, hsetup⟩ := Call.session_foldl_kept old history
  -- both sessions interpret the same code with the same settings
  have hused := used.interpret_eq ((congrArg Setup.settings hsetup).trans hsettings) patience
  have hnew := Session.interpret_eq ⟨old.code, old.setup, .ofMachine (.initial settings), r', k'⟩ hsettings
    patience
  rw [show used.code = old.code from hcode, show used.input = r from rfl,
    show used.output = k from rfl] at hused
  obtain ⟨ending, m, s, s', j, j', log, hrun, hrun', hreader, hsink⟩ :=
    interpret_twins hr hk (settings.caps.fuel patience) old.code settings
  rw [hrun] at hused
  dsimp only at hnew
  rw [hrun'] at hnew
  obtain ⟨made, hmade, hmade'⟩ := hsink.calls
  obtain ⟨added, hadded, hadded'⟩ := hsink.bytes
  obtain ⟨n, hn, hn'⟩ := hreader.reads
  obtain ⟨consumed, hconsumed, hconsumed'⟩ := hreader.rest
  exact ⟨_, _, _, ending, log, made, added, n, consumed, hstart r' k', hused, hnew, rfl, hmade, hmade',
    hadded, hadded', hn, hn', hconsumed, hconsumed'⟩

/-- A sink that holds a byte and has been called before. -/
def usedSink : Sink := ⟨[7], [.flush, .write [7]], 1, 1, fun _ => none, fun _ => none⟩

/-- A run, and a step after its end. -/
def runAndStep : List Call := [.interpret 9 (.ofBytes [104]) .healthy, .step (.ofBytes []) .healthy]

/-- A run has doubled the tape, and a step after it has done nothing. A second run does what it does in a new
session, though its sink is not empty. -/
theorem run_forgets_history_grown :
    ∃ old, Session.start .usual (.ofText none ",.>+.") { cells := .int 1, extensible := .bool true }
        (.ofBytes []) .healthy = .ok old ∧
      (runAndStep.foldl Call.session old).machine.machine.tape.length = 2 ∧
      (runAndStep.foldl Call.session old).machine.machine.steps = 5 ∧
      ∃ new s t ending log made added,
        Session.start .usual (.ofText none ",.>+.") { cells := .int 1, extensible := .bool true }
          (.ofBytes [10]) .healthy = .ok new ∧
        ((runAndStep.foldl Call.session old).on (.ofBytes [10]) usedSink).interpret 9 =
          .ok (ending, s, log) ∧
        new.interpret 9 = .ok (ending, t, log) ∧ s.machine = t.machine ∧
        s.output.calls = made ++ [.flush, .write [7]] ∧ t.output.calls = made ∧
        s.output.bytes = 7 :: added ∧ t.output.bytes = added := by
  have hold : Session.start .usual (.ofText none ",.>+.") { cells := .int 1, extensible := .bool true }
      (.ofBytes []) .healthy = .ok _ := rfl
  have hk : usedSink.Behaves .healthy := ⟨fun _ => rfl, fun _ => rfl⟩
  obtain ⟨new, s, t, ending, log, made, added, -, -, hnew, hs, ht, hmachine, hmade, hmade', hbytes, hbytes',
    -⟩ := run_forgets_history hold runAndStep (.refl (.ofBytes [10])) hk 9
  refine ⟨_, hold, ?_, ?_, new, s, t, ending, log, made, added, hnew, hs, ht, hmachine, hmade,
    hmade'.trans (List.append_nil _), hbytes, hbytes'⟩
  · decide +kernel
  · decide +kernel

end TapeMachine
