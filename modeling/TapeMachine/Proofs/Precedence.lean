import Mathlib
import TapeMachine.Proofs.Invariant
import TapeMachine.Proofs.Printing

/-!
# Which failure leaves a run

A run can fail twice. A step raises a fault, and then the last line is ended, which can fail as well. Only
one of the two can leave the run, and the other is told in the log or lost.

## The model

`Refuses` says why a command fails: a problem of the program's own, or a call to a stream that failed.
`Cause.fault` is the fault that this becomes. `Sink.lineFailure?` is how ending the last line fails, read off
the schedules of the sink. `settle` is the rule by which the two are settled.

## What is proved

* `fault_step_iff`: what a step raises, and exactly when.
* `Run.settled_close`: closing a run follows the rule, and gives no warning but the one that the rule says.
* `run_raises`: both, for `interpret`, with the machine as it was where the run stopped.
-/

namespace TapeMachine

open Snapshot

/-! ### What a step raises -/

/-- Why a command fails. -/
inductive Cause where
  /-- A problem of the program's own. -/
  | own (problem : Problem)
  /-- A stream failed; the problem is what this is reported as, for the reason that is given. -/
  | stream (problem : Value → Problem) (f : Failure)

namespace Cause

/-- The fault before it is blamed on an instruction. -/
def bare : Cause → Fault
  | .own problem => .ofProblem problem
  | .stream problem f => .ofFailure problem f

/-- The fault that is raised at an instruction: an error of the program, unless a stream failed in a way
that is not reported. -/
def fault (source : Option String) (ins : Instruction) : Cause → Fault
  | .own problem => .error ⟨problem, source, some ins.place⟩ none
  | .stream problem f =>
    if f.kind.reported then .error ⟨problem (.text f.message), source, some ins.place⟩ (some f)
    else .failure f

theorem locate_bare (cause : Cause) (source : Option String) (ins : Instruction) :
    cause.bare.locate source ins = cause.fault source ins := by
  cases cause with
  | own problem => rfl
  | stream problem f =>
    simp only [bare, fault, Fault.ofFailure]
    split <;> rfl

end Cause

theorem capFault?_count_eq_some_iff {k : Int} {problem : Limit → Problem} {cap : Option Int}
    {φ : Fault} : capFault? k problem (cap.map .count) = some φ ↔
      ∃ n, cap = some n ∧ n ≤ k ∧ φ = .ofProblem (problem (.count n)) := by
  refine ⟨eq_of_capFault?_count, ?_⟩
  rintro ⟨n, rfl, hn, rfl⟩
  simp [capFault?, Limit.reached, hn]

namespace Snapshot

/-- A command cannot be executed. -/
inductive Refuses (maxOutput : Option Int) (s : Snapshot) : Opcode → Cause → Prop where
  | underflow (h : s.machine.tape.pointer = 0) : Refuses maxOutput s .moveLeft (.own .pointerUnderflow)
  | overflow (h : s.machine.tape.length = s.machine.tape.pointer + 1)
      (hfixed : s.machine.tape.extensible = false) :
      Refuses maxOutput s .moveRight (.own .pointerOverflow)
  | endOfInput (h : s.input.fault s.input.reads = none) (hrest : s.input.rest = []) :
      Refuses maxOutput s .input (.own (.read (.text "unexpected end of input")))
  | read {f : Failure} (h : s.input.fault s.input.reads = some f) :
      Refuses maxOutput s .input (.stream .read f)
  | outputLimit {n : Int} (h : maxOutput = some n) (hn : n ≤ s.machine.outputBytes) :
      Refuses maxOutput s .output (.own (.outputLimit (.count n)))
  | write {f : Failure} (hcap : ∀ n ∈ maxOutput, s.machine.outputBytes < n)
      (h : s.output.writeFault s.output.writes = some f) : Refuses maxOutput s .output (.stream .write f)
  | flush {f : Failure} (hcap : ∀ n ∈ maxOutput, s.machine.outputBytes < n)
      (hwrite : s.output.writeFault s.output.writes = none)
      (h : s.output.flushFault s.output.flushes = some f) :
      Refuses maxOutput s .output (.stream .write f)

/-- A step fails at a command: the cap on the steps is reached, or it is not and the command cannot be
executed. -/
def Fails (maxSteps maxOutput : Option Int) (s : Snapshot) (op : Opcode) (cause : Cause) : Prop :=
  (∃ n, maxSteps = some n ∧ n ≤ s.machine.steps ∧ cause = .own (.stepLimit (.count n))) ∨
    (∀ n ∈ maxSteps, s.machine.steps < n) ∧ s.Refuses maxOutput op cause

section Causes

variable {jumps : JumpTable} {maxSteps maxOutput : Option Int} {s t : Snapshot} {op : Opcode}

/-- What a command raises has a cause, unless a bracket has no partner. -/
theorem Executes.exists_refuses {φ : Fault} {raised : Option Fault}
    (h : Executes jumps (maxOutput.map .count) s op raised t) (hraised : raised = some φ)
    (hφ : φ.Expected) : ∃ cause, s.Refuses maxOutput op cause ∧ φ = cause.bare := by
  cases h with
  | leftEdge h =>
    cases hraised
    exact ⟨_, .underflow (Tape.moveLeft?_eq_none_iff.1 h), rfl⟩
  | rightEdge h =>
    cases hraised
    obtain ⟨hlast, hfixed⟩ := Tape.moveRight?_eq_none_iff.1 h
    exact ⟨_, .overflow hlast hfixed, rfl⟩
  | readEnd h hrest =>
    cases hraised
    exact ⟨_, .endOfInput h hrest, rfl⟩
  | readFails h =>
    cases hraised
    exact ⟨_, .read h, rfl⟩
  | capped h =>
    cases hraised
    obtain ⟨n, hcap, hn, rfl⟩ := capFault?_count_eq_some_iff.1 h
    exact ⟨_, .outputLimit hcap hn, rfl⟩
  | writeFails hcap h =>
    cases hraised
    exact ⟨_, .write (capFault?_count_eq_none_iff.1 hcap) h, rfl⟩
  | flushFails hcap hwrite h =>
    cases hraised
    exact ⟨_, .flush (capFault?_count_eq_none_iff.1 hcap) hwrite h, rfl⟩
  | openAlone | closeAlone =>
    cases hraised
    exact hφ.elim
  | _ => cases hraised

/-- A command that cannot be executed raises its cause. -/
theorem Refuses.exists_executes {cause : Cause} (h : s.Refuses maxOutput op cause)
    (jumps : JumpTable) : ∃ t, Executes jumps (maxOutput.map .count) s op (some cause.bare) t := by
  cases h with
  | underflow h => exact ⟨_, .leftEdge (Tape.moveLeft?_eq_none_iff.2 h)⟩
  | overflow h hfixed => exact ⟨_, .rightEdge (Tape.moveRight?_eq_none_iff.2 ⟨h, hfixed⟩)⟩
  | endOfInput h hrest => exact ⟨_, .readEnd h hrest⟩
  | read h => exact ⟨_, .readFails h⟩
  | outputLimit h hn => exact ⟨_, .capped (capFault?_count_eq_some_iff.2 ⟨_, h, hn, rfl⟩)⟩
  | write hcap h => exact ⟨_, .writeFails (capFault?_count_eq_none_iff.2 hcap) h⟩
  | flush hcap hwrite h => exact ⟨_, .flushFails (capFault?_count_eq_none_iff.2 hcap) hwrite h⟩

/-- **What a step raises**: the fault of its cause, blamed on the instruction at the program counter. -/
theorem fault_step_iff {code : Code} {settings : Settings} (hcode : code.Complete)
    (hbits : 8 ≤ settings.kind.bits) (hkept : Kept code settings maxSteps maxOutput s.machine)
    {φ : Fault} :
    (s.step code (.ofInts maxSteps maxOutput)).1 = some φ ↔
      ∃ (i : Nat) (ins : Instruction) (cause : Cause), s.machine.pc = i ∧
        code.program.instructions[i]? = some ins ∧ s.Fails maxSteps maxOutput ins.opcode cause ∧
        φ = cause.fault code.program.source ins := by
  constructor
  · intro hφ
    have hst := stepped code (.ofInts maxSteps maxOutput) s
    have hexpected : φ.Expected := (hkept.stepped hcode hbits hst).2 φ hφ
    obtain ⟨i, hpc⟩ := Int.eq_ofNat_of_zero_le hkept.pc_nonneg
    generalize (s.step code (.ofInts maxSteps maxOutput)).1 = raised at hφ hst
    generalize (s.step code (.ofInts maxSteps maxOutput)).2 = u at hst
    cases hst with
    | finished => cases hφ
    | noInstruction =>
      cases hφ
      exact hexpected.elim
    | @capped ins f _ hi hc =>
      cases hφ
      obtain ⟨n, hcap, hn, rfl⟩ := capFault?_count_eq_some_iff.1 hc
      rw [hpc] at hi
      exact ⟨i, ins, .own (.stepLimit (.count n)), hpc, hi, .inl ⟨n, hcap, hn, rfl⟩, rfl⟩
    | @executed ins f _ _ hi hc he =>
      obtain ⟨ψ, hψ, rfl⟩ := Option.map_eq_some_iff.1 hφ
      have hbare : ψ.Expected := by
        cases ψ <;> exact hexpected
      obtain ⟨cause, hrefuses, rfl⟩ := he.exists_refuses hψ hbare
      rw [hpc] at hi
      exact ⟨i, ins, cause, hpc, hi, .inr ⟨capFault?_count_eq_none_iff.1 hc, hrefuses⟩,
        cause.locate_bare _ _⟩
  · rintro ⟨i, ins, cause, hpc, hi, hfails, rfl⟩
    have hfetch : code.fetch? s.machine.pc = some ins := by
      rw [hpc]
      exact hi
    have hrunning : ¬ s.Finished code := by
      have hlt := (Array.getElem?_eq_some_iff.1 hi).1
      rw [Finished, Code.finished, hpc, decide_eq_true_eq, not_le]
      exact_mod_cast hlt
    rcases hfails with ⟨n, hcap, hn, rfl⟩ | ⟨hcap, hrefuses⟩
    · rw [(Stepped.capped hrunning hfetch (capFault?_count_eq_some_iff.2 ⟨n, hcap, hn, rfl⟩)).eq]
      rfl
    · obtain ⟨u, hu⟩ := hrefuses.exists_executes code.jumps
      rw [(Stepped.executed hrunning hfetch (capFault?_count_eq_none_iff.2 hcap) hu).eq]
      exact congrArg some (cause.locate_bare _ _)

end Causes

end Snapshot

/-! ### The log -/

/-- A command tells of nothing but a longer tape. -/
theorem isWarning_of_mem_execute {jumps : JumpTable} {cap : Option Limit} {op : Opcode} {m : Machine}
    {io : Streams} {e : Event} (he : e ∈ (execute jumps cap op m io).streams.log) :
    e ∈ io.log ∨ e.isWarning = false := by
  cases op <;> simp only [execute] at he
  case moveRight =>
    split at he
    · exact .inl he
    · dsimp only at he
      split at he
      · exact .inl he
      · rcases List.mem_cons.1 he with rfl | he
        · exact .inr rfl
        · exact .inl he
  all_goals
    repeat' split at he
    all_goals exact .inl he

theorem Step.streams_locate (source : Option String) (ins : Instruction) (s : Step) :
    (s.locate source ins).streams = s.streams := by
  obtain ⟨fault, m, io⟩ := s
  cases fault <;> rfl

theorem isWarning_of_mem_step {code : Code} {caps : Caps} {m : Machine} {io : Streams} {e : Event}
    (he : e ∈ (step code caps m io).streams.log) : e ∈ io.log ∨ e.isWarning = false := by
  unfold step at he
  split at he
  · exact .inl he
  · split at he
    · exact .inl he
    · split at he
      · exact .inl he
      · rw [Step.streams_locate] at he
        exact isWarning_of_mem_execute he

theorem isWarning_of_mem_runFor {code : Code} {caps : Caps} {fuel : Nat} {m : Machine} {io : Streams}
    {e : Event} (he : e ∈ (runFor code caps fuel m io).2.2.log) : e ∈ io.log ∨ e.isWarning = false := by
  induction fuel generalizing m io with
  | zero => exact .inl he
  | succ fuel ih =>
    have hlog : ∀ e ∈ (step code caps m io).streams.log, e ∈ io.log ∨ e.isWarning = false :=
      fun _ => isWarning_of_mem_step
    rw [runFor] at he
    split at he
    · exact .inl he
    · split at he
      · next hstep =>
        rw [hstep] at hlog
        exact hlog e he
      · next hstep =>
        rw [hstep] at hlog
        rcases ih he with he | he
        · exact hlog e he
        · exact .inr he

theorem isWarning_of_mem_started {code : Code} {settings : Settings} {fuel : Nat} {input : Reader}
    {output : Sink} {e : Event} (he : e ∈ (runFor code settings.caps fuel (.initial settings)
      ⟨input, .onto output, [settings.started code.program]⟩).2.2.log) : e.isWarning = false := by
  rcases isWarning_of_mem_runFor he with he | he
  · rw [List.mem_singleton.1 he]
    rfl
  · exact he

/-! ### Two failures -/

/-- How ending the last line of the bytes that a sink was given fails, if it does: a line feed is missing,
and it is not accepted or not flushed. -/
def Sink.lineFailure? (k : Sink) (added : List UInt8) : Option Failure :=
  if added.getLast? = some LineWriter.newline then none
  else (k.writeFault k.writes).or (k.flushFault k.flushes)

/-- What leaves a run, and the warnings that it gives, if `raised` is what a step raised and `late` how
ending the last line failed. -/
def settle : (raised : Option Fault) → (late : Option Failure) → Ending × List Event
  | none, none => (.finished, [])
  | none, some f => (.failed (.failure f), [])
  | some φ, none => (.failed φ, [])
  | some φ, some f =>
    if f.kind.reported then (.failed φ, [.newlineFailed f.message]) else (.failed (.failure f), [])

/-- How the steps of a run end. -/
def Ending.ofFault? : Option Fault → Ending
  | none => .finished
  | some φ => .failed φ

namespace LineWriter.Added

variable {old added : List UInt8} {w : LineWriter}

theorem finalize_of_none (h : Added old added w) (hlate : w.sink.lineFailure? added = none) :
    ∃ w', w.finalize = (.ok (), w') := by
  unfold finalize
  split
  · exact ⟨w, rfl⟩
  · next hline =>
    rw [Sink.lineFailure?, if_neg (mt h.endsLine.2 hline), Option.or_eq_none_iff] at hlate
    rw [writeThrough_of_none hlate.1 hlate.2]
    exact ⟨_, rfl⟩

theorem finalize_of_some (h : Added old added w) {f : Failure}
    (hlate : w.sink.lineFailure? added = some f) : ∃ w', w.finalize = (.error f, w') := by
  unfold Sink.lineFailure? at hlate
  split at hlate
  · cases hlate
  · next hlast =>
    rw [finalize, if_neg (mt h.endsLine.1 hlast)]
    cases hwrite : w.sink.writeFault w.sink.writes with
    | some g =>
      rw [hwrite] at hlate
      cases hlate
      rw [writeThrough_of_writeFault hwrite]
      exact ⟨_, rfl⟩
    | none =>
      rw [hwrite] at hlate
      rw [writeThrough_of_flushFault hwrite hlate]
      exact ⟨_, rfl⟩

end LineWriter.Added

theorem Run.settled_close {old added : List UInt8} {io : Streams} (label : String)
    (raised : Option Fault) (m : Machine) (hadded : LineWriter.Added old added io.output)
    (hlog : ∀ e ∈ io.log, e.isWarning = false) :
    ((Run.close label (.ofFault? raised) m io).ending,
      (Run.close label (.ofFault? raised) m io).log.filter Event.isWarning) =
      settle raised (io.output.sink.lineFailure? added) := by
  have hsilent : io.log.reverse.filter Event.isWarning = [] :=
    List.filter_eq_nil_iff.2 fun e he => by simp [hlog e (List.mem_reverse.1 he)]
  cases hlate : io.output.sink.lineFailure? added with
  | none =>
    obtain ⟨w, hw⟩ := hadded.finalize_of_none hlate
    cases raised with
    | none => simp [Run.close, Ending.ofFault?, LineWriter.exit, hw, settle, hsilent, Event.isWarning]
    | some φ => simp [Run.close, Ending.ofFault?, LineWriter.exit, hw, settle, hsilent]
  | some f =>
    obtain ⟨w, hw⟩ := hadded.finalize_of_some hlate
    cases raised with
    | none => simp [Run.close, Ending.ofFault?, LineWriter.exit, hw, settle, hsilent]
    | some φ =>
      by_cases hreported : f.kind.reported = true
      · simp [Run.close, Ending.ofFault?, LineWriter.exit, hw, settle, hsilent, hreported, Event.isWarning]
      · simp [Run.close, Ending.ofFault?, LineWriter.exit, hw, settle, hsilent, hreported]

/-! ### Whole runs -/

/-- A run that was not given up has stopped where the program had finished or a step failed. -/
theorem Snapshot.EndsIn.exists_step {code : Code} {caps : Caps} {fuel : Nat} {s u : Snapshot}
    {e : Ending} (h : EndsIn code caps fuel s e u) (he : e ≠ .unfinished) :
    ∃ n t raised, s.after code caps n = some t ∧ (t.Finished code ∨ raised ≠ none) ∧
      t.step code caps = (raised, u) ∧ u.machine = t.machine ∧ e = .ofFault? raised := by
  cases e with
  | finished =>
    obtain ⟨n, -, hu, hfin⟩ := h
    exact ⟨n, u, none, hu, .inl hfin, (Stepped.finished hfin).eq, rfl, rfl⟩
  | failed φ =>
    obtain ⟨n, -, t, ht, -, hstep⟩ := h
    have hst := stepped code caps t
    rw [hstep] at hst
    exact ⟨n, t, some φ, ht, .inr (by simp), hstep, hst.machine_eq (by simp), rfl⟩
  | unfinished => exact absurd rfl he

/-- Where a run stops `interpret` stops, and what was raised is settled. -/
theorem interpret_settled {fuel : Nat} {code : Code} {settings : Settings} {input : Reader}
    {output : Sink} (hend : (interpret fuel code settings input output).ending ≠ .unfinished) :
    ∃ n t u raised added, (start settings input output).after code settings.caps n = some t ∧
      (t.Finished code ∨ raised ≠ none) ∧ t.step code settings.caps = (raised, u) ∧
      u.output.bytes = output.bytes ++ added ∧
      ((interpret fuel code settings input output).ending,
        (interpret fuel code settings input output).log.filter Event.isWarning) =
        settle raised (u.output.lineFailure? added) ∧
      (interpret fuel code settings input output).machine = t.machine := by
  have hstart : LineWriter.Added output.bytes []
      (⟨input, .onto output, [settings.started code.program]⟩ : Streams).output := .onto output
  obtain ⟨added, hadded⟩ := hstart.runFor code settings.caps fuel (.initial settings)
  have hlog : ∀ e ∈ (runFor code settings.caps fuel (.initial settings)
      ⟨input, .onto output, [settings.started code.program]⟩).2.2.log, e.isWarning = false :=
    fun _ => isWarning_of_mem_started
  have hspec := runFor_spec code settings.caps fuel (.initial settings)
    ⟨input, .onto output, [settings.started code.program]⟩
  unfold interpret at hend ⊢
  generalize runFor code settings.caps fuel _ _ = run at hend hadded hlog hspec ⊢
  obtain ⟨ending, m, io⟩ := run
  dsimp only at hend hadded hlog hspec ⊢
  obtain ⟨n, t, raised, ht, hstop, hstep, hmachine, rfl⟩ :=
    hspec.exists_step (mt (Run.ending_close_eq_unfinished_iff _ _ _ _).2 hend)
  refine ⟨n, t, of m io, raised, added, ht, hstop, hstep, hadded.bytes,
    Run.settled_close _ raised m hadded hlog, ?_⟩
  rw [Run.close_machine]
  exact hmachine

/-- Wherever a run stops `interpret` has ended, if it may try enough steps. -/
theorem interpret_ended {n fuel : Nat} {code : Code} {settings : Settings} {input : Reader}
    {output : Sink} {t : Snapshot}
    (ht : (start settings input output).after code settings.caps n = some t)
    (hstop : t.Finished code ∨ (t.step code settings.caps).1 ≠ none) (hfuel : n < fuel) :
    (interpret fuel code settings input output).ending ≠ .unfinished := by
  obtain ⟨e, he⟩ : ∃ e, t.ending? code settings.caps = some e := by
    unfold ending?
    by_cases hfin : t.Finished code
    · exact ⟨_, if_pos hfin⟩
    · obtain ⟨φ, hφ⟩ := Option.ne_none_iff_exists'.1 (hstop.resolve_left hfin)
      exact ⟨.failed φ, by rw [if_neg hfin, hφ]; rfl⟩
  have hof : start settings input output =
      of (.initial settings) ⟨input, .onto output, [settings.started code.program]⟩ := rfl
  rw [interpret, Ne, Run.ending_close_eq_unfinished_iff, (runFor_of_ending? (hof ▸ ht) he hfuel).1]
  rintro rfl
  exact ending?_ne_unfinished t he

theorem settle_eq_finished_iff {raised : Option Fault} {late : Option Failure} :
    (settle raised late).1 = .finished ↔ raised = none ∧ late = none := by
  cases raised <;> cases late <;> simp only [settle]
  case some.some φ f => split <;> simp
  all_goals simp

/-- **Which failure leaves a run.** Run a program that passed the check, on streams that fail when they
like. When `interpret` has ended, its run had stopped at a snapshot, because the program had finished there
or because a step failed. What that step raised is an error of the program, with its source and the
instruction at the program counter, if the pointer, the end of the input or a cap was the cause, or if a
stream failed in a way that is reported, which then is its cause and gives the reason; any other failure of
a stream is raised as it is. Then the last line was ended, which may have failed too. The run finished if
and only if neither failed. If one failed, that is what leaves the run. If both did, the fault of the step
leaves it and one warning tells the other, if that is of a kind that is reported; otherwise the other leaves
it. The machine is left as it was where the run stopped. Wherever a run stops, `interpret` has ended, if it
may try enough steps. -/
theorem run_raises (p : Program) (hp : p.check = .ok ()) (settings : Settings)
    (hkind : settings.kind ∈ CellKind.supported) (maxSteps maxOutput : Option Int)
    (hcaps : settings.caps = .ofInts maxSteps maxOutput) (input : Reader) (output : Sink) :
    ∃ code, Code.ofProgram p = .ok code ∧ code.program = p ∧
      (∀ fuel, (interpret fuel code settings input output).ending ≠ .unfinished →
        ∃ n t u raised added late,
          (start settings input output).after code settings.caps n = some t ∧
          (t.Finished code ∨ raised ≠ none) ∧ t.step code settings.caps = (raised, u) ∧
          (∀ φ, raised = some φ ↔ ∃ (i : Nat) (ins : Instruction) (cause : Cause), t.machine.pc = i ∧
            p.instructions[i]? = some ins ∧ t.Fails maxSteps maxOutput ins.opcode cause ∧
            φ = cause.fault p.source ins) ∧
          u.output.bytes = output.bytes ++ added ∧ late = u.output.lineFailure? added ∧
          ((interpret fuel code settings input output).ending = .finished ↔
            raised = none ∧ late = none) ∧
          ((interpret fuel code settings input output).ending,
            (interpret fuel code settings input output).log.filter Event.isWarning) =
            settle raised late ∧
          (interpret fuel code settings input output).machine = t.machine) ∧
      ∀ n t, (start settings input output).after code settings.caps n = some t →
        t.Finished code ∨ (t.step code settings.caps).1 ≠ none → ∀ fuel > n,
          (interpret fuel code settings input output).ending ≠ .unfinished := by
  have hbits := CellKind.eight_le_bits hkind
  obtain ⟨code, hof, rfl⟩ := Code.exists_ofProgram hp
  have hcode := Code.complete_of_check hp hof rfl
  refine ⟨code, hof, rfl, fun fuel hend => ?_, fun n t ht hstop fuel hfuel =>
    interpret_ended ht hstop hfuel⟩
  obtain ⟨n, t, u, raised, added, ht, hstop, hstep, hbytes, hsettled, hmachine⟩ := interpret_settled hend
  refine ⟨n, t, u, raised, added, _, ht, hstop, hstep, fun φ => ?_, hbytes, rfl, ?_, hsettled, hmachine⟩
  · rw [hcaps] at ht hstep
    have hkept := (Kept.initial code settings maxSteps maxOutput).after
      (s := start settings input output) hcode hbits ht
    rw [← fault_step_iff hcode hbits hkept, hstep]
  · rw [← settle_eq_finished_iff, ← hsettled]

/-- The program `.<` writes a byte and fails at the left edge. The flush of the line feed, which is the
second, fails as well, in a way that is reported: so the edge leaves the run, and one warning is given. -/
theorem run_raises_both :
    (Program.ofText (some "p") ".<").check = .ok () ∧ oneCell.kind ∈ CellKind.supported ∧
      oneCell.caps = .ofInts none none ∧
      ∃ code, Code.ofProgram (Program.ofText (some "p") ".<") = .ok code ∧
        (interpret 9 code oneCell (.ofBytes []) brittle).ending ≠ .unfinished ∧
        ∃ φ f, settle (some φ) (some f) =
          (.failed (.error ⟨.pointerUnderflow, some "p", some ⟨1, 2, .moveLeft⟩⟩ none),
            [.newlineFailed "I/O operation on closed file."]) ∧
          (interpret 9 code oneCell (.ofBytes []) brittle).ending = .failed φ ∧
          (interpret 9 code oneCell (.ofBytes []) brittle).log.filter Event.isWarning =
            [.newlineFailed f.message] := by
  refine ⟨rfl, by decide, rfl, ?_⟩
  obtain ⟨code, hof, -, hraises, -⟩ := run_raises (Program.ofText (some "p") ".<") rfl oneCell
    (by decide) none none rfl (.ofBytes []) brittle
  have hruns : (interpret 9 code oneCell (.ofBytes []) brittle).ending =
        .failed (.error ⟨.pointerUnderflow, some "p", some ⟨1, 2, .moveLeft⟩⟩ none) ∧
      (interpret 9 code oneCell (.ofBytes []) brittle).log.filter Event.isWarning =
        [.newlineFailed "I/O operation on closed file."] := by
    cases hof
    exact ⟨rfl, rfl⟩
  have hend : (interpret 9 code oneCell (.ofBytes []) brittle).ending ≠ .unfinished := by
    rw [hruns.1]
    exact fun h => nomatch h
  obtain ⟨n, t, u, raised, added, late, -, -, -, -, -, -, -, hsettled, -⟩ := hraises 9 hend
  refine ⟨code, hof, hend, ?_⟩
  rw [hruns.1, hruns.2] at hsettled ⊢
  -- only two failures give a warning
  cases raised <;> cases late <;> simp only [settle] at hsettled
  case some.some φ f =>
    refine ⟨φ, f, hsettled.symm, ?_⟩
    split at hsettled <;> simp_all
  all_goals simp at hsettled

end TapeMachine
