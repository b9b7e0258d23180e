import Mathlib
import TapeMachine.Proofs.BigStep
import TapeMachine.Proofs.Resumption
import TapeMachine.Proofs.Truncation

/-!
# What a run adds to its sink

A run writes a byte for each `.`, through a writer that remembers whether the last line was ended, and
in the end it ends that line. The sink may refuse any write and any flush. This module says which bytes
the sink has in the end, whatever it refused.

## The model

`printed` reads the bytes off the counted run: the low byte of the current cell at each `.` that was
executed. `unflushed` is the byte of a last `.` whose write was accepted and whose flush then failed;
its step is not executed, yet its byte is in the sink. `lineEnd` is the line feed that is added to bytes
that do not end in one, unless its own write is refused.

## What is proved

* `LineWriter.Added`: what a writer remembers is right. It knows whether the bytes *added* end a line,
  not whether the bytes of the sink do, and it is right also after a flush that failed.
* `bytes_after`, `Stepped.bytes_of_fault`: what the executed steps write, and what the step that fails
  writes.
* `Run.bytes_close`: what ending the last line writes.
* `run_writes`: all of it, for `interpret`.
-/

namespace TapeMachine

open Snapshot

/-! ### Writers that remember -/

/-- The line feed that ends the last line of some bytes, unless its write is refused. -/
def lineEnd (refused : Option Failure) (bytes : List UInt8) : List UInt8 :=
  if bytes.getLast? ≠ some LineWriter.newline ∧ refused = none then [LineWriter.newline] else []

namespace LineWriter

/-- The writer has added bytes to those that its sink held, and knows whether they end a line. -/
structure Added (old added : List UInt8) (w : LineWriter) : Prop where
  bytes : w.sink.bytes = old ++ added
  endsLine : w.endsLine = true ↔ added.getLast? = some newline

namespace Added

variable {old added : List UInt8} {w : LineWriter}

theorem onto (k : Sink) : Added k.bytes [] (.onto k) :=
  ⟨(List.append_nil _).symm, by simp [LineWriter.onto]⟩

theorem accepted (h : Added old added w) (b : UInt8) :
    Added old (added ++ [b]) ⟨w.sink.accepted b, b == newline⟩ :=
  ⟨by rw [Sink.bytes_accepted, h.bytes, List.append_assoc], by simp⟩

/-- A byte that is written and flushed keeps the writer right, whatever is refused. -/
theorem writeThrough (h : Added old added w) (b : UInt8) :
    ∃ added', Added old added' (w.writeThrough [b]).2 := by
  cases hw : w.sink.writeFault w.sink.writes with
  | some f =>
    rw [writeThrough_of_writeFault hw]
    exact ⟨added, h.bytes, h.endsLine⟩
  | none =>
    cases hf : w.sink.flushFault w.sink.flushes with
    | some f =>
      rw [writeThrough_of_flushFault hw hf]
      exact ⟨_, h.accepted b⟩
    | none =>
      rw [writeThrough_of_none hw hf]
      exact ⟨_, h.accepted b⟩

/-- The sink tells what was added, and so what the writer remembers. -/
theorem unique {added' : List UInt8} {w' : LineWriter} (h : Added old added w)
    (h' : Added old added' w') (hsink : w.sink = w'.sink) : w = w' := by
  have hsame : added = added' :=
    List.append_cancel_left (h.bytes.symm.trans ((congrArg Sink.bytes hsink).trans h'.bytes))
  have hline : w.endsLine = w'.endsLine := by
    rw [Bool.eq_iff_iff, h.endsLine, h'.endsLine, hsame]
  cases w
  cases w'
  exact congrArg₂ LineWriter.mk hsink hline

/-- Ending the last line adds a line feed if one is missing and its write is not refused. -/
theorem bytes_finalize (h : Added old added w) :
    w.finalize.2.sink.bytes =
      old ++ (added ++ lineEnd (w.sink.writeFault w.sink.writes) added) := by
  unfold finalize
  by_cases hline : w.endsLine = true
  · have hlast := h.endsLine.1 hline
    rw [if_pos hline, lineEnd, if_neg fun hne => hne.1 hlast, List.append_nil]
    exact h.bytes
  · have hlast : added.getLast? ≠ some newline := fun hlast => hline (h.endsLine.2 hlast)
    rw [if_neg hline]
    cases hw : w.sink.writeFault w.sink.writes with
    | some f =>
      rw [writeThrough_of_writeFault hw, lineEnd, if_neg fun hne => (nomatch hne.2),
        List.append_nil]
      exact h.bytes
    | none =>
      have hend : lineEnd none added = [newline] := if_pos ⟨hlast, rfl⟩
      rw [hend]
      cases hf : w.sink.flushFault w.sink.flushes with
      | some f =>
        rw [writeThrough_of_flushFault hw hf]
        exact (h.accepted newline).bytes
      | none =>
        rw [writeThrough_of_none hw hf]
        exact (h.accepted newline).bytes

end Added

theorem exit_snd (w : LineWriter) (failed : Bool) : (w.exit failed).2.1 = w.finalize.2 := by
  unfold exit
  rcases w.finalize with ⟨_ | _, w'⟩
  · dsimp only
    split <;> rfl
  · rfl

end LineWriter

section Writers

variable {code : Code} {caps : Caps} {old added : List UInt8} {io : Streams}

/-- A command leaves the writer alone, or has it write one byte. -/
theorem execute_output (jumps : JumpTable) (cap : Option Limit) (op : Opcode) (m : Machine)
    (io : Streams) :
    (execute jumps cap op m io).streams.output = io.output ∨
      ∃ b, (execute jumps cap op m io).streams.output = (io.output.writeThrough [b]).2 := by
  cases op with
  | moveRight =>
    -- a doubled tape is told in the log
    left
    simp only [execute]
    split
    · rfl
    · dsimp only
      split <;> rfl
  | output =>
    simp only [execute]
    split
    · exact .inl rfl
    · refine .inr ⟨UInt8.ofNat m.tape.byte.toNat, ?_⟩
      split <;> simp_all
  | moveLeft | input | beginLoop | endLoop =>
    left
    simp only [execute]
    repeat' split
    all_goals rfl
  | increment | decrement => exact .inl rfl

theorem LineWriter.Added.step (h : LineWriter.Added old added io.output) (code : Code) (caps : Caps)
    (m : Machine) :
    ∃ added', LineWriter.Added old added' (TapeMachine.step code caps m io).streams.output := by
  unfold TapeMachine.step
  split
  · exact ⟨added, h⟩
  · split
    · exact ⟨added, h⟩
    · split
      · exact ⟨added, h⟩
      · next ins _ _ _ =>
        rw [locate_eq]
        rcases execute_output code.jumps caps.output ins.opcode m io with heq | ⟨b, heq⟩
        · exact ⟨added, by rw [heq]; exact h⟩
        · rw [heq]
          exact h.writeThrough b

theorem LineWriter.Added.runFor (h : LineWriter.Added old added io.output) (code : Code)
    (caps : Caps) (fuel : Nat) (m : Machine) :
    ∃ added',
      LineWriter.Added old added' (TapeMachine.runFor code caps fuel m io).2.2.output := by
  induction fuel generalizing m io added with
  | zero => exact ⟨added, h⟩
  | succ fuel ih =>
    rw [TapeMachine.runFor]
    split
    · exact ⟨added, h⟩
    · obtain ⟨added', hstep⟩ := h.step code caps m
      split
      · next heq =>
        rw [heq] at hstep
        exact ⟨added', hstep⟩
      · next heq =>
        rw [heq] at hstep
        exact ih hstep _

end Writers

/-! ### Closing a run -/

theorem Run.output_close (label : String) {ending : Ending} (m : Machine) (io : Streams)
    (h : ending ≠ .unfinished) :
    (Run.close label ending m io).output = io.output.finalize.2.sink := by
  cases ending with
  | finished =>
    rw [← LineWriter.exit_snd io.output false]
    unfold Run.close
    rcases io.output.exit false with ⟨_ | f, w, told⟩ <;> rfl
  | failed f =>
    rw [← LineWriter.exit_snd io.output true]
    unfold Run.close
    rcases io.output.exit true with ⟨_ | f, w, told⟩ <;> rfl
  | unfinished => exact absurd rfl h

theorem Run.ending_close_eq_unfinished_iff (label : String) (ending : Ending) (m : Machine)
    (io : Streams) : (Run.close label ending m io).ending = .unfinished ↔ ending = .unfinished := by
  unfold Run.close
  cases ending with
  | finished => rcases io.output.exit false with ⟨_ | f, w, told⟩ <;> simp
  | failed f => rcases io.output.exit true with ⟨_ | f, w, told⟩ <;> simp
  | unfinished => simp

theorem Run.bytes_close (label : String) {ending : Ending} (m : Machine) {io : Streams}
    {old added : List UInt8} (h : ending ≠ .unfinished)
    (hadded : LineWriter.Added old added io.output) :
    (Run.close label ending m io).output.bytes =
      old ++ (added ++ lineEnd (io.output.sink.writeFault io.output.sink.writes) added) := by
  rw [Run.output_close label m io h, hadded.bytes_finalize]

/-! ### What the steps print -/

namespace Snapshot

variable {code : Code} {caps : Caps} {s t u : Snapshot}

/-- What the instruction at the program counter prints: the low byte of the current cell, if it is a
`.`, and nothing otherwise. -/
def prints? (code : Code) (s : Snapshot) : Option UInt8 :=
  if code.writesAt s.machine.pc then some (UInt8.ofInt s.machine.tape.current) else none

/-- What the first `n` steps of a run print. -/
def printed (code : Code) (caps : Caps) (s : Snapshot) (n : Nat) : List UInt8 :=
  (List.range n).filterMap fun j => (s.after code caps j).bind (prints? code)

/-- The byte of a last `.` that was written before its flush failed. -/
def unflushed (t u : Snapshot) : List UInt8 :=
  if FlushFails t u then [UInt8.ofInt t.machine.tape.current] else []

@[simp] theorem printed_zero (s : Snapshot) : s.printed code caps 0 = [] := rfl

theorem printed_succ {n : Nat} (h : s.after code caps n = some t) :
    s.printed code caps (n + 1) = s.printed code caps n ++ (t.prints? code).toList := by
  have hlast : [n].filterMap (fun j => (s.after code caps j).bind (prints? code)) =
      (t.prints? code).toList := by
    cases hb : t.prints? code <;> simp [h, hb]
  rw [printed, List.range_succ, List.filterMap_append, hlast]
  rfl

theorem prints?_of_fetch {ins : Instruction} (hi : code.fetch? s.machine.pc = some ins) :
    s.prints? code =
      if ins.opcode = .output then some (UInt8.ofInt s.machine.tape.current) else none := by
  simp [prints?, Code.writesAt_of_fetch hi]

theorem unflushed_of_output_eq (h : u.output = t.output) : unflushed t u = [] :=
  if_neg (not_flushFails_of_output_eq h)

/-- An executed command writes its byte if it is a `.`, and nothing otherwise; the bytes are
counted. -/
theorem Executes.printed {jumps : JumpTable} {cap : Option Limit} {op : Opcode} {f : Option Fault}
    (h : Executes jumps cap s op f t) (hf : f = none) :
    let b := if op = .output then some (UInt8.ofInt s.machine.tape.current) else none
    t.output.bytes = s.output.bytes ++ b.toList ∧
      t.machine.outputBytes = s.machine.outputBytes + b.toList.length := by
  cases h with
  | written => exact ⟨Sink.bytes_accepted _ _, rfl⟩
  | capped | leftEdge | rightEdge | readEnd | readFails | writeFails | flushFails | openAlone
  | closeAlone => cases hf
  | _ => exact ⟨(List.append_nil _).symm, (Int.add_zero _).symm⟩

/-- A command that fails writes a byte only if the flush of that byte is what fails. -/
theorem Executes.bytes_of_fault {jumps : JumpTable} {cap : Option Limit} {op : Opcode}
    {f : Option Fault} (h : Executes jumps cap t op f u) (hf : f ≠ none) :
    u.output.bytes = t.output.bytes ++ unflushed t u := by
  have hsame : u.output = t.output → u.output.bytes = t.output.bytes ++ unflushed t u := by
    intro heq
    rw [unflushed_of_output_eq heq, List.append_nil, heq]
  cases h with
  | writeFails =>
    have hno : ¬ FlushFails t { t with output := t.output.refused [t.machine.outByte] } := by
      rintro ⟨hcount, -⟩
      simp [Sink.refused] at hcount
    rw [unflushed, if_neg hno, List.append_nil]
    rfl
  | flushFails _ _ hfault =>
    have hyes : FlushFails t { t with output := t.output.accepted t.machine.outByte } :=
      ⟨rfl, by simp [hfault]⟩
    rw [unflushed, if_pos hyes]
    exact Sink.bytes_accepted _ _
  | leftEdge | rightEdge | readEnd | readFails | capped | openAlone | closeAlone => exact hsame rfl
  | _ => exact absurd rfl hf

theorem Stepped.printed (h : Stepped code caps s none t) (hr : ¬ s.Finished code) :
    t.output.bytes = s.output.bytes ++ (s.prints? code).toList ∧
      t.machine.outputBytes = s.machine.outputBytes + (s.prints? code).toList.length := by
  generalize hf : (none : Option Fault) = f at h
  cases h with
  | finished h => exact absurd h hr
  | noInstruction | capped => cases hf
  | executed _ hi _ he =>
    rw [prints?_of_fetch hi]
    exact he.printed (by simpa using hf.symm)

theorem Stepped.bytes_of_fault {f : Option Fault} (h : Stepped code caps t f u) :
    f ≠ none ∨ t.Finished code → u.output.bytes = t.output.bytes ++ unflushed t u := by
  intro hstop
  have hself : t.output.bytes = t.output.bytes ++ unflushed t t := by
    rw [unflushed_of_output_eq rfl, List.append_nil]
  cases h with
  | executed hr _ _ he =>
    refine he.bytes_of_fault ?_
    rcases hstop with hf | hfin
    · simpa using hf
    · exact absurd hfin hr
  | _ => exact hself

/-- **What the executed steps write**: the bytes that they print, each once. -/
theorem bytes_after {n : Nat} (h : s.after code caps n = some t) :
    t.output.bytes = s.output.bytes ++ s.printed code caps n ∧
      t.machine.outputBytes = s.machine.outputBytes + (s.printed code caps n).length := by
  induction n generalizing t with
  | zero =>
    cases h
    simp
  | succ n ih =>
    obtain ⟨v, hv, hr, hstep⟩ := after_succ_right_iff.1 h
    have hst := stepped code caps v
    rw [hstep] at hst
    obtain ⟨hbytes, hcount⟩ := ih hv
    obtain ⟨hbytes', hcount'⟩ := hst.printed hr
    rw [printed_succ hv, hbytes', hcount', hbytes, hcount, List.append_assoc, List.length_append]
    exact ⟨rfl, by omega⟩

theorem bytes_of_ending? {n : Nat} {e : Ending} (h : s.after code caps n = some t)
    (he : t.ending? code caps = some e) :
    (t.step code caps).2.output.bytes =
      s.output.bytes ++ (s.printed code caps n ++ unflushed t (t.step code caps).2) := by
  have hstop : (t.step code caps).1 ≠ none ∨ t.Finished code := by
    by_cases hfin : t.Finished code
    · exact .inr hfin
    · rw [ending?, if_neg hfin] at he
      exact .inl fun hnone => by rw [hnone] at he; cases he
  rw [(stepped code caps t).bytes_of_fault hstop, (bytes_after h).1, List.append_assoc]

theorem EndsIn.exists_ending? {fuel : Nat} {e : Ending} (h : EndsIn code caps fuel s e u)
    (he : e ≠ .unfinished) :
    ∃ n ≤ fuel, ∃ t, s.after code caps n = some t ∧ t.ending? code caps = some e ∧
      u = (t.step code caps).2 := by
  cases e with
  | finished =>
    obtain ⟨n, hn, hu, hfin⟩ := h
    exact ⟨n, hn, u, hu, if_pos hfin, by rw [(Stepped.finished hfin).eq]⟩
  | failed f =>
    obtain ⟨n, hn, t, ht, hr, hstep⟩ := h
    exact ⟨n, hn.le, t, ht, by rw [ending?, if_neg hr, hstep]; rfl, by rw [hstep]⟩
  | unfinished => exact absurd rfl he

theorem ending?_ne_unfinished (t : Snapshot) : t.ending? code caps ≠ some .unfinished := by
  unfold ending?
  split
  · simp
  · cases (t.step code caps).1 <;> simp

theorem machine_step_of_ending? {e : Ending} (h : t.ending? code caps = some e) :
    (t.step code caps).2.machine = t.machine := by
  by_cases hfin : t.Finished code
  · rw [(Stepped.finished hfin).eq]
  · refine (stepped code caps t).machine_eq fun hnone => ?_
    rw [ending?, if_neg hfin, hnone] at h
    cases h

/-- No run changes the schedule of the writes that fail. -/
theorem writeFault_after {n : Nat} (h : s.after code caps n = some t) :
    t.output.writeFault = s.output.writeFault :=
  after_induction (P := fun v => v.output.writeFault = s.output.writeFault)
    (fun _ _ hv _ hst => hst.faults_eq.2.1.trans hv) h rfl

end Snapshot

/-! ### Whole runs -/

/-- `interpret` closes a run whose end can be read off the counted runs, and whose writer is right. -/
theorem interpret_eq_close (fuel : Nat) (code : Code) (settings : Settings) (input : Reader)
    (output : Sink) :
    ∃ ending m io added,
      interpret fuel code settings input output = Run.close code.program.label ending m io ∧
      EndsIn code settings.caps fuel (start settings input output) ending (of m io) ∧
      LineWriter.Added output.bytes added io.output := by
  have hstart : LineWriter.Added output.bytes []
      (⟨input, .onto output, [settings.started code.program]⟩ : Streams).output := .onto output
  obtain ⟨added, hadded⟩ := hstart.runFor code settings.caps fuel (.initial settings)
  exact ⟨_, _, _, added, rfl, runFor_spec code settings.caps fuel (.initial settings) _, hadded⟩

/-- What the sink holds after a run that ended at `t`. -/
theorem Run.bytes_close_of_ending? {code : Code} {caps : Caps} {s t : Snapshot} {n : Nat}
    {label : String} {ending : Ending} {m : Machine} {io : Streams} {added : List UInt8}
    (hadded : LineWriter.Added s.output.bytes added io.output) (hne : ending ≠ .unfinished)
    (ht : s.after code caps n = some t) (he : t.ending? code caps = some ending)
    (hu : of m io = (t.step code caps).2) :
    (Run.close label ending m io).output.bytes =
      s.output.bytes ++ (s.printed code caps n ++ unflushed t (of m io) ++
        lineEnd (s.output.writeFault (of m io).output.writes)
          (s.printed code caps n ++ unflushed t (of m io))) := by
  have hbytes := bytes_of_ending? ht he
  have hfault : io.output.sink.writeFault = s.output.writeFault :=
    (congrArg (·.output.writeFault) hu).trans
      ((stepped code caps t).faults_eq.2.1.trans (writeFault_after ht))
  rw [← hu] at hbytes
  -- the bytes that the writer has added are those printed, and the one that was not flushed
  obtain rfl : added = _ := List.append_cancel_left (hadded.bytes.symm.trans hbytes)
  rw [Run.bytes_close label m hne hadded, hfault]
  rfl

theorem Snapshot.unflushed_of_healthy {t : Snapshot} (h : t.output.Healthy) (u : Snapshot) :
    unflushed t u = [] :=
  if_neg fun hflush => hflush.2 (h.2 _)

/-- On streams that never fail a run ends as its steps do, and it adds what they print, with the last
line ended. -/
theorem interpret_of_healthy {fuel : Nat} {code : Code} {settings : Settings} {input : Reader}
    {output : Sink} (hinput : input.Healthy) (houtput : output.Healthy)
    (hend : (interpret fuel code settings input output).ending ≠ .unfinished) :
    ∃ n t, (start settings input output).after code settings.caps n = some t ∧
      t.ending? code settings.caps = some (interpret fuel code settings input output).ending ∧
      (interpret fuel code settings input output).machine = t.machine ∧
      (interpret fuel code settings input output).output.bytes = output.bytes ++
        ((start settings input output).printed code settings.caps n ++
          lineEnd none ((start settings input output).printed code settings.caps n)) := by
  obtain ⟨ending, m, io, added, hrun, hends, hadded⟩ :=
    interpret_eq_close fuel code settings input output
  rw [hrun] at hend ⊢
  have hne : ending ≠ .unfinished := mt (Run.ending_close_eq_unfinished_iff _ _ _ _).2 hend
  obtain ⟨n, -, t, ht, he, hu⟩ := hends.exists_ending? hne
  have hhealthy : t.Healthy := healthy_after ht ⟨hinput, houtput⟩
  have hlast : (of m io).Healthy := hu ▸ (stepped code settings.caps t).healthy hhealthy
  refine ⟨n, t, ht, ?_, ?_, ?_⟩
  · rw [Run.ending_close _ _ _ hlast.2, he]
  · rw [Run.close_machine]
    exact (congrArg Snapshot.machine hu).trans (machine_step_of_ending? he)
  · have hbytes : (Run.close code.program.label ending m io).output.bytes = _ :=
      Run.bytes_close_of_ending? hadded hne ht he hu
    have hwrite : (start settings input output).output.writeFault (of m io).output.writes = none :=
      houtput.1 _
    rw [unflushed_of_healthy hhealthy.2, List.append_nil, hwrite] at hbytes
    exact hbytes

/-- **What a run adds to its sink.** When `interpret` has ended, finished or failed, its run has
executed some number of steps and stopped at a snapshot. Its sink then holds, after the bytes that it
held before, the bytes that these steps printed, which are as many as are counted; the byte of the last
`.` if the run stopped because its flush failed; and a line feed if these bytes do not end in one and
the write of the line feed, the next that the sink is asked for, does not fail. And wherever the counted
run comes to an end, `interpret` has ended, if it may try enough steps. -/
theorem run_writes (code : Code) (settings : Settings) (input : Reader) (output : Sink) :
    (∀ fuel, (interpret fuel code settings input output).ending ≠ .unfinished →
      ∃ n t u e printed lost,
        (start settings input output).after code settings.caps n = some t ∧
        t.ending? code settings.caps = some e ∧ u = (t.step code settings.caps).2 ∧
        printed = (start settings input output).printed code settings.caps n ∧
        lost = unflushed t u ∧
        (interpret fuel code settings input output).machine = t.machine ∧
        (interpret fuel code settings input output).machine.outputBytes = printed.length ∧
        (interpret fuel code settings input output).output.bytes =
          output.bytes ++
            (printed ++ lost ++ lineEnd (output.writeFault u.output.writes) (printed ++ lost))) ∧
    ∀ n t e, (start settings input output).after code settings.caps n = some t →
      t.ending? code settings.caps = some e → ∀ fuel > n,
        (interpret fuel code settings input output).ending ≠ .unfinished := by
  refine ⟨fun fuel hend => ?_, fun n t e ht he fuel hfuel => ?_⟩
  · obtain ⟨ending, m, io, added, hrun, hends, hadded⟩ :=
      interpret_eq_close fuel code settings input output
    rw [hrun] at hend ⊢
    have hne : ending ≠ .unfinished := mt (Run.ending_close_eq_unfinished_iff _ _ _ _).2 hend
    obtain ⟨n, -, t, ht, he, hu⟩ := hends.exists_ending? hne
    have hmachine : m = t.machine :=
      (congrArg Snapshot.machine hu).trans (machine_step_of_ending? he)
    refine ⟨n, t, of m io, ending, _, _, ht, he, hu, rfl, rfl, ?_, ?_, ?_⟩
    · rw [Run.close_machine, hmachine]
    · rw [Run.close_machine, hmachine, (bytes_after ht).2]
      exact Int.zero_add _
    · exact Run.bytes_close_of_ending? hadded hne ht he hu
  · rw [interpret, Ne, Run.ending_close_eq_unfinished_iff]
    have hof : start settings input output =
        of (.initial settings) ⟨input, .onto output, [settings.started code.program]⟩ := rfl
    rw [(runFor_of_ending? (hof ▸ ht) he hfuel).1]
    rintro rfl
    exact absurd he (ending?_ne_unfinished t)

/-- A sink whose second flush fails. -/
def brittle : Sink := ⟨[7], [], 0, 0, fun _ => none, fun n => if n = 1 then some .closed else none⟩

/-- The program `,.,.` copies the bytes 65 and 10. The flush of the second one fails: it is not counted,
yet it is in the sink, and as it ends the line nothing is added to it. -/
theorem run_writes_brittle :
    ∃ code, Code.ofProgram (Program.ofText (some "p") ",.,.") = .ok code ∧
      (interpret 9 code oneCell (.ofBytes [65, 10]) brittle).ending ≠ .unfinished ∧
      (interpret 9 code oneCell (.ofBytes [65, 10]) brittle).output.bytes = [7, 65, 10] ∧
      ∃ n t u e printed lost,
        (start oneCell (.ofBytes [65, 10]) brittle).after code .none n = some t ∧
        t.ending? code .none = some e ∧ u = (t.step code .none).2 ∧
        printed = (start oneCell (.ofBytes [65, 10]) brittle).printed code .none n ∧
        lost = unflushed t u ∧ printed.length = 1 ∧
        [7, 65, 10] = [7] ++ (printed ++ lost ++ lineEnd none (printed ++ lost)) := by
  have hruns : ∀ code, Code.ofProgram (Program.ofText (some "p") ",.,.") = .ok code →
      (interpret 9 code oneCell (.ofBytes [65, 10]) brittle).ending ≠ .unfinished ∧
      (interpret 9 code oneCell (.ofBytes [65, 10]) brittle).machine.outputBytes = 1 ∧
      (interpret 9 code oneCell (.ofBytes [65, 10]) brittle).output.bytes = [7, 65, 10] := by
    intro code hcode
    cases hcode
    exact ⟨fun h => (nomatch h), rfl, rfl⟩
  refine ⟨_, rfl, (hruns _ rfl).1, (hruns _ rfl).2.2, ?_⟩
  obtain ⟨n, t, u, e, printed, lost, ht, he, hu, hprinted, hlost, -, hcount, hbytes⟩ :=
    (run_writes _ oneCell (.ofBytes [65, 10]) brittle).1 9 (hruns _ rfl).1
  rw [(hruns _ rfl).2.1] at hcount
  rw [(hruns _ rfl).2.2] at hbytes
  exact ⟨n, t, u, e, printed, lost, ht, he, hu, hprinted, hlost, by exact_mod_cast hcount.symm, hbytes⟩

end TapeMachine
