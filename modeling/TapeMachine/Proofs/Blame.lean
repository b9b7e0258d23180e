import Mathlib
import TapeMachine.Evaluation
import TapeMachine.Proofs.Printing
import TapeMachine.Proofs.Scan
import TapeMachine.Proofs.Truncation

/-!
# Errors blame the right character

A report may hold an error, and the error names a place: a source, a row, a column and a command. The
place comes a long way. The scanner counts it, the instruction carries it, the tape raises its errors
without it, and the step fills it in. This module follows it from the text to the report.

## What is proved

* `Program.blames_of_check`: the bracket check blames an instruction of the program.
* `Stepped.blames`: a step that fails with an error blames the instruction at the program counter.
* `CodeFits`: which character an error with a given code can be blamed on. A run in memory has no error
  of writing.
* `Error.BlamesCharacter`: what the table of an error tells about its place is true of the text.
* `errors_blame_character`: the character at the row and column of a report's error is its command; the
  steps and the output of the report are those of the run up to the instruction that is blamed.

Settings are arbitrary here: with settings that cannot be used there is no report.
-/

namespace TapeMachine

open Snapshot

/-! ### What is blamed -/

/-- The characters that an error with a code can be blamed on. -/
inductive CodeFits : (code : String) → Char → Prop where
  | unmatchedOpen : CodeFits "UNMATCHED_OPEN" '['
  | unmatchedClose : CodeFits "UNMATCHED_CLOSE" ']'
  | pointerUnderflow : CodeFits "POINTER_UNDERFLOW" '<'
  | pointerOverflow : CodeFits "POINTER_OVERFLOW" '>'
  | readError : CodeFits "READ_ERROR" ','
  | outputLimit : CodeFits "OUTPUT_LIMIT" '.'
  /-- Any instruction may be one too many. -/
  | stepLimit (c : Char) : CodeFits "STEP_LIMIT" c

theorem CodeFits.ne_writeError {code : String} {c : Char} (h : CodeFits code c) :
    code ≠ "WRITE_ERROR" := by
  cases h <;> decide

/-- The error is blamed on an instruction of the source, and its code fits the command there. -/
structure Error.Blames (e : Error) (source : Option String) (i : Instruction) : Prop where
  source : e.source = source
  place : e.place = some i.place
  fits : CodeFits e.code i.opcode.symbol

/-! ### Brackets -/

/-- The bracket that the check blames is among those it was given, and it is of the right kind. -/
theorem Program.bracketFault?_blames {pending l : List Instruction} {problem : Problem}
    {i : Instruction} (hpending : ∀ j ∈ pending, j.opcode = .beginLoop)
    (h : bracketFault? pending l = some (problem, i)) :
    (i ∈ pending ∨ i ∈ l) ∧ (problem = .unmatchedOpen ∧ i.opcode = .beginLoop ∨
      problem = .unmatchedClose ∧ i.opcode = .endLoop) := by
  fun_induction bracketFault? pending l with
  | case1 pending =>
    obtain ⟨j, hj, heq⟩ := Option.map_eq_some_iff.1 h
    cases heq
    have hmem := List.mem_of_getLast? hj
    exact ⟨.inl hmem, .inl ⟨rfl, hpending i hmem⟩⟩
  | case2 pending j rest hop ih =>
    obtain ⟨hmem, hkind⟩ := ih (by simpa [hop] using hpending) h
    refine ⟨?_, hkind⟩
    simp only [List.mem_cons] at hmem ⊢
    tauto
  | case3 j rest hop =>
    cases h
    exact ⟨.inr List.mem_cons_self, .inr ⟨rfl, hop⟩⟩
  | case4 j rest hop k pending ih =>
    obtain ⟨hmem, hkind⟩ := ih (fun x hx => hpending x (List.mem_cons_of_mem _ hx)) h
    refine ⟨?_, hkind⟩
    simp only [List.mem_cons] at hmem ⊢
    tauto
  | case5 pending j rest _ _ ih =>
    obtain ⟨hmem, hkind⟩ := ih hpending h
    refine ⟨?_, hkind⟩
    simp only [List.mem_cons] at hmem ⊢
    tauto

theorem Program.blames_of_check {p : Program} {e : Error} (h : p.check = .error e) :
    ∃ i ∈ p.instructions, e.Blames p.source i ∧ Kind.bracket ∈ e.problem.kind.family := by
  unfold Program.check at h
  split at h
  · cases h
  · next problem i hfault =>
    cases h
    obtain ⟨hmem, hkind⟩ := bracketFault?_blames (fun j hj => absurd hj (List.not_mem_nil)) hfault
    have hi : i ∈ p.instructions := by simpa using hmem
    rcases hkind with ⟨rfl, hop⟩ | ⟨rfl, hop⟩
    · exact ⟨i, hi, ⟨rfl, rfl, by rw [hop]; exact .unmatchedOpen⟩, by simp [Problem.kind, Kind.family]⟩
    · exact ⟨i, hi, ⟨rfl, rfl, by rw [hop]; exact .unmatchedClose⟩, by simp [Problem.kind, Kind.family]⟩

/-! ### Steps -/

/-- A cap is reported as the problem that it stands for. -/
theorem eq_unplaced_of_capFault? {k : Int} {problem : Limit → Problem} {cap : Option Limit}
    {e : Error} {cause : Option Failure} (h : capFault? k problem cap = some (.error e cause)) :
    ∃ l, e = .unplaced (problem l) := by
  unfold capFault? at h
  split at h
  · cases h
  · next l =>
    split at h
    · cases h
    · cases h
      exact ⟨l, rfl⟩
    · cases h

theorem Fault.eq_error_of_locate {f : Fault} {source : Option String} {ins : Instruction} {e : Error}
    {cause : Option Failure} (h : f.locate source ins = .error e cause) :
    ∃ e', f = .error e' cause ∧ e = e'.locate source (some ins.place) := by
  cases f with
  | error e' cause' =>
    cases h
    exact ⟨e', rfl, rfl⟩
  | _ => cases h

/-- Locating an error that has no place yet blames it on the instruction. -/
theorem Error.blames_locate {problem : Problem} {source : Option String} {ins : Instruction}
    (h : CodeFits problem.kind.code ins.opcode.symbol) :
    ((Error.unplaced problem).locate source (some ins.place)).Blames source ins := by
  refine ⟨?_, rfl, h⟩
  simp [Error.unplaced, Error.locate]

namespace Snapshot

variable {code : Code} {caps : Caps} {s t : Snapshot}

/-- On streams that never fail, an error of a command has no place yet, and its code fits the
command. -/
theorem Executes.fits {jumps : JumpTable} {cap : Option Limit} {op : Opcode} {f : Option Fault}
    {e : Error} {cause : Option Failure} (h : Executes jumps cap s op f t) (hs : s.Healthy)
    (hf : f = some (.error e cause)) :
    ∃ problem, e = .unplaced problem ∧ CodeFits problem.kind.code op.symbol ∧
      Kind.runtime ∈ problem.kind.family := by
  cases h with
  | leftEdge =>
    cases hf
    exact ⟨_, rfl, .pointerUnderflow, by decide⟩
  | rightEdge =>
    cases hf
    exact ⟨_, rfl, .pointerOverflow, by decide⟩
  | readEnd =>
    cases hf
    exact ⟨_, rfl, .readError, by simp [Problem.kind, Kind.family]⟩
  | capped hc =>
    cases hf
    obtain ⟨l, rfl⟩ := eq_unplaced_of_capFault? hc
    exact ⟨_, rfl, .outputLimit, by simp [Problem.kind, Kind.family]⟩
  | readFails hr =>
    rw [hs.1] at hr
    cases hr
  | writeFails _ hw =>
    rw [hs.2.1] at hw
    cases hw
  | flushFails _ _ hw =>
    rw [hs.2.2] at hw
    cases hw
  | openAlone => cases hf
  | closeAlone => cases hf
  | _ => cases hf

/-- **A step blames the instruction at the program counter.** -/
theorem Stepped.blames {f : Option Fault} {e : Error} {cause : Option Failure}
    (h : Stepped code caps s f t) (hs : s.Healthy) (hf : f = some (.error e cause)) :
    ∃ ins, code.fetch? s.machine.pc = some ins ∧ e.Blames code.program.source ins ∧
      Kind.runtime ∈ e.problem.kind.family := by
  cases h with
  | finished => cases hf
  | noInstruction => cases hf
  | @capped ins φ _ hi hc =>
    obtain ⟨e', rfl, rfl⟩ := Fault.eq_error_of_locate (Option.some.inj hf)
    obtain ⟨l, rfl⟩ := eq_unplaced_of_capFault? hc
    exact ⟨ins, hi, Error.blames_locate (.stepLimit _),
      by simp [Error.locate, Error.unplaced, Problem.kind, Kind.family]⟩
  | @executed ins φ _ _ hi _ he =>
    obtain ⟨ψ, rfl, hψ⟩ := Option.map_eq_some_iff.1 hf
    obtain ⟨e', rfl, rfl⟩ := Fault.eq_error_of_locate hψ
    obtain ⟨problem, rfl, hfits, hkind⟩ := he.fits hs rfl
    exact ⟨ins, hi, Error.blames_locate hfits, hkind⟩

theorem Executes.pc_nonneg {jumps : JumpTable} {cap : Option Limit} {op : Opcode} {f : Option Fault}
    (h : Executes jumps cap s op f t) (hs : 0 ≤ s.machine.pc) : 0 ≤ t.machine.pc := by
  have hnext : 0 ≤ s.machine.pc + 1 := by omega
  have hjump : ∀ i : Nat, (0 : Int) ≤ i + 1 := fun i => by omega
  cases h with
  | left | right | increment | decrement | read | written | enter | leave => exact hnext
  | skip | again => exact hjump _
  | _ => exact hs

theorem Stepped.pc_nonneg {f : Option Fault} (h : Stepped code caps s f t) (hs : 0 ≤ s.machine.pc) :
    0 ≤ t.machine.pc := by
  cases h with
  | executed _ _ _ he => exact he.pc_nonneg hs
  | _ => exact hs

theorem pc_nonneg_after {n : Nat} (h : s.after code caps n = some t) (hs : 0 ≤ s.machine.pc) :
    0 ≤ t.machine.pc :=
  after_induction (P := fun v => 0 ≤ v.machine.pc) (fun _ _ hv _ hst => hst.pc_nonneg hv) h hs

end Snapshot

theorem Code.exists_of_fetch {code : Code} {pc : Int} {ins : Instruction} (hpc : 0 ≤ pc)
    (h : code.fetch? pc = some ins) :
    ∃ i : Nat, pc = i ∧ code.program.instructions[i]? = some ins := by
  obtain ⟨i, rfl⟩ := Int.eq_ofNat_of_zero_le hpc
  exact ⟨i, rfl, h⟩

/-! ### Reports -/

theorem lengthOf_ne_brackets (room : Room) (v : Value) (e : Error) :
    lengthOf room v ≠ .error (.brackets e) := by
  have hint : ∀ n, lengthOfInt room n ≠ .error (.brackets e) := by
    intro n
    unfold lengthOfInt
    split_ifs <;> simp
  cases v with
  | int n => exact hint n
  | bool b => exact hint _
  | real x =>
    rw [lengthOf]
    split_ifs <;> simp
  | _ => simp [lengthOf]

theorem checkLength_ne_brackets (v : Value) (e : Error) : checkLength v ≠ .error (.brackets e) := by
  unfold checkLength
  split
  · split_ifs <;> simp
  · split_ifs <;> simp
  · split_ifs <;> simp
  · simp

theorem widthOf_ne_brackets (v : Value) (e : Error) : widthOf v ≠ .error (.brackets e) := by
  unfold widthOf
  split
  · simp
  · split <;> simp

theorem Setup.check_of_brackets {room : Room} {p : Program} {c : Config} {e : Error}
    (h : Setup.ofConfig room p c = .error (.brackets e)) : p.check = .error e := by
  unfold Setup.ofConfig at h
  split at h
  · next e' hlength =>
    cases h
    exact absurd hlength (checkLength_ne_brackets _ _)
  · split at h
    · next e' hcode =>
      cases h
      unfold Code.ofProgram at hcode
      split at hcode
      · next e' hcheck =>
        cases hcode
        exact hcheck
      · cases hcode
    · split at h
      · next e' hwidth =>
        cases h
        exact absurd hwidth (widthOf_ne_brackets _ _)
      · next kind _ =>
        unfold Setup.settings at h
        dsimp only at h
        split at h
        · next e' hlength =>
          cases h
          exact absurd hlength (lengthOf_ne_brackets _ _ _)
        · cases h

theorem Code.program_of_ofProgram {p : Program} {code : Code} (h : Code.ofProgram p = .ok code) :
    code.program = p := by
  unfold Code.ofProgram at h
  split at h <;> cases h
  rfl

namespace Evaluation

/-- A report with an error is the report of a run that failed with it. -/
theorem eq_reportOn_of_ofRun {run : Run} {report : Report} {e : Error} (h : ofRun run = .ok report)
    (he : report.error = some e) :
    ∃ cause, run.ending = .failed (.error e cause) ∧
      report = reportOn run.output run.machine.steps (some e) := by
  obtain ⟨error, hverdict, rfl⟩ := ofRun_eq_ok h
  cases he
  rcases Ending.verdict_eq_ok hverdict with ⟨-, hnone⟩ | ⟨e', cause, hending, hsome, -⟩
  · cases hnone
  · cases hsome
    exact ⟨cause, hending, rfl⟩

/-- Where a report comes from: from the bracket check, or from a run. -/
theorem run_eq_ok {room : Room} {patience : Nat} {source : Option String} {text : String}
    {input : List UInt8} {settings : Value} {report : Report}
    (h : run room patience source text input settings = .ok report) :
    (∃ e, (Program.ofText source text).check = .error e ∧
        report = reportOn .healthy 0 (some e)) ∨
      ∃ config code setup s, Config.ofSettings settings = .ok config ∧
        Setup.ofConfig room (Program.ofText source text) config = .ok (code, setup, s) ∧
        ofRun (interpret (s.caps.fuel patience) code s (.ofBytes input) .healthy) = .ok report := by
  unfold run at h
  split at h
  · cases h
  · next config hconfig =>
    split at h
    · next e hbrackets =>
      cases h
      exact .inl ⟨e, Setup.check_of_brackets hbrackets, rfl⟩
    · cases h
    · next code setup s hsetup => exact .inr ⟨config, code, setup, s, hconfig, hsetup, h⟩

end Evaluation

/-- As its table tells it, the error has the source and is blamed on a character of the text, which its
code fits. A failed write is never blamed on a text. -/
def Error.BlamesCharacter (e : Error) (id : String) (text : List Char) : Prop :=
  ∃ (line column : Nat) (c : Char),
    e.details.field? "source" = some (.text id) ∧
    e.details.field? "line" = some (.int line) ∧
    e.details.field? "column" = some (.int column) ∧
    e.details.field? "opcode" = some (.text c.toString) ∧
    e.details.field? "code" = some (.text e.code) ∧
    Text.charAt? text line column = some c ∧ CodeFits e.code c ∧ e.code ≠ "WRITE_ERROR"

/-- An error that is blamed on an instruction of a text is blamed on a character of it. -/
theorem Error.Blames.character {e : Error} {id : String} {i : Instruction} {text : List Char}
    (h : e.Blames (some id) i) (hi : i ∈ Program.parse text) : e.BlamesCharacter id text := by
  refine ⟨i.row, i.col, i.opcode.symbol, ?_, ?_, ?_, ?_, ?_, Program.mem_parse_iff.1 hi, h.fits,
    h.fits.ne_writeError⟩
  all_goals
    simp [Error.details, Value.field?, List.lookup, h.source, h.place, Instruction.place]

/-- **Errors blame the right character.** Let the report on a text hold an error, whatever the settings
are. The error has the given source; the character in its line and column is its command; and its code
fits that command and is not that of a failed write. An error of the brackets comes with no steps and no
output. Any other error was raised by the step that the run tried after the steps that are reported: it
is blamed on the instruction at the program counter, and the output is the text of the bytes that these
steps printed, with the last line ended. -/
theorem errors_blame_character (room : Room) (patience : Nat) (id text : String) (input : List UInt8)
    (settings : Value) (report : Report) (e : Error)
    (hrun : Evaluation.run room patience (some id) text input settings = .ok report)
    (he : report.error = some e) :
    e.BlamesCharacter id text.toList ∧
    (Kind.bracket ∈ e.problem.kind.family ∧
        (Program.ofText (some id) text).check = .error e ∧ report.steps = 0 ∧
        report.outputBytes = 0 ∧ report.output = "" ∨
      Kind.runtime ∈ e.problem.kind.family ∧
        ∃ config code setup s n t cause i ins printed,
          Config.ofSettings settings = .ok config ∧
          Setup.ofConfig room (Program.ofText (some id) text) config = .ok (code, setup, s) ∧
          (start s (.ofBytes input) .healthy).after code s.caps n = some t ∧
          (t.step code s.caps).1 = some (.error e cause) ∧ report.steps = (n : Nat) ∧
          t.machine.pc = (i : Nat) ∧
          (Program.ofText (some id) text).instructions[i]? = some ins ∧
          e.place = some ins.place ∧
          printed = (start s (.ofBytes input) .healthy).printed code s.caps n ∧
          report.output = Text.Utf8.decodeLossy (printed ++ lineEnd none printed) ∧
          report.outputBytes = (printed ++ lineEnd none printed).length) := by
  rcases Evaluation.run_eq_ok hrun with ⟨e', hcheck, rfl⟩ | ⟨config, code, setup, s, hconfig, hsetup,
    hreport⟩
  · cases he
    obtain ⟨i, hi, hb, hkind⟩ := Program.blames_of_check hcheck
    exact ⟨hb.character hi, .inl ⟨hkind, hcheck, rfl, rfl, rfl⟩⟩
  · have hprogram := Code.program_of_ofProgram (Setup.of_ofConfig_eq_ok hsetup).1
    obtain ⟨cause, hending, rfl⟩ := Evaluation.eq_reportOn_of_ofRun hreport he
    obtain ⟨n, t, ht, hstop, hmachine, hbytes⟩ := interpret_of_healthy
      (Reader.healthy_ofBytes input) Sink.healthy_healthy (by rw [hending]; simp)
    have hhealthy : t.Healthy :=
      healthy_after ht ⟨Reader.healthy_ofBytes input, Sink.healthy_healthy⟩
    have hfault : (t.step code s.caps).1 = some (.error e cause) := by
      rw [hending, ending?] at hstop
      split at hstop
      · cases hstop
      · obtain ⟨φ, hφ, heq⟩ := Option.map_eq_some_iff.1 hstop
        cases heq
        exact hφ
    obtain ⟨ins, hins, hb, hkind⟩ := (stepped code s.caps t).blames hhealthy hfault
    obtain ⟨i, hpc, hi⟩ := Code.exists_of_fetch (pc_nonneg_after ht le_rfl) hins
    rw [hprogram] at hi hb
    refine ⟨hb.character (Array.mem_of_getElem? hi), .inr ⟨hkind, config, code, setup, s, n, t,
      cause, i, ins, _, hconfig, hsetup, ht, hfault, ?_, hpc, hi, hb.place, rfl, ?_, ?_⟩⟩
    · show (interpret _ code s _ _).machine.steps = n
      rw [hmachine, steps_after ht]
      exact Int.zero_add _
    · show Text.Utf8.decodeLossy (interpret _ code s _ _).output.bytes = _
      rw [hbytes]
      rfl
    · show (interpret _ code s _ _).output.bytes.length = _
      rw [hbytes]
      rfl

/-- In the second line of this text, after a line of commentary, the program `+.[<]` prints a byte,
enters its loop and fails there. -/
theorem errors_blame_character_underflow :
    ∃ report e,
      Evaluation.run .usual 9 (some "p") "é\n+.[<]" [] (.table [("cells", .int 1)]) = .ok report ∧
      report.error = some e ∧ report.steps = 3 ∧ report.output = "\x01\n" ∧
      e.details.field? "line" = some (.int 2) ∧ e.details.field? "column" = some (.int 4) ∧
      e.BlamesCharacter "p" "é\n+.[<]".toList :=
  ⟨_, _, rfl, rfl, rfl, rfl, rfl, rfl,
    (errors_blame_character .usual 9 "p" "é\n+.[<]" [] (.table [("cells", .int 1)]) _ _ rfl rfl).1⟩

end TapeMachine
