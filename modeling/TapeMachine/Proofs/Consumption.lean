import Mathlib
import TapeMachine.Proofs.Blame
import TapeMachine.Proofs.Lockstep

/-!
# A run knows only the input that it has consumed

A program reads one byte at a time, and only when it executes a `,`. So it cannot know what stands behind
the bytes that it has read, nor whether anything stands there, until it asks for one byte more than it
was given.

## The model

`extended` puts bytes behind those that a reader still has. A snapshot is `Starved` if its next step
executes a `,` and nothing is left to read. `inputsDone` counts the `,` that a run has executed, and
`Evaluation.unread` is what running a text leaves of its input.

## What is proved

* `step_extended`: a step that is not starved does the same with more bytes to come.
* `rest_after`: the bytes that a run has consumed are as many as the `,` that it has executed.
* `stopFree_consumed`: cut off after the bytes that it consumes, a run that did not end for want of input
  is never starved.
* `unread_input_unobservable`: whole runs, and the reports on them.
-/

namespace TapeMachine

/-! ### More input -/

/-- The reader with more bytes behind those that it has. -/
def Reader.extended (r : Reader) (more : List UInt8) : Reader := { r with rest := r.rest ++ more }

/-- There is nothing left to read. -/
def Problem.endOfInput : Problem := .read (.text "unexpected end of input")

/-- The instruction at the program counter reads. -/
def Code.readsAt (code : Code) (pc : Int) : Bool :=
  (code.fetch? pc).any fun ins => ins.opcode = .input

theorem Code.readsAt_of_fetch {code : Code} {pc : Int} {ins : Instruction}
    (hi : code.fetch? pc = some ins) : code.readsAt pc = decide (ins.opcode = .input) := by
  simp [readsAt, hi]

namespace Snapshot

/-- The snapshot with more bytes to read. -/
def extended (more : List UInt8) (s : Snapshot) : Snapshot :=
  { s with input := s.input.extended more }

/-- The next step executes a `,`, and nothing is left to read. -/
def Starved (code : Code) (caps : Caps) (s : Snapshot) : Prop :=
  Executing code caps s .input ∧ s.input.rest = []

/-- How many `,` the first `n` steps of a run execute. -/
def inputsDone (code : Code) (caps : Caps) (s : Snapshot) (n : Nat) : Nat :=
  (List.range n).countP fun j => (s.after code caps j).any fun t => code.readsAt t.machine.pc

variable {code : Code} {caps : Caps} {s t : Snapshot} {more : List UInt8}

/-! ### One step -/

/-- A command that finds a byte, if it asks for one, does the same with more of them to come. -/
theorem Executes.extended {jumps : JumpTable} {cap : Option Limit} {op : Opcode} {f : Option Fault}
    (h : Executes jumps cap s op f t) (hrest : op = .input → s.input.rest ≠ [])
    (more : List UInt8) : Executes jumps cap (s.extended more) op f (t.extended more) := by
  cases h with
  | left h => exact .left h
  | leftEdge h => exact .leftEdge h
  | right h => exact .right h
  | rightEdge h => exact .rightEdge h
  | increment => exact .increment
  | decrement => exact .decrement
  | @read b bs h hb =>
    have hb' : (s.extended more).input.rest = b :: (bs ++ more) := by
      simp [Snapshot.extended, Reader.extended, hb]
    exact .read h hb'
  | readEnd h hb => exact absurd hb (hrest rfl)
  | readFails h => exact .readFails h
  | capped h => exact .capped h
  | written h hw hf => exact .written h hw hf
  | writeFails h hw => exact .writeFails h hw
  | flushFails h hw hf => exact .flushFails h hw hf
  | skip h hj => exact .skip h hj
  | enter h => exact .enter h
  | leave h => exact .leave h
  | again h hj => exact .again h hj
  | openAlone h hj => exact .openAlone h hj
  | closeAlone h hj => exact .closeAlone h hj

/-- **A step that is not starved** does the same with more bytes to come. -/
theorem step_extended (h : ¬ Starved code caps s) (more : List UInt8) :
    (s.extended more).step code caps =
      ((s.step code caps).1, (s.step code caps).2.extended more) := by
  have hst := stepped code caps s
  generalize (s.step code caps).1 = f at hst ⊢
  generalize (s.step code caps).2 = t at hst ⊢
  refine Stepped.eq ?_
  cases hst with
  | finished hr => exact .finished hr
  | noInstruction hr hi => exact .noInstruction hr hi
  | capped hr hi hc => exact .capped hr hi hc
  | executed hr hi hc he =>
    refine .executed hr hi hc (he.extended ?_ more)
    intro hop hrest
    exact h ⟨⟨hr, hc, _, hi, hop⟩, hrest⟩

/-- Where the reader does not fail, a starved step fails for want of input. -/
theorem Starved.step (h : Starved code caps s) (hread : s.input.fault s.input.reads = none) :
    (s.step code caps).1 = some (code.faultAt s.machine.pc .endOfInput) := by
  obtain ⟨⟨hr, hc, ins, hi, hop⟩, hrest⟩ := h
  have he : Executes code.jumps caps.output s ins.opcode (some (.ofProblem .endOfInput))
      { s with input := s.input.missed } := hop ▸ .readEnd hread hrest
  rw [(Stepped.executed hr hi hc he).eq, ← Code.locate_ofProblem hi]
  rfl

theorem Starved.step_cons (h : Starved code caps s) (hread : s.input.fault s.input.reads = none)
    (b : UInt8) (bs : List UInt8) :
    ∃ t, (s.extended (b :: bs)).after code caps 1 = some t ∧ t.input.rest = bs := by
  obtain ⟨⟨hr, hc, ins, hi, hop⟩, hrest⟩ := h
  have hb : (s.extended (b :: bs)).input.rest = b :: bs := by
    simp [Snapshot.extended, Reader.extended, hrest]
  have he : Executes code.jumps caps.output (s.extended (b :: bs)) .input none _ :=
    .read hread hb
  rw [← hop] at he
  exact ⟨_, after_one_iff.2 ⟨hr, (Stepped.executed (s := s.extended (b :: bs)) hr hi hc he).eq⟩, rfl⟩

/-! ### What is consumed -/

/-- A `,` that does not fail consumes one byte, and nothing else consumes any. -/
theorem Executes.rest_eq {jumps : JumpTable} {cap : Option Limit} {op : Opcode} {f : Option Fault}
    (h : Executes jumps cap s op f t) :
    if op = .input ∧ f = none then ∃ b, s.input.rest = b :: t.input.rest
    else t.input.rest = s.input.rest := by
  cases h with
  | @read b bs _ hb => exact ⟨b, hb⟩
  | _ => rfl

theorem Stepped.rest_of_fault {f : Option Fault} (h : Stepped code caps s f t) (hf : f ≠ none) :
    t.input.rest = s.input.rest := by
  cases h with
  | @executed ins f _ _ _ _ he =>
    have hfail : f ≠ none := by simpa using hf
    simpa [hfail] using he.rest_eq
  | _ => rfl

theorem Stepped.rest_eq (h : Stepped code caps s none t) (hr : ¬ s.Finished code) :
    if code.readsAt s.machine.pc then ∃ b, s.input.rest = b :: t.input.rest
    else t.input.rest = s.input.rest := by
  generalize hf : (none : Option Fault) = f at h
  cases h with
  | finished hfin => exact absurd hfin hr
  | noInstruction | capped => cases hf
  | @executed ins f _ _ hi _ he =>
    have hnone : f = none := by simpa using hf.symm
    rw [Code.readsAt_of_fetch hi]
    simpa [hnone] using he.rest_eq

theorem Stepped.rest_suffix {f : Option Fault} (h : Stepped code caps s f t) :
    t.input.rest <:+ s.input.rest := by
  cases h with
  | executed _ _ _ he =>
    have heq := he.rest_eq
    split at heq
    · obtain ⟨b, hb⟩ := heq
      rw [hb]
      exact List.suffix_cons b _
    · rw [heq]
  | _ => exact List.suffix_rfl

theorem inputsDone_succ {n : Nat} (h : s.after code caps n = some t) :
    s.inputsDone code caps (n + 1) =
      s.inputsDone code caps n + if code.readsAt t.machine.pc then 1 else 0 := by
  simp [inputsDone, List.range_succ, List.countP_append, h]

/-- **A run has consumed one byte for each `,` that it has executed.** -/
theorem rest_after {n : Nat} (h : s.after code caps n = some t) :
    s.inputsDone code caps n ≤ s.input.rest.length ∧
      t.input.rest = s.input.rest.drop (s.inputsDone code caps n) := by
  induction n generalizing t with
  | zero =>
    cases h
    simp [inputsDone]
  | succ n ih =>
    obtain ⟨v, hv, hr, hstep⟩ := after_succ_right_iff.1 h
    obtain ⟨hle, hrest⟩ := ih hv
    have hst := stepped code caps v
    rw [hstep] at hst
    have heq := hst.rest_eq hr
    rw [inputsDone_succ hv]
    by_cases hreads : code.readsAt v.machine.pc = true
    · -- the byte that is consumed is the next one
      rw [if_pos hreads] at heq ⊢
      obtain ⟨b, hb⟩ := heq
      rw [hrest] at hb
      have hlen := congrArg List.length hb
      rw [List.length_drop, List.length_cons] at hlen
      refine ⟨by omega, ?_⟩
      rw [← List.drop_drop, hb]
      rfl
    · rw [if_neg hreads] at heq ⊢
      exact ⟨hle, heq.trans hrest⟩

theorem input_fault_after {n : Nat} (h : s.after code caps n = some t) :
    t.input.fault = s.input.fault :=
  after_induction (P := fun v => v.input.fault = s.input.fault)
    (fun _ _ hv _ hst => hst.faults_eq.1.trans hv) h rfl

/-! ### Counted runs -/

/-- Runs on the same bytes, with more to come in the first of them, are in step until the second is
starved. -/
theorem inStep_extended (code : Code) (caps : Caps) (more : List UInt8) :
    InStep code code caps (fun s t => s = t.extended more) Eq (Starved code caps) where
  finished := by
    rintro s t rfl
    exact Iff.rfl
  step := by
    rintro s t rfl hstop
    rw [step_extended hstop]
    exact ⟨rel_of_eq rfl, rfl⟩

theorem after_extended {n : Nat} (h : StopFree code caps (Starved code caps) s n)
    (more : List UInt8) :
    (s.extended more).after code caps n = (s.after code caps n).map (extended more) := by
  have hrel := (inStep_extended code caps more).after rfl h
  generalize (s.extended more).after code caps n = x at hrel ⊢
  generalize s.after code caps n = y at hrel ⊢
  cases hrel with
  | some h => simp [h]
  | none => rfl

end Snapshot

open Snapshot

/-! ### Whole runs -/

theorem Run.close_input (label : String) (ending : Ending) (m : Machine) (io : Streams) :
    (Run.close label ending m io).input = io.input := by
  unfold Run.close
  split
  · split <;> rfl
  · split <;> rfl
  · rfl

section Whole

variable {code : Code} {settings : Settings} {output : Sink} {fuel : Nat}

theorem rest_interpret_suffix {input : Reader} {k : Nat} {t : Snapshot} (hle : k ≤ fuel)
    (ht : (start settings input output).after code settings.caps k = some t) :
    (interpret fuel code settings input output).input.rest <:+ t.input.rest := by
  obtain ⟨ending, m, io, -, hrun, hends, -⟩ := interpret_eq_close fuel code settings input output
  rw [hrun, Run.close_input]
  exact hends.keeps (P := fun v => v.input.rest <:+ t.input.rest)
    (fun _ _ _ hst hp => hst.rest_suffix.trans hp) ht hle List.suffix_rfl

/-- **Cut off after the bytes that it consumes**, a run is never starved, unless it ended for want of
input. -/
theorem stopFree_consumed (houtput : output.Healthy) {consumed rest : List UInt8}
    (hrest : (interpret fuel code settings (.ofBytes (consumed ++ rest)) output).input.rest = rest)
    (hend : ∀ e cause, (interpret fuel code settings (.ofBytes (consumed ++ rest)) output).ending =
      .failed (.error e cause) → e.problem ≠ .endOfInput) :
    StopFree code settings.caps (Starved code settings.caps)
      (start settings (.ofBytes consumed) output) fuel := by
  intro j
  -- before its first starved snapshot the run is in step with the one that has all the bytes
  induction j using Nat.strong_induction_on with
  | _ j ih =>
    intro hj v hv hstarved
    have hbefore : StopFree code settings.caps (Starved code settings.caps)
        (start settings (.ofBytes consumed) output) j :=
      fun i hi => ih i hi (hi.trans hj)
    have hu : (start settings (.ofBytes (consumed ++ rest)) output).after code settings.caps j =
        some (v.extended rest) := by
      have hmap := after_extended hbefore rest
      rw [hv] at hmap
      exact hmap
    have hread : v.input.fault v.input.reads = none := by
      rw [input_fault_after hv]
      rfl
    cases rest with
    | nil =>
      -- both are starved, and the run fails for want of input
      have hsame : v.extended [] = v := by simp [Snapshot.extended, Reader.extended]
      rw [hsame] at hu
      have hending : v.ending? code settings.caps =
          some (.failed (code.faultAt v.machine.pc .endOfInput)) := by
        rw [ending?, if_neg hstarved.1.1, hstarved.step hread]
        rfl
      have hfailed := (interpret_of_ending? (Reader.healthy_ofBytes _) houtput hu hending hj).1
      exact hend _ _ hfailed rfl
    | cons b bs =>
      -- one of the bytes that are not consumed would be consumed
      obtain ⟨w, hw, hbs⟩ := hstarved.step_cons hread b bs
      have hnext := after_add_iff.2 ⟨_, hu, hw⟩
      have hsuffix := rest_interpret_suffix (Nat.succ_le_of_lt hj) hnext
      rw [hrest, hbs] at hsuffix
      have hlen := hsuffix.length_le
      simp at hlen

/-- A run that is never starved has the same ending with more bytes to come, and leaves the same machine
and the same output. -/
theorem interpret_extended {bytes : List UInt8}
    (hfree : StopFree code settings.caps (Starved code settings.caps)
      (start settings (.ofBytes bytes) output) fuel) (more : List UInt8) :
    (interpret fuel code settings (.ofBytes (bytes ++ more)) output).ending =
        (interpret fuel code settings (.ofBytes bytes) output).ending ∧
      (interpret fuel code settings (.ofBytes (bytes ++ more)) output).snapshot =
        (interpret fuel code settings (.ofBytes bytes) output).snapshot.extended more := by
  have hstart : start settings (.ofBytes (bytes ++ more)) output =
      (start settings (.ofBytes bytes) output).extended more := rfl
  obtain ⟨hending, hlast⟩ := (inStep_extended code settings.caps more).interpret (fun _ => rfl)
    (by rintro s t rfl; rfl) (by rintro s t k rfl; rfl) rfl hstart hfree
  exact ⟨hending.eq, hlast⟩

/-- **What a run has not consumed can be replaced**: the run has the same ending, and leaves the same
machine and the same output. -/
theorem interpret_replaced (houtput : output.Healthy) {consumed rest : List UInt8}
    (hrest : (interpret fuel code settings (.ofBytes (consumed ++ rest)) output).input.rest = rest)
    (hend : ∀ e cause, (interpret fuel code settings (.ofBytes (consumed ++ rest)) output).ending =
      .failed (.error e cause) → e.problem ≠ .endOfInput) (other : List UInt8) :
    (interpret fuel code settings (.ofBytes (consumed ++ other)) output).ending =
        (interpret fuel code settings (.ofBytes (consumed ++ rest)) output).ending ∧
      (interpret fuel code settings (.ofBytes (consumed ++ other)) output).machine =
        (interpret fuel code settings (.ofBytes (consumed ++ rest)) output).machine ∧
      (interpret fuel code settings (.ofBytes (consumed ++ other)) output).output =
        (interpret fuel code settings (.ofBytes (consumed ++ rest)) output).output := by
  have hfree := stopFree_consumed houtput hrest hend
  -- both runs are compared with the one that has no byte more than it consumes
  obtain ⟨hending, hlast⟩ := interpret_extended hfree rest
  obtain ⟨hending', hlast'⟩ := interpret_extended hfree other
  refine ⟨hending'.trans hending.symm, ?_, ?_⟩
  · exact (congrArg Snapshot.machine hlast').trans (congrArg Snapshot.machine hlast).symm
  · exact (congrArg Snapshot.output hlast').trans (congrArg Snapshot.output hlast).symm

/-- The bytes that were given are those consumed and those left. -/
theorem exists_consumed (fuel : Nat) (code : Code) (settings : Settings) (bytes : List UInt8)
    (output : Sink) :
    ∃ consumed,
      bytes = consumed ++ (interpret fuel code settings (.ofBytes bytes) output).input.rest := by
  have hsuffix : (interpret fuel code settings (.ofBytes bytes) output).input.rest <:+ bytes :=
    rest_interpret_suffix (Nat.zero_le fuel) rfl
  obtain ⟨consumed, hconsumed⟩ := hsuffix
  exact ⟨consumed, hconsumed.symm⟩

end Whole

/-! ### Reports -/

/-- The program ran out of input. -/
def Report.Starved (r : Report) : Prop := ∃ e, r.error = some e ∧ e.problem = .endOfInput

namespace Evaluation

/-- What running a text leaves unread of its input. -/
def unread (room : Room) (patience : Nat) (source : Option String) (text : String) (input : List UInt8)
    (settings : Value) : List UInt8 :=
  match Config.ofSettings settings with
  | .error _ => input
  | .ok config =>
    match Setup.ofConfig room (Program.ofText source text) config with
    | .error _ => input
    | .ok (code, _, settings) =>
      (interpret (settings.caps.fuel patience) code settings (.ofBytes input) .healthy).input.rest

theorem ofRun_congr {r r' : Run} (hending : r.ending = r'.ending) (hmachine : r.machine = r'.machine)
    (houtput : r.output = r'.output) : ofRun r = ofRun r' := by
  rw [ofRun, ofRun, hending, hmachine, houtput]

theorem ofRun_of_error {r : Run} {e : Error} {cause : Option Failure}
    (h : r.ending = .failed (.error e cause)) (hwritable : e.problem.isWritable = true) :
    ofRun r = .ok (reportOn r.output r.machine.steps (some e)) := by
  rw [ofRun, h, Ending.verdict, if_pos hwritable]
  rfl

theorem run_replaced (room : Room) (patience : Nat) (source : Option String) (text : String)
    (input : List UInt8) (settings : Value)
    (hfed : ∀ report, run room patience source text input settings = .ok report → ¬ report.Starved) :
    ∃ consumed, input = consumed ++ unread room patience source text input settings ∧
      ∀ other, run room patience source text (consumed ++ other) settings =
        run room patience source text input settings := by
  unfold run unread at *
  cases hconfig : Config.ofSettings settings with
  | error e => exact ⟨[], rfl, fun other => rfl⟩
  | ok config =>
    cases hsetup : Setup.ofConfig room (Program.ofText source text) config with
    | error e =>
      -- nothing is run, so nothing is read
      simp only [hsetup]
      refine ⟨[], rfl, fun other => ?_⟩
      cases e <;> rfl
    | ok setup =>
      obtain ⟨code, _, s⟩ := setup
      simp only [hconfig, hsetup] at hfed ⊢
      obtain ⟨consumed, hinput⟩ :=
        exists_consumed (s.caps.fuel patience) code s input .healthy
      refine ⟨consumed, hinput, fun other => ?_⟩
      generalize hrest :
        (interpret (s.caps.fuel patience) code s (.ofBytes input) .healthy).input.rest = rest at hinput
      subst hinput
      have hend : ∀ e cause, (interpret (s.caps.fuel patience) code s
          (.ofBytes (consumed ++ rest)) .healthy).ending = .failed (.error e cause) →
          e.problem ≠ .endOfInput := by
        intro e cause he hproblem
        exact hfed _ (ofRun_of_error he (by rw [hproblem]; rfl)) ⟨e, rfl, hproblem⟩
      obtain ⟨hending, hmachine, houtput⟩ :=
        interpret_replaced Sink.healthy_healthy hrest hend other
      exact ofRun_congr hending hmachine houtput

end Evaluation

/-- **A run depends only on the input that it has consumed.** With more bytes to come it takes the same
steps, on the same machine and with the same output, until it executes a `,` where nothing is left; there
it fails for want of input. Each `,` that is executed consumes one byte, and nothing else consumes any. So
unless a text ran out of input, the bytes behind those that it consumed can be replaced by any others, and
the report is the same. -/
theorem unread_input_unobservable (code : Code) (settings : Settings) (output : Sink)
    (bytes more : List UInt8) :
    (∀ n, StopFree code settings.caps (Starved code settings.caps)
        (start settings (.ofBytes bytes) output) n →
      (start settings (.ofBytes (bytes ++ more)) output).after code settings.caps n =
        ((start settings (.ofBytes bytes) output).after code settings.caps n).map (extended more)) ∧
    (∀ n s, (start settings (.ofBytes bytes) output).after code settings.caps n = some s →
      (¬ Starved code settings.caps s → (s.extended more).step code settings.caps =
        ((s.step code settings.caps).1, (s.step code settings.caps).2.extended more)) ∧
      (Starved code settings.caps s →
        (s.step code settings.caps).1 = some (code.faultAt s.machine.pc .endOfInput)) ∧
      ((start settings (.ofBytes bytes) output).inputsDone code settings.caps n ≤ bytes.length ∧
        s.input.rest =
          bytes.drop ((start settings (.ofBytes bytes) output).inputsDone code settings.caps n)) ∧
      ((s.step code settings.caps).1 ≠ none →
        (s.step code settings.caps).2.input.rest = s.input.rest)) ∧
    ∀ room patience source text value,
      (∀ report, Evaluation.run room patience source text bytes value = .ok report → ¬ report.Starved) →
      ∃ consumed, bytes = consumed ++ Evaluation.unread room patience source text bytes value ∧
        ∀ other, Evaluation.run room patience source text (consumed ++ other) value =
          Evaluation.run room patience source text bytes value := by
  refine ⟨fun n hfree => after_extended hfree more, fun n s hs => ?_,
    fun room patience source text value hfed =>
      Evaluation.run_replaced room patience source text bytes value hfed⟩
  refine ⟨fun hfed => step_extended hfed more, fun hstarved => hstarved.step ?_, rest_after hs,
    (stepped code settings.caps s).rest_of_fault⟩
  rw [input_fault_after hs]
  rfl

/-- The program `,+.` consumes one byte, which is all that it has to be given; what stands behind that byte
makes no difference, to a step or to the report. -/
theorem unread_input_unobservable_echo :
    ∃ code, Code.ofProgram (Program.ofText none ",+.") = .ok code ∧
      StopFree code .none (Starved code .none) (start oneCell (.ofBytes [65]) .healthy) 3 ∧
      (start oneCell (.ofBytes [65, 66]) .healthy).after code .none 3 =
        ((start oneCell (.ofBytes [65]) .healthy).after code .none 3).map (extended [66]) ∧
      Evaluation.unread .usual 9 none ",+." [65, 66] (.table []) = [66] ∧
      ∀ other, Evaluation.run .usual 9 none ",+." (65 :: other) (.table []) =
        Evaluation.run .usual 9 none ",+." [65, 66] (.table []) := by
  have hfree : ∀ code, Code.ofProgram (Program.ofText none ",+.") = .ok code →
      StopFree code .none (Starved code .none) (start oneCell (.ofBytes [65]) .healthy) 3 := by
    rintro code hcode j hj u hu ⟨⟨-, -, ins, hi, hop⟩, hrest⟩
    cases hcode
    match j, hj with
    | 0, _ =>
      cases hu
      cases hrest
    | 1, _ | 2, _ =>
      cases hu
      cases hi
      cases hop
  have hunread : Evaluation.unread .usual 9 none ",+." [65, 66] (.table []) = [66] := by decide +kernel
  have hfed : ∀ report, Evaluation.run .usual 9 none ",+." [65, 66] (.table []) = .ok report →
      ¬ report.Starved := by
    rintro report hrun ⟨e, he, -⟩
    cases hrun
    cases he
  obtain ⟨code, hcode⟩ : ∃ code, Code.ofProgram (Program.ofText none ",+.") = .ok code := ⟨_, rfl⟩
  refine ⟨code, hcode, hfree code hcode, ?_, hunread, ?_⟩
  · exact (unread_input_unobservable code oneCell .healthy [65] [66]).1 3 (hfree code hcode)
  · obtain ⟨consumed, hbytes, hsame⟩ :=
      (unread_input_unobservable code oneCell .healthy [65, 66] []).2.2 .usual 9 none ",+."
        (.table []) hfed
    rw [hunread] at hbytes
    obtain rfl : consumed = [65] := (List.append_left_inj [66]).1 hbytes.symm
    exact hsame

end TapeMachine
