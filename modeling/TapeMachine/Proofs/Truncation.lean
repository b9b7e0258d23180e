import Mathlib
import TapeMachine.Proofs.Invariant

/-!
# Caps only truncate

A run may be capped: at most so many steps, at most so many bytes of output. A capped run and the
run without caps are compared here, step by step, for a checked program on a sink that never fails.

## The model

`verdict` says how a capped run has to end after `k` steps, and looks at the run without caps only: at
its snapshot after `k` steps, at the number `k`, and at the bytes that were written so far. The
reasons to end are tested in a fixed order: the program has finished, the steps are used up, the next
instruction writes and the bytes are used up, the run without caps fails here itself. A cap below
zero is used up as soon as zero is.

## What is proved

* `ending?_eq_verdict`: where a capped run has come to, it ends as the verdict says, and otherwise it
  makes the step that the run without caps makes.
* `after_capped_iff`: a capped run is the run without caps up to the first verdict.
* `after_of_raised`, `bytes_prefix_of_raised`: with higher caps a run goes on where it ended, so it
  can only write more.
* `caps_truncate`: all of it, for checked programs, and for `interpret`.
-/

namespace TapeMachine

open Snapshot

/-! ### The verdict -/

/-- The cap that a count has just reached. -/
def reached? (cap : Option Int) (k : Nat) : Option Int := cap.filter fun n => (k : Int) = max 0 n

@[simp] theorem reached?_none (k : Nat) : reached? none k = none := rfl

/-- A problem with the instruction at the program counter. -/
def Code.faultAt (code : Code) (pc : Int) (problem : Problem) : Fault :=
  .error ⟨problem, code.program.source, (code.fetch? pc).map (·.place)⟩ none

namespace Snapshot

/-- What was written since the snapshot `s`. -/
def emittedSince (s t : Snapshot) : List UInt8 := t.output.bytes.drop s.output.bytes.length

/-- How a run from `s` with these caps ends at the snapshot `t` that it reaches after `k` steps; none
if it goes on. -/
def verdict (code : Code) (maxSteps maxOutput : Option Int) (s : Snapshot) (k : Nat)
    (t : Snapshot) : Option Ending :=
  if t.Finished code then some .finished
  else
    match reached? maxSteps k with
    | some n => some (.failed (code.faultAt t.machine.pc (.stepLimit (.count n))))
    | none =>
      match if code.writesAt t.machine.pc then reached? maxOutput (s.emittedSince t).length
        else none with
      | some n => some (.failed (code.faultAt t.machine.pc (.outputLimit (.count n))))
      | none => (t.step code .none).1.map .failed

/-- No verdict is passed in the first `k` steps of the run without caps. -/
def Unstopped (code : Code) (maxSteps maxOutput : Option Int) (s : Snapshot) (k : Nat) : Prop :=
  ∀ j < k, ∀ t, s.after code .none j = some t → verdict code maxSteps maxOutput s j t = none

end Snapshot

/-- The same settings with other caps. -/
def Settings.capped (settings : Settings) (maxSteps maxOutput : Option Int) : Settings :=
  { settings with caps := .ofInts maxSteps maxOutput }

/-- The second cap is not below the first; no cap is the highest one. -/
def Raised (cap cap' : Option Int) : Prop := ∀ n' ∈ cap', ∃ n ∈ cap, n ≤ n'

/-! ### One step -/

theorem capFault?_eq_reached? (problem : Limit → Problem) {count : Int} {k : Nat}
    {cap : Option Int} (hk : count = k) (hle : ∀ n ∈ cap, count ≤ max 0 n) :
    capFault? count problem (cap.map .count) =
      (reached? cap k).map fun n => .ofProblem (problem (.count n)) := by
  subst hk
  cases cap with
  | none => rfl
  | some n =>
    have hle := hle n rfl
    by_cases hn : n ≤ k
    · have heq : (k : Int) = max 0 n := by omega
      simp [capFault?, Limit.reached, reached?, hn, ← heq]
    · have hne : (k : Int) ≠ max 0 n := by omega
      simp [capFault?, Limit.reached, reached?, hn, hne]

theorem Code.locate_ofProblem {code : Code} {pc : Int} {ins : Instruction}
    (hi : code.fetch? pc = some ins) (problem : Problem) :
    (Fault.ofProblem problem).locate code.program.source ins = code.faultAt pc problem := by
  simp [Fault.ofProblem, Fault.locate, Error.unplaced, Error.locate, faultAt, hi]

/-- A command below the cap on the output does what it does without a cap. -/
theorem Snapshot.Executes.uncapped {jumps : JumpTable} {cap : Option Limit} {s t : Snapshot}
    {op : Opcode} {f : Option Fault} (h : Executes jumps cap s op f t)
    (hcap : op = .output → capFault? s.machine.outputBytes .outputLimit cap = none) :
    Executes jumps none s op f t := by
  cases h with
  | left h => exact .left h
  | leftEdge h => exact .leftEdge h
  | right h => exact .right h
  | rightEdge h => exact .rightEdge h
  | increment => exact .increment
  | decrement => exact .decrement
  | read h hb => exact .read h hb
  | readEnd h hb => exact .readEnd h hb
  | readFails h => exact .readFails h
  | capped h => rw [hcap rfl] at h; cases h
  | written _ hw hf => exact .written rfl hw hf
  | writeFails _ hw => exact .writeFails rfl hw
  | flushFails _ hw hf => exact .flushFails rfl hw hf
  | skip h hj => exact .skip h hj
  | enter h => exact .enter h
  | leave h => exact .leave h
  | again h hj => exact .again h hj
  | openAlone h hj => exact .openAlone h hj
  | closeAlone h hj => exact .closeAlone h hj

section Step

variable {code : Code} {settings : Settings} {maxSteps maxOutput : Option Int}
variable {s t : Snapshot} {k : Nat}

theorem Snapshot.step_eq_uncapped {ins : Instruction} (hi : code.fetch? t.machine.pc = some ins)
    (hr : ¬ t.Finished code)
    (hsteps : capFault? t.machine.steps .stepLimit (maxSteps.map .count) = none)
    (hout : ins.opcode = .output →
      capFault? t.machine.outputBytes .outputLimit (maxOutput.map .count) = none) :
    t.step code (.ofInts maxSteps maxOutput) = t.step code .none := by
  have hex := executes code.jumps (maxOutput.map .count) ins.opcode t.machine t.streams
  have hcapped : Stepped code (.ofInts maxSteps maxOutput) t _ _ := .executed hr hi hsteps hex
  have hfree : Stepped code .none t _ _ := .executed hr hi rfl (hex.uncapped hout)
  rw [hcapped.eq, hfree.eq]

/-- **What a capped run does next.** It ends as the verdict says; if there is none, its step is the
step without caps. -/
theorem Snapshot.ending?_eq_verdict (hcode : code.Complete)
    (hkept : Kept code settings maxSteps maxOutput t.machine) (hsteps : t.machine.steps = k)
    (hout : t.machine.outputBytes = (s.emittedSince t).length) :
    t.ending? code (.ofInts maxSteps maxOutput) = verdict code maxSteps maxOutput s k t ∧
      (verdict code maxSteps maxOutput s k t = none →
        t.step code (.ofInts maxSteps maxOutput) = t.step code .none) := by
  by_cases hr : t.Finished code
  · simp [ending?, verdict, hr]
  obtain ⟨ins, hi, -⟩ := hkept.lookup hcode (Kept.pc_lt hr)
  have hstepCap := capFault?_eq_reached? .stepLimit hsteps hkept.steps_le
  have houtCap := capFault?_eq_reached? .outputLimit hout hkept.output_cap
  have hwrites := Code.writesAt_of_fetch hi
  rw [ending?, verdict, if_neg hr, if_neg hr]
  -- the tests of the verdict in their order
  cases hs : reached? maxSteps k with
  | some n =>
    rw [hs] at hstepCap
    have hst : Stepped code (.ofInts maxSteps maxOutput) t _ _ := .capped hr hi hstepCap
    rw [hst.eq, Code.locate_ofProblem hi]
    simp
  | none =>
    rw [hs] at hstepCap
    by_cases hop : ins.opcode = .output
    · cases ho : reached? maxOutput (s.emittedSince t).length with
      | some m =>
        rw [ho] at houtCap
        have hex : Executes code.jumps (maxOutput.map .count) t ins.opcode
            (some (.ofProblem (.outputLimit (.count m)))) t := by
          rw [hop]
          exact .capped houtCap
        have hst : Stepped code (.ofInts maxSteps maxOutput) t _ _ :=
          .executed hr hi hstepCap hex
        rw [hst.eq, Option.map_some, Code.locate_ofProblem hi]
        simp [hwrites, hop]
      | none =>
        rw [ho] at houtCap
        rw [step_eq_uncapped hi hr hstepCap fun _ => houtCap]
        simp [hwrites, hop]
    · have heq : t.step code (.ofInts maxSteps maxOutput) = t.step code .none :=
        step_eq_uncapped hi hr hstepCap fun h => absurd h hop
      rw [heq]
      simp [hwrites, hop]

end Step

/-! ### Runs -/

section Runs

variable {code : Code} {settings : Settings} {bytes : List UInt8} {output : Sink}
variable {maxSteps maxOutput : Option Int}

theorem counters_after (houtput : output.Healthy) {caps : Caps} {k : Nat} {t : Snapshot}
    (h : (start settings (.ofBytes bytes) output).after code caps k = some t) :
    t.machine.steps = k ∧
      t.machine.outputBytes =
        ((start settings (.ofBytes bytes) output).emittedSince t).length := by
  obtain ⟨e, hbytes, hcount⟩ := exists_emitted_after h ⟨Reader.healthy_ofBytes bytes, houtput⟩
  have hsteps := steps_after h
  simp only [start, Machine.initial, Int.zero_add] at hsteps hcount
  refine ⟨hsteps, ?_⟩
  rw [emittedSince, hbytes, List.drop_left, hcount]

/-- Where a capped run has come to, it ends as the verdict says, and otherwise it makes the step
without caps. -/
theorem ending?_after (hcode : code.Complete) (hbits : 8 ≤ settings.kind.bits)
    (houtput : output.Healthy) {k : Nat} {t : Snapshot}
    (h : (start settings (.ofBytes bytes) output).after code (.ofInts maxSteps maxOutput) k =
      some t) :
    t.ending? code (.ofInts maxSteps maxOutput) =
        verdict code maxSteps maxOutput (start settings (.ofBytes bytes) output) k t ∧
      (verdict code maxSteps maxOutput (start settings (.ofBytes bytes) output) k t = none →
        t.step code (.ofInts maxSteps maxOutput) = t.step code .none) := by
  obtain ⟨hsteps, hout⟩ := counters_after houtput h
  have hinit : Kept code settings maxSteps maxOutput
      (start settings (.ofBytes bytes) output).machine := .initial code settings _ _
  exact ending?_eq_verdict hcode (hinit.after hcode hbits h) hsteps hout

theorem Snapshot.ending?_eq_none_iff {caps : Caps} {t : Snapshot} :
    t.ending? code caps = none ↔ ¬ t.Finished code ∧ (t.step code caps).1 = none := by
  unfold ending?
  split <;> simp_all

/-- **A capped run is the run without caps, up to the first verdict.** -/
theorem after_capped_iff (hcode : code.Complete) (hbits : 8 ≤ settings.kind.bits)
    (houtput : output.Healthy) {k : Nat} {u : Snapshot} :
    (start settings (.ofBytes bytes) output).after code (.ofInts maxSteps maxOutput) k = some u ↔
      (start settings (.ofBytes bytes) output).after code .none k = some u ∧
        Unstopped code maxSteps maxOutput (start settings (.ofBytes bytes) output) k := by
  induction k generalizing u with
  | zero => exact ⟨fun h => ⟨h, fun j hj => absurd hj (Nat.not_lt_zero j)⟩, fun h => h.1⟩
  | succ k ih =>
    rw [after_succ_right_iff, after_succ_right_iff]
    constructor
    · rintro ⟨t, ht, hr, hstep⟩
      obtain ⟨hfree, hun⟩ := ih.1 ht
      obtain ⟨hend, hsame⟩ := ending?_after hcode hbits houtput ht
      have hnone : t.ending? code (.ofInts maxSteps maxOutput) = none :=
        ending?_eq_none_iff.2 ⟨hr, by rw [hstep]⟩
      rw [hnone] at hend
      refine ⟨⟨t, hfree, hr, by rw [← hsame hend.symm, hstep]⟩, fun j hj v hv => ?_⟩
      rcases Nat.lt_succ_iff_lt_or_eq.1 hj with hj | rfl
      · exact hun j hj v hv
      · rw [hfree] at hv
        cases hv
        exact hend.symm
    · rintro ⟨⟨t, hfree, hr, hstep⟩, hun⟩
      have ht := ih.2 ⟨hfree, fun j hj => hun j (Nat.lt_succ_of_lt hj)⟩
      obtain ⟨-, hsame⟩ := ending?_after hcode hbits houtput ht
      exact ⟨t, ht, hr, by rw [hsame (hun k (Nat.lt_succ_self k) t hfree), hstep]⟩

theorem ends_capped_iff (hcode : code.Complete) (hbits : 8 ≤ settings.kind.bits)
    (houtput : output.Healthy) {k : Nat} {u : Snapshot} {e : Ending} :
    (start settings (.ofBytes bytes) output).after code (.ofInts maxSteps maxOutput) k = some u ∧
        u.ending? code (.ofInts maxSteps maxOutput) = some e ↔
      (start settings (.ofBytes bytes) output).after code .none k = some u ∧
        Unstopped code maxSteps maxOutput (start settings (.ofBytes bytes) output) k ∧
        verdict code maxSteps maxOutput (start settings (.ofBytes bytes) output) k u = some e := by
  rw [← and_assoc, ← after_capped_iff hcode hbits houtput]
  refine and_congr_right fun h => ?_
  rw [(ending?_after hcode hbits houtput h).1]

/-- With as many steps as the program needs, no verdict is passed before it finishes. -/
theorem unstopped_of_finishes {n : Nat} {s u : Snapshot} (h : s.after code .none n = some u) :
    Unstopped code (some n) none s n := by
  intro j hj t ht
  obtain ⟨i, rfl⟩ := Nat.exists_eq_add_of_lt hj
  obtain ⟨v, hv, -⟩ := after_add_iff.1 (show s.after code .none ((j + 1) + i) = some u by
    rw [← h, Nat.add_right_comm])
  obtain ⟨t', ht', hr, hstep⟩ := after_succ_right_iff.1 hv
  rw [ht] at ht'
  cases ht'
  have hne : ¬ (j : Int) = max 0 ((j + i + 1 : Nat) : Int) := by omega
  have hreach : reached? (some ((j + i + 1 : Nat) : Int)) j = none := by
    simp only [reached?, Option.filter_some, hne, decide_false]
    rfl
  simp only [verdict, hr, hreach, hstep, reached?_none, ite_self, if_false, Option.map_none]

end Runs

/-! ### Higher caps -/

theorem Raised.capFault? {cap cap' : Option Int} (h : Raised cap cap') {count : Int}
    {problem : Limit → Problem}
    (hc : TapeMachine.capFault? count problem (cap.map .count) = none) :
    TapeMachine.capFault? count problem (cap'.map .count) = none := by
  rw [capFault?_count_eq_none_iff] at hc ⊢
  intro n' hn'
  obtain ⟨n, hn, hle⟩ := h n' hn'
  exact lt_of_lt_of_le (hc n hn) hle

section Raise

variable {code : Code} {maxSteps maxOutput maxSteps' maxOutput' : Option Int}
variable (hsteps : Raised maxSteps maxSteps') (hout : Raised maxOutput maxOutput')
include hsteps hout

theorem Snapshot.Stepped.raise {s t : Snapshot}
    (h : Stepped code (.ofInts maxSteps maxOutput) s none t) (hr : ¬ s.Finished code) :
    s.step code (.ofInts maxSteps' maxOutput') = (none, t) := by
  generalize hf : (none : Option Fault) = f at h
  cases h with
  | finished h => exact absurd h hr
  | noInstruction => cases hf
  | capped => cases hf
  | @executed ins f t _ hi hc he =>
    obtain rfl : f = none := by simpa using hf.symm
    have hbelow : ∀ {cap : Option Int}, Raised maxOutput cap → ins.opcode = .output →
        capFault? s.machine.outputBytes .outputLimit (cap.map .count) = none := by
      intro cap hcap hop
      rcases he.outputBytes_eq rfl with ⟨hne, -⟩ | ⟨-, -, hc⟩
      · exact absurd hop hne
      · exact hcap.capFault? hc
    have hfree : Stepped code .none s _ _ :=
      .executed hr hi rfl (he.uncapped (hbelow fun n hn => ⟨n, hn, le_rfl⟩))
    rw [step_eq_uncapped hi hr (hsteps.capFault? hc) (hbelow hout), hfree.eq]

theorem after_of_raised {k : Nat} {s u : Snapshot}
    (h : s.after code (.ofInts maxSteps maxOutput) k = some u) :
    s.after code (.ofInts maxSteps' maxOutput') k = some u := by
  induction k generalizing u with
  | zero => exact h
  | succ k ih =>
    obtain ⟨t, ht, hr, hstep⟩ := after_succ_right_iff.1 h
    have hst := stepped code (.ofInts maxSteps maxOutput) t
    rw [hstep] at hst
    exact after_succ_right_iff.2 ⟨t, ih ht, hr, hst.raise hsteps hout hr⟩

end Raise

/-! ### Whole runs -/

section Whole

variable {code : Code} {fuel : Nat} {m : Machine} {io : Streams}

theorem bytes_prefix_runFor {caps : Caps} {k : Nat} {t : Snapshot}
    (h : (of m io).after code caps k = some t)
    (hle : k ≤ fuel) :
    t.output.bytes <+: (runFor code caps fuel m io).2.2.output.sink.bytes :=
  (runFor_spec code caps fuel m io).keeps (P := fun v => t.output.bytes <+: v.output.bytes)
    (fun _ _ _ hst hp => hp.trans hst.bytes_prefix) h hle List.prefix_rfl

/-- On streams that never fail, a run has written no more than a counted run within its steps. -/
theorem exists_after_bytes_eq (code : Code) (caps : Caps) (fuel : Nat)
    (hio : (of m io).Healthy) :
    ∃ k ≤ fuel, ∃ t, (of m io).after code caps k = some t ∧
      (runFor code caps fuel m io).2.2.output.sink.bytes = t.output.bytes := by
  have hspec := runFor_spec code caps fuel m io
  generalize runFor code caps fuel m io = run at hspec ⊢
  obtain ⟨ending, m', io'⟩ := run
  cases ending with
  | finished =>
    obtain ⟨n, hle, hn, -⟩ := hspec
    exact ⟨n, hle, _, hn, rfl⟩
  | failed f =>
    -- a step that fails on a healthy sink writes nothing
    obtain ⟨n, hlt, u, hn, -, hf⟩ := hspec
    have hst := stepped code caps u
    rw [hf] at hst
    obtain ⟨e, hbytes, hcount⟩ := hst.exists_emitted (healthy_after hn hio).2
    rw [hst.machine_eq (by simp)] at hcount
    obtain rfl : e = [] := List.length_eq_zero_iff.1 (by omega)
    exact ⟨n, hlt.le, u, hn, by rw [← List.append_nil u.output.bytes, ← hbytes]; rfl⟩
  | unfinished => exact ⟨fuel, le_rfl, _, hspec.1, rfl⟩

theorem bytes_prefix_of_raised {maxSteps maxOutput maxSteps' maxOutput' : Option Int}
    (hsteps : Raised maxSteps maxSteps') (hout : Raised maxOutput maxOutput')
    (hio : (of m io).Healthy) {fuel' : Nat} (hle : fuel ≤ fuel') :
    (runFor code (.ofInts maxSteps maxOutput) fuel m io).2.2.output.sink.bytes <+:
      (runFor code (.ofInts maxSteps' maxOutput') fuel' m io).2.2.output.sink.bytes := by
  obtain ⟨k, hk, t, ht, hbytes⟩ :=
    exists_after_bytes_eq code (.ofInts maxSteps maxOutput) fuel hio
  rw [hbytes]
  exact bytes_prefix_runFor (after_of_raised hsteps hout ht) (hk.trans hle)

end Whole

theorem LineWriter.exit_of_healthy {w : LineWriter} (h : w.sink.Healthy) (failed : Bool) :
    ∃ w', w.exit failed = (none, w', []) := by
  obtain ⟨hw, hf⟩ := h
  unfold LineWriter.exit finalize
  split_ifs
  · exact ⟨w, rfl⟩
  · rw [writeThrough_of_none (hw _) (hf _)]
    exact ⟨_, rfl⟩

theorem Run.ending_close (label : String) (ending : Ending) (m : Machine) {io : Streams}
    (h : io.output.sink.Healthy) : (Run.close label ending m io).ending = ending := by
  cases ending with
  | finished =>
    obtain ⟨w, hw⟩ := LineWriter.exit_of_healthy h false
    simp only [Run.close, hw]
  | failed f =>
    obtain ⟨w, hw⟩ := LineWriter.exit_of_healthy h true
    simp only [Run.close, hw]
  | unfinished => rfl

/-- Where the counted run ends, `interpret` ends, and with the same machine. -/
theorem interpret_of_ending? {code : Code} {settings : Settings} {input : Reader} {output : Sink}
    (hinput : input.Healthy) (houtput : output.Healthy) {k fuel : Nat} {t : Snapshot} {e : Ending}
    (ht : (start settings input output).after code settings.caps k = some t)
    (he : t.ending? code settings.caps = some e) (hfuel : k < fuel) :
    (interpret fuel code settings input output).ending = e ∧
      (interpret fuel code settings input output).machine = t.machine := by
  have hof : start settings input output =
      of (.initial settings) ⟨input, .onto output, [settings.started code.program]⟩ := rfl
  obtain ⟨hend, hsnap⟩ := runFor_of_ending? (hof ▸ ht) he hfuel
  have hst := stepped code settings.caps t
  have hlast : (t.step code settings.caps).2.Healthy :=
    hst.healthy (healthy_after ht ⟨hinput, houtput⟩)
  rw [← hsnap] at hlast
  have hmachine : (t.step code settings.caps).2.machine = t.machine := by
    by_cases hr : t.Finished code
    · rw [(Stepped.finished hr).eq]
    · rw [ending?, if_neg hr] at he
      exact hst.machine_eq fun h => by rw [h] at he; cases he
  rw [← hsnap] at hmachine
  exact ⟨(Run.ending_close _ _ _ hlast.2).trans hend, (Run.close_machine _ _ _ _).trans hmachine⟩

/-- **Caps only truncate.** Take a checked program with its input and a sink that never fails, and any
caps. The capped run has the snapshots of the run without caps up to the first verdict; there it
ends, as the verdict says, and so does `interpret`. Hence a program that finishes in `n` steps
finishes under a cap of `n` steps, and higher caps can only extend what is written. -/
theorem caps_truncate (p : Program) (hp : p.check = .ok ()) (settings : Settings)
    (hkind : settings.kind ∈ CellKind.supported) (bytes : List UInt8) (output : Sink)
    (houtput : output.Healthy) :
    ∃ code s, Code.ofProgram p = .ok code ∧ code.program = p ∧
      s = start settings (.ofBytes bytes) output ∧
      (∀ maxSteps maxOutput k t,
        s.after code (.ofInts maxSteps maxOutput) k = some t ↔
          s.after code .none k = some t ∧ Unstopped code maxSteps maxOutput s k) ∧
      (∀ maxSteps maxOutput k t e,
        s.after code (.ofInts maxSteps maxOutput) k = some t ∧
            t.ending? code (.ofInts maxSteps maxOutput) = some e ↔
          s.after code .none k = some t ∧ Unstopped code maxSteps maxOutput s k ∧
            verdict code maxSteps maxOutput s k t = some e) ∧
      (∀ maxSteps maxOutput k t e, s.after code .none k = some t →
        Unstopped code maxSteps maxOutput s k → verdict code maxSteps maxOutput s k t = some e →
        ∀ fuel > k,
          (interpret fuel code (settings.capped maxSteps maxOutput) (.ofBytes bytes) output).ending
              = e ∧
            (interpret fuel code (settings.capped maxSteps maxOutput) (.ofBytes bytes)
              output).machine = t.machine) ∧
      (∀ n t, s.after code .none n = some t → t.Finished code → ∀ fuel > n,
        (interpret fuel code (settings.capped (some n) none) (.ofBytes bytes) output).ending =
          .finished) ∧
      ∀ maxSteps maxOutput maxSteps' maxOutput', Raised maxSteps maxSteps' →
        Raised maxOutput maxOutput' → ∀ log fuel fuel', fuel ≤ fuel' →
          (runFor code (.ofInts maxSteps maxOutput) fuel (.initial settings)
              ⟨.ofBytes bytes, .onto output, log⟩).2.2.output.sink.bytes <+:
            (runFor code (.ofInts maxSteps' maxOutput') fuel' (.initial settings)
              ⟨.ofBytes bytes, .onto output, log⟩).2.2.output.sink.bytes := by
  have hbits := CellKind.eight_le_bits hkind
  have hinput := Reader.healthy_ofBytes bytes
  obtain ⟨code, hof, hprogram⟩ := Code.exists_ofProgram hp
  have hcode := Code.complete_of_check hp hof hprogram
  have hends := fun {maxSteps maxOutput k t e} =>
    @ends_capped_iff code settings bytes output maxSteps maxOutput hcode hbits houtput k t e
  refine ⟨code, _, hof, hprogram, rfl, fun _ _ _ _ => after_capped_iff hcode hbits houtput,
    fun _ _ _ _ _ => hends, ?_, ?_, ?_⟩
  · intro maxSteps maxOutput k t e ht hun hv fuel hfuel
    obtain ⟨hcapped, he⟩ := hends.2 ⟨ht, hun, hv⟩
    exact interpret_of_ending? hinput houtput hcapped he hfuel
  · intro n t ht hf fuel hfuel
    have hv : verdict code (some n) none (start settings (.ofBytes bytes) output) n t =
        some .finished := by
      rw [verdict, if_pos hf]
    obtain ⟨hcapped, he⟩ := hends.2 ⟨ht, unstopped_of_finishes ht, hv⟩
    exact (interpret_of_ending? hinput houtput hcapped he hfuel).1
  · intro maxSteps maxOutput maxSteps' maxOutput' hsteps hout log fuel fuel' hle
    refine bytes_prefix_of_raised hsteps hout ?_ hle
    exact ⟨hinput, houtput⟩

/-- The program `+[.]` writes forever. After six steps it is about to write its third byte: with caps
of six steps and two bytes both are used up, and the steps are blamed. -/
theorem caps_truncate_both :
    (Program.ofText (some "p") "+[.]").check = .ok () ∧ growing.kind ∈ CellKind.supported ∧
      Sink.healthy.Healthy ∧
      ∃ code, Code.ofProgram (Program.ofText (some "p") "+[.]") = .ok code ∧
        (interpret 7 code (growing.capped (some 6) (some 2)) (.ofBytes []) .healthy).ending =
          .failed (.error ⟨.stepLimit (.count 6), some "p", some ⟨1, 3, .output⟩⟩ none) := by
  refine ⟨rfl, by decide, Sink.healthy_healthy, ?_⟩
  obtain ⟨code, s, hof, -, rfl, -, hends, hrun, -, -⟩ :=
    caps_truncate (Program.ofText (some "p") "+[.]") rfl growing (by decide) [] .healthy
      Sink.healthy_healthy
  cases hof
  obtain ⟨hfree, hun, hv⟩ := (hends (some 6) (some 2) 6 _ _).1 ⟨rfl, rfl⟩
  exact ⟨_, rfl, (hrun _ _ 6 _ _ hfree hun hv 7 (by decide)).1⟩

end TapeMachine
