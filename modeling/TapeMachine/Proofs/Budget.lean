import Mathlib
import TapeMachine.Proofs.Allowance
import TapeMachine.Proofs.Growth

/-!
# Runs stay within their budget

A cap on the steps ends every run, also that of a program that loops forever, and bounds what the run can
have done until then: the bytes in its sink and the cells of its tape. The caps hold whatever the streams
refuse. A byte whose flush fails is in the sink and is not counted, but it was written below the caps, so it
takes the place of one that is counted.

## What is proved

* `Snapshot.Stepped.below_of_bytes_ne`: a byte reaches the sink only below both caps.
* `Snapshot.length_written_le`: so there are never more bytes than the caps allow, the one that was not
  flushed included.
* `interpret_closed`: how `interpret` ends where the counted run does, on streams of any kind.
* `exists_end_of_count`, `machine_le_of_count`: what a cap on the steps says about the end of a run, its sink,
  and its tape.
* `Service.Allowance.Within.report_le`: what it says about a report.
* `capped_runs_end`: all of it, for runs and for requests.
-/

namespace TapeMachine

open Snapshot

/-! ### Bytes below the caps -/

namespace Snapshot

variable {code : Code} {caps : Caps} {s t : Snapshot} {n m : Int}

/-- A command writes a byte only below the cap, also if the flush of that byte fails. -/
theorem Executes.outputBytes_lt {jumps : JumpTable} {cap : Option Limit} {op : Opcode} {f : Option Fault}
    (h : Executes jumps cap s op f t) (hbytes : t.output.bytes ≠ s.output.bytes)
    (hcap : cap = some (.count m)) : s.machine.outputBytes < m := by
  cases h with
  | written hc | flushFails hc =>
    rw [hcap] at hc
    exact lt_of_capFault?_count hc
  | _ => exact absurd rfl hbytes

theorem Stepped.below_of_bytes_ne {f : Option Fault} (h : Stepped code caps s f t)
    (hbytes : t.output.bytes ≠ s.output.bytes) :
    (∀ n, caps.steps = some (.count n) → s.machine.steps < n) ∧
      ∀ m, caps.output = some (.count m) → s.machine.outputBytes < m := by
  cases h with
  | executed _ _ hc he =>
    refine ⟨fun n hn => ?_, fun m hm => he.outputBytes_lt hbytes hm⟩
    rw [hn] at hc
    exact lt_of_capFault?_count hc
  | _ => exact absurd rfl hbytes

theorem outputBytes_le_after (hcap : caps.output = some (.count m)) (hs : s.machine.outputBytes = 0)
    {k : Nat} (h : s.after code caps k = some t) : t.machine.outputBytes ≤ max 0 m := by
  refine after_induction (P := fun v => v.machine.outputBytes ≤ max 0 m) ?_ h (hs ▸ le_max_left 0 m)
  intro v w hv hr hst
  obtain ⟨hbytes, hcount⟩ := hst.printed hr
  cases hprints : v.prints? code with
  | none =>
    rw [hcount, hprints]
    simpa using hv
  | some b =>
    rw [hprints] at hbytes hcount
    have hlt := (hst.below_of_bytes_ne (by simp [hbytes])).2 m hcap
    rw [hcount, Option.toList_some, List.length_singleton]
    omega

theorem length_printed_le (code : Code) (caps : Caps) (s : Snapshot) (k : Nat) :
    (s.printed code caps k).length ≤ k := by
  have hle := List.length_filterMap_le (fun j => (s.after code caps j).bind (prints? code)) (List.range k)
  rwa [List.length_range] at hle

theorem length_unflushed_le (t u : Snapshot) : (unflushed t u).length ≤ 1 := by
  unfold unflushed
  split <;> simp

/-- **What a run has written where it ends is within its caps**, the byte that was not flushed
included. -/
theorem length_written_le (hsteps : s.machine.steps = 0) (houtput : s.machine.outputBytes = 0) {k : Nat}
    {e : Ending} (h : s.after code caps k = some t) (he : t.ending? code caps = some e)
    (hcap : caps.steps = some (.count n)) :
    let written := s.printed code caps k ++ unflushed t (t.step code caps).2
    (written.length : Int) ≤ max 0 n ∧
      ∀ m, caps.output = some (.count m) → (written.length : Int) ≤ max 0 m := by
  intro written
  have hk := le_of_after_of_count hcap hsteps h
  have hprinted := length_printed_le code caps s k
  have hcount := (bytes_after h).2
  have hone := length_unflushed_le t (t.step code caps).2
  have hlength : written.length =
      (s.printed code caps k).length + (unflushed t (t.step code caps).2).length := List.length_append
  by_cases hlost : unflushed t (t.step code caps).2 = []
  · rw [hlost, List.length_nil] at hlength
    refine ⟨by omega, fun m hm => ?_⟩
    have hle := outputBytes_le_after hm houtput h
    omega
  · -- the last byte was written below the caps
    have hbytes : (t.step code caps).2.output.bytes ≠ t.output.bytes := by
      rw [bytes_of_ending? h he, (bytes_after h).1]
      simpa using hlost
    obtain ⟨hbelow, hbelow'⟩ := (stepped code caps t).below_of_bytes_ne hbytes
    have hlt := hbelow n hcap
    rw [steps_after h] at hlt
    refine ⟨by omega, fun m hm => ?_⟩
    have hlt' := hbelow' m hm
    omega

end Snapshot

/-! ### Whole runs -/

theorem length_lineEnd_le (refused : Option Failure) (bytes : List UInt8) :
    (lineEnd refused bytes).length ≤ 1 := by
  unfold lineEnd
  split <;> simp

section Runs

variable {code : Code} {settings : Settings} {input : Reader} {output : Sink}

/-- Where the counted run ends, `interpret` has ended with the same machine, and it has added to its sink
what was written, with the last line ended unless that was refused. -/
theorem interpret_closed {k fuel : Nat} {t : Snapshot} {e : Ending}
    (ht : (start settings input output).after code settings.caps k = some t)
    (he : t.ending? code settings.caps = some e) (hfuel : k < fuel) :
    (interpret fuel code settings input output).ending ≠ .unfinished ∧
      (interpret fuel code settings input output).machine = t.machine ∧
      ∃ refused, (interpret fuel code settings input output).output.bytes = output.bytes ++
        ((start settings input output).printed code settings.caps k ++
          unflushed t (t.step code settings.caps).2 ++
          lineEnd refused ((start settings input output).printed code settings.caps k ++
            unflushed t (t.step code settings.caps).2)) := by
  obtain ⟨ending, m, io, added, hrun, hends, hadded⟩ :=
    interpret_eq_close fuel code settings input output
  have hne : ending ≠ .unfinished := by
    -- a run that was given up would have gone past its end
    rintro rfl
    have hle := le_of_stop ht (after_one_of_ending? he) hends.1
    omega
  obtain ⟨k', -, t', ht', he', hu⟩ := hends.exists_ending? hne
  obtain ⟨rfl, rfl⟩ := stop_unique ht (after_one_of_ending? he) ht' (after_one_of_ending? he')
  rw [hrun]
  refine ⟨mt (Run.ending_close_eq_unfinished_iff _ _ _ _).1 hne, ?_, ?_⟩
  · rw [Run.close_machine]
    exact (congrArg Snapshot.machine hu).trans (machine_step_of_ending? he)
  · rw [← hu]
    exact ⟨_, Run.bytes_close_of_ending? hadded hne ht he' hu⟩

/-- **A run under a cap on its steps ends**, however it is given patience beyond that. It adds no more bytes
to its sink than its caps allow, and the line feed at the end. -/
theorem exists_end_of_count (code : Code) (input : Reader) (output : Sink) {n : Int}
    (hcap : settings.caps.steps = some (.count n)) :
    ∃ (k : Nat) (t : Snapshot) (e : Ending), (k : Int) ≤ max 0 n ∧
      (start settings input output).after code settings.caps k = some t ∧
      t.ending? code settings.caps = some e ∧
      ∀ fuel > k, (interpret fuel code settings input output).ending ≠ .unfinished ∧
        (interpret fuel code settings input output).machine = t.machine ∧
        ∃ added, (interpret fuel code settings input output).output.bytes = output.bytes ++ added ∧
          (added.length : Int) ≤ max 0 n + 1 ∧
          ∀ m, settings.caps.output = some (.count m) → (added.length : Int) ≤ max 0 m + 1 := by
  obtain ⟨k, t, e, hk, ht, he⟩ : ∃ (k : Nat) (t : Snapshot) (e : Ending), (k : Int) ≤ max 0 n ∧
      (start settings input output).after code settings.caps k = some t ∧
      t.ending? code settings.caps = some e := exists_ending?_of_count hcap rfl
  refine ⟨k, t, e, hk, ht, he, fun fuel hfuel => ?_⟩
  obtain ⟨hended, hmachine, refused, hbytes⟩ := interpret_closed ht he hfuel
  obtain ⟨hsteps, houtput⟩ := length_written_le rfl rfl ht he hcap
  have hline := length_lineEnd_le refused
    ((start settings input output).printed code settings.caps k ++
      unflushed t (t.step code settings.caps).2)
  refine ⟨hended, hmachine, _, hbytes, ?_, fun m hm => ?_⟩
  · rw [List.length_append]
    omega
  · have hle := houtput m hm
    rw [List.length_append]
    omega

/-- Under a cap on the steps the machine of a run has counted at most as many steps as the cap allows, and
its tape has at most twice as many cells, or as many as at the start; also while the run goes on. -/
theorem machine_le_of_count (code : Code) (input : Reader) (output : Sink) {n : Int}
    (hcap : settings.caps.steps = some (.count n)) (fuel : Nat) :
    let m := (interpret fuel code settings input output).machine
    m.steps ≤ max 0 n ∧ (m.tape.length : Int) ≤ max (settings.cells : Int) (2 * max 0 n) := by
  intro m
  obtain ⟨hsteps, hpaced⟩ : m.steps ≤ max 0 n ∧ Paced settings.cells m :=
    Call.foldl_machine_keeps (P := fun m => m.steps ≤ max 0 n ∧ Paced settings.cells m)
      ⟨le_max_left 0 n, .initial settings⟩
      (fun _ _ _ hst h => ⟨hst.steps_le hcap h.1, h.2.stepped hst⟩) [.interpret fuel input output]
  have hlength := hpaced.length_le
  exact ⟨hsteps, by omega⟩

end Runs

/-! ### Requests -/

namespace Service

theorem Allowance.Within.report_le {a : Allowance} (h : a.Within) {room : Room} {patience : Nat}
    {source : Option String} {text : String} {input : List UInt8} {report : Report}
    (hrun : Evaluation.run room patience source text input a.toValue = .ok report) :
    report.steps ≤ a.maxSteps ∧ (report.outputBytes : Int) ≤ a.maxOutput + 1 := by
  have hsteps := h.maxSteps
  have houtput := h.maxOutput
  have hempty : Sink.healthy.bytes = [] := rfl
  rw [h.run_eq] at hrun
  cases hcode : Code.ofProgram (.ofText source text) with
  | error e =>
    rw [hcode] at hrun
    cases hrun
    simp only [Evaluation.reportOn, hempty, List.length_nil]
    omega
  | ok code =>
    rw [hcode] at hrun
    obtain ⟨error, -, rfl⟩ := Evaluation.ofRun_eq_ok hrun
    have hcap : h.settings.caps.steps = some (.count a.maxSteps) := rfl
    obtain ⟨k, t, e, hk, -, -, hends⟩ := exists_end_of_count code (.ofBytes input) .healthy hcap
    obtain ⟨-, -, added, hbytes, -, hadded⟩ := hends (a.maxSteps.toNat + 1) (by omega)
    have hcounted := (machine_le_of_count code (.ofBytes input) .healthy hcap (a.maxSteps.toNat + 1)).1
    have hlength := hadded a.maxOutput rfl
    simp only [Evaluation.reportOn, hbytes, hempty, List.nil_append]
    omega

end Service

open Service in
/-- **Runs under a cap on their steps stay within their budget.** Whatever the program is, also one that
loops forever, and whatever its streams refuse, a run with the cap `n` ends after at most `n` steps, and its
sink has accepted at most one byte more than the caps allow by then, also if a flush has failed. So a request
to run a text whose settings give an allowance is answered with a report of at most a million steps and 5001
bytes, and the tape of its run never has more than two million cells. -/
theorem capped_runs_end :
    (∀ (code : Code) (settings : Settings) (input : Reader) (output : Sink) (n : Int),
      settings.caps.steps = some (.count n) →
      ∃ (k : Nat) (t : Snapshot) (e : Ending), (k : Int) ≤ max 0 n ∧
        (start settings input output).after code settings.caps k = some t ∧
        t.ending? code settings.caps = some e ∧
        ∀ fuel > k, (interpret fuel code settings input output).ending ≠ .unfinished ∧
          (interpret fuel code settings input output).machine = t.machine ∧
          (interpret fuel code settings input output).machine.steps = k ∧
          ∃ added, (interpret fuel code settings input output).output.bytes = output.bytes ++ added ∧
            (added.length : Int) ≤ max 0 n + 1 ∧
            ∀ m, settings.caps.output = some (.count m) →
              (added.length : Int) ≤ min (max 0 n) (max 0 m) + 1) ∧
    ∀ (host : Host) (r : Request) (body : RunRequest) (a : Allowance), host.read r = .ok (.run body) →
      Allowance.ofSettings body.settings = .ok a →
      (∃ report, report.steps ≤ 1000000 ∧ report.outputBytes ≤ 5001 ∧
        ∀ now durationMs store, ∃ warnings store', handle host now durationMs store r =
          (.reply 200 (reportBody report durationMs warnings), store')) ∧
      ∀ config code setup settings, Config.ofSettings a.toValue = .ok config →
        Setup.ofConfig host.room (.ofText (some requestSource) body.code) config =
          .ok (code, setup, settings) →
        ∀ fuel, (interpret fuel code settings (.ofBytes (Text.Utf8.encode body.input))
          .healthy).machine.tape.length ≤ 2000000 := by
  refine ⟨fun code settings input output n hcap => ?_, fun host r body a hread hallowance => ⟨?_, ?_⟩⟩
  · obtain ⟨k, t, e, hk, ht, he, hends⟩ := exists_end_of_count code input output hcap
    refine ⟨k, t, e, hk, ht, he, fun fuel hfuel => ?_⟩
    obtain ⟨hended, hmachine, added, hbytes, hsteps, houtput⟩ := hends fuel hfuel
    refine ⟨hended, hmachine, ?_, added, hbytes, hsteps, fun m hm => ?_⟩
    · rw [hmachine, steps_after ht]
      exact Int.zero_add _
    · have hle := houtput m hm
      omega
  · have hwithin := Allowance.within_of_ofSettings hallowance
    rcases evaluate_cases host.room body with ⟨e, herror, -⟩ | ⟨a', report, ha', heval, hreport⟩
    · rw [hallowance] at herror
      cases herror
    · rw [hallowance] at ha'
      cases ha'
      obtain ⟨hsteps, hbytes⟩ := hwithin.report_le hreport
      have hceiling := hwithin.maxSteps.2
      have hceiling' := hwithin.maxOutput.2
      rw [stepCeiling] at hceiling
      rw [outputCeiling] at hceiling'
      refine ⟨report, by omega, by omega, fun now durationMs store => ?_⟩
      rw [handle_of_read hread, serve, runText, heval]
      exact ⟨_, _, rfl⟩
  · intro config code setup settings hconfig hsetup fuel
    have hwithin := Allowance.within_of_ofSettings hallowance
    rw [hwithin.ofConfig_eq hconfig] at hsetup
    obtain rfl : hwithin.settings = settings := by
      split at hsetup <;> cases hsetup
      rfl
    have hle := (machine_le_of_count code (.ofBytes (Text.Utf8.encode body.input)) .healthy
      (show hwithin.settings.caps.steps = some (.count a.maxSteps) from rfl) fuel).2
    have hcells : (hwithin.settings.cells : Int) = a.cells :=
      Int.toNat_of_nonneg (Int.le_trans (by decide) hwithin.cells.1)
    have hceiling := hwithin.maxSteps.2
    have hceiling' := hwithin.cells.2
    rw [stepCeiling] at hceiling
    rw [cellCeiling] at hceiling'
    omega

open Service in
/-- The program `+[>+.]` goes on forever. It ends after at most seven steps with two bytes and the line feed
in a sink whose second flush fails. A request to run `+[>+]` on an extensible tape is answered. -/
theorem capped_runs_end_forever :
    ∃ code, Code.ofProgram (.ofText (some "p") "+[>+.]") = .ok code ∧
      growing.caps.steps = some (.count 7) ∧ growing.caps.output = some (.count 2) ∧
      (interpret 9 code growing (.ofBytes []) brittle).ending ≠ .unfinished ∧
      (∃ added, (interpret 9 code growing (.ofBytes []) brittle).output.bytes = [7] ++ added ∧
        (added.length : Int) ≤ 3) ∧
      ∃ report, report.steps ≤ 1000000 ∧ report.outputBytes ≤ 5001 ∧
        ∀ now durationMs store, ∃ warnings store', handle .usual now durationMs store ⟨"POST", "/run", "", some (.table [("code", .text "+[>+]"),
          ("settings", .table [("extensible", .bool true)])])⟩ =
          (.reply 200 (reportBody report durationMs warnings), store') := by
  refine ⟨_, rfl, rfl, rfl, ?_⟩
  obtain ⟨k, t, e, hk, -, -, hends⟩ := capped_runs_end.1 _ growing (.ofBytes []) brittle 7 rfl
  obtain ⟨hended, -, -, added, hbytes, -, hadded⟩ := hends 9 (by omega)
  refine ⟨hended, ⟨added, hbytes, hadded 2 rfl⟩, ?_⟩
  exact (capped_runs_end.2 .usual _ _ _ (read_usual_of_ofBody rfl) rfl).1

end TapeMachine
