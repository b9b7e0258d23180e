import Mathlib
import TapeMachine.Proofs.Snapshot

/-!
# Steps can be tried again

A step that fails leaves the machine as it was, so it can be tried again. This module follows a driver
that keeps calling `step` on streams whose calls fail now and then, and compares it with the run on
the same streams without the failures.

## The model

A call on a stream that fails does nothing, but it is counted. `ReadFails`, `WriteFails` and
`FlushFails` say of two successive snapshots that such a call was made between them and was one of
those that fail; `Injected` says that one of the three happened. `drive` makes a number of calls and
ignores all faults. `advances` counts the calls that executed an instruction, and `hits` the failed
flushes for each byte of output.

A byte is written before it is flushed. If the flush fails the step is tried again and the byte is
written once more, so the driver's sink holds some bytes several times: `stretch` repeats each byte
once more for every failed flush.

## What is proved

* `Stepped.resumes`: beside the run without failures, a call of the driver is refused, doubles a byte, prints a
  byte, does something silent, or is stuck where the run without failures is stuck.
* `Abreast.call`, `abreast`: the driver keeps abreast of the run without failures.
* `exists_advance`: if only finitely many calls fail, the driver gets past each of them.
* `failed_steps_resume`: all of it.
-/

namespace TapeMachine

/-! ### Failing and healed streams -/

/-- The same reader without its failures. -/
def Reader.healed (r : Reader) : Reader := { r with fault := fun _ => none }

/-- The same sink without its failures. -/
def Sink.healed (k : Sink) : Sink :=
  { k with writeFault := fun _ => none, flushFault := fun _ => none }

namespace Snapshot

/-- The same snapshot without the failures of its streams. -/
def healed (s : Snapshot) : Snapshot := ⟨s.machine, s.input.healed, s.output.healed⟩

/-- No call on a stream fails from the one with number `bound` on. -/
def FailsBefore (bound : Nat) (s : Snapshot) : Prop :=
  ∀ n ≥ bound, s.input.fault n = none ∧ s.output.writeFault n = none ∧ s.output.flushFault n = none

/-- A read was made between two snapshots, and it failed. -/
def ReadFails (s t : Snapshot) : Prop :=
  t.input.reads = s.input.reads + 1 ∧ s.input.fault s.input.reads ≠ none

/-- A write was made between two snapshots, and it failed. -/
def WriteFails (s t : Snapshot) : Prop :=
  t.output.writes = s.output.writes + 1 ∧ s.output.writeFault s.output.writes ≠ none

/-- A flush was made between two snapshots, and it failed. -/
def FlushFails (s t : Snapshot) : Prop :=
  t.output.flushes = s.output.flushes + 1 ∧ s.output.flushFault s.output.flushes ≠ none

/-- A call on a stream failed between two snapshots. -/
def Injected (s t : Snapshot) : Prop := ReadFails s t ∨ WriteFails s t ∨ FlushFails s t

instance (s t : Snapshot) : Decidable (FlushFails s t) :=
  inferInstanceAs (Decidable (_ ∧ _))

/-! ### The driver -/

/-- What `n` calls of `step` leave behind, whatever they raise. -/
def drive (code : Code) (caps : Caps) (n : Nat) (s : Snapshot) : Snapshot :=
  (fun t => (step code caps t).2)^[n] s

/-- The next call executes an instruction. -/
def Advances (code : Code) (caps : Caps) (s : Snapshot) : Prop :=
  ¬ s.Finished code ∧ (s.step code caps).1 = none

instance (code : Code) (caps : Caps) (s : Snapshot) : Decidable (Advances code caps s) :=
  inferInstanceAs (Decidable (_ ∧ _))

/-- How many of the first `n` calls executed an instruction. -/
def advances (code : Code) (caps : Caps) (s : Snapshot) (n : Nat) : Nat :=
  (List.range n).countP fun j => Advances code caps (s.drive code caps j)

/-- How many flushes of the byte with index `q` failed in the first `n` calls. -/
def hits (code : Code) (caps : Caps) (s : Snapshot) (n q : Nat) : Nat :=
  (List.range n).countP fun j =>
    FlushFails (s.drive code caps j) (s.drive code caps (j + 1)) ∧
      (s.drive code caps j).machine.outputBytes = s.machine.outputBytes + q

end Snapshot

/-- Repeat each byte, the one with index `q` as often as `extra q` says. -/
def stretch (extra : Nat → Nat) (bytes : List UInt8) : List UInt8 :=
  bytes.zipIdx.flatMap fun b => List.replicate (extra b.2 + 1) b.1

@[simp] theorem stretch_nil (extra : Nat → Nat) : stretch extra [] = [] := rfl

theorem stretch_concat (extra : Nat → Nat) (bytes : List UInt8) (b : UInt8) :
    stretch extra (bytes ++ [b]) =
      stretch extra bytes ++ List.replicate (extra bytes.length + 1) b := by
  simp [stretch, List.zipIdx_append]

theorem stretch_congr {extra extra' : Nat → Nat} {bytes : List UInt8}
    (h : ∀ q < bytes.length, extra q = extra' q) : stretch extra bytes = stretch extra' bytes := by
  refine List.flatMap_congr fun b hb => ?_
  rw [h b.2 (List.snd_lt_of_mem_zipIdx hb)]

namespace Snapshot

variable {code : Code} {caps : Caps} {s t u : Snapshot}

@[simp] theorem drive_zero (s : Snapshot) : s.drive code caps 0 = s := rfl

theorem drive_succ (n : Nat) (s : Snapshot) :
    s.drive code caps (n + 1) = ((s.drive code caps n).step code caps).2 :=
  Function.iterate_succ_apply' _ n s

@[simp] theorem advances_zero (s : Snapshot) : s.advances code caps 0 = 0 := rfl

theorem advances_succ (n : Nat) (s : Snapshot) :
    s.advances code caps (n + 1) =
      s.advances code caps n + if Advances code caps (s.drive code caps n) then 1 else 0 := by
  simp [advances, List.range_succ]

@[simp] theorem hits_zero (s : Snapshot) (q : Nat) : s.hits code caps 0 q = 0 := rfl

theorem hits_succ (n q : Nat) (s : Snapshot) :
    s.hits code caps (n + 1) q = s.hits code caps n q +
      if FlushFails (s.drive code caps n) (s.drive code caps (n + 1)) ∧
        (s.drive code caps n).machine.outputBytes = s.machine.outputBytes + q then 1 else 0 := by
  simp [hits, List.range_succ]

/-! ### One call -/

/-- A snapshot on streams that never fail, beside one on streams that may: the same machine, and the
same bytes left to read. -/
structure Matches (u t : Snapshot) : Prop where
  machine : u.machine = t.machine
  rest : u.input.rest = t.input.rest
  healthy : u.Healthy

theorem matches_healed (s : Snapshot) : Matches s.healed s :=
  ⟨rfl, rfl, fun _ => rfl, fun _ => rfl, fun _ => rfl⟩

/-- What a call of the driver can do at `t`, beside the step that is made without failures at `u`. -/
inductive Resumes (code : Code) (caps : Caps) (u t : Snapshot) : Option Fault → Snapshot → Prop where
  /-- A read or a write fails, and nothing happens. -/
  | refused {f : Fault} {t' : Snapshot} (hinjected : Injected t t') (hflush : ¬ FlushFails t t')
      (hmatches : Matches u t') (hbytes : t'.output.bytes = t.output.bytes) :
      Resumes code caps u t (some f) t'
  /-- A byte is written, and the flush fails. -/
  | doubled {f : Fault} {t' : Snapshot} (hflush : FlushFails t t')
      (hwrites : code.writesAt t.machine.pc = true) (hmatches : Matches u t')
      (hbytes : t'.output.bytes = t.output.bytes ++ [t.machine.outByte]) :
      Resumes code caps u t (some f) t'
  /-- Both write a byte. -/
  | printed {t' u' : Snapshot} (hr : ¬ t.Finished code) (hstep : u.step code caps = (none, u'))
      (hflush : ¬ FlushFails t t') (hmatches : Matches u' t')
      (hcount : t'.machine.outputBytes = t.machine.outputBytes + 1)
      (hbytes : t'.output.bytes = t.output.bytes ++ [t.machine.outByte])
      (hbytes' : u'.output.bytes = u.output.bytes ++ [t.machine.outByte]) :
      Resumes code caps u t none t'
  /-- Both execute another instruction. -/
  | silent {t' u' : Snapshot} (hr : ¬ t.Finished code) (hstep : u.step code caps = (none, u'))
      (hflush : ¬ FlushFails t t') (hwrites : code.writesAt t.machine.pc = false)
      (hmatches : Matches u' t') (hcount : t'.machine.outputBytes = t.machine.outputBytes)
      (hbytes : t'.output.bytes = t.output.bytes) (hbytes' : u'.output.bytes = u.output.bytes) :
      Resumes code caps u t none t'
  /-- Both have finished, or fail with the same fault. -/
  | stuck {f : Option Fault} {t' : Snapshot} (hstop : t.Finished code ∨ f ≠ none)
      (hstep : (u.step code caps).1 = f) (hflush : ¬ FlushFails t t') (hmatches : Matches u t')
      (hbytes : t'.output.bytes = t.output.bytes) : Resumes code caps u t f t'

theorem not_flushFails_of_output_eq (h : t.output = s.output) : ¬ FlushFails s t := by
  rintro ⟨hcount, -⟩
  rw [h] at hcount
  omega

/-- A command that uses no stream does the same on any streams. -/
theorem Executes.on {jumps : JumpTable} {cap : Option Limit} {op : Opcode} {f : Option Fault}
    {t' : Snapshot} (h : Executes jumps cap t op f t') (hin : op ≠ .input) (hout : op ≠ .output)
    (hu : u.machine = t.machine) :
    t' = { t with machine := t'.machine } ∧
      Executes jumps cap u op f { u with machine := t'.machine } ∧
      t'.machine.outputBytes = t.machine.outputBytes := by
  obtain ⟨m, r, k⟩ := u
  obtain rfl : m = t.machine := hu
  cases h with
  | left h => exact ⟨rfl, .left h, rfl⟩
  | leftEdge h => exact ⟨rfl, .leftEdge h, rfl⟩
  | right h => exact ⟨rfl, .right h, rfl⟩
  | rightEdge h => exact ⟨rfl, .rightEdge h, rfl⟩
  | increment => exact ⟨rfl, .increment, rfl⟩
  | decrement => exact ⟨rfl, .decrement, rfl⟩
  | skip h hj => exact ⟨rfl, .skip h hj, rfl⟩
  | enter h => exact ⟨rfl, .enter h, rfl⟩
  | leave h => exact ⟨rfl, .leave h, rfl⟩
  | again h hj => exact ⟨rfl, .again h hj, rfl⟩
  | openAlone h hj => exact ⟨rfl, .openAlone h hj, rfl⟩
  | closeAlone h hj => exact ⟨rfl, .closeAlone h hj, rfl⟩
  | read => exact absurd rfl hin
  | readEnd => exact absurd rfl hin
  | readFails => exact absurd rfl hin
  | capped => exact absurd rfl hout
  | written => exact absurd rfl hout
  | writeFails => exact absurd rfl hout
  | flushFails => exact absurd rfl hout

/-- An executed instruction, beside the run without failures. -/
theorem Executes.resumes {ins : Instruction} {op : Opcode} {f : Option Fault} {t' : Snapshot}
    (hm : Matches u t) (hr : ¬ t.Finished code) (hi : code.fetch? t.machine.pc = some ins)
    (hop : ins.opcode = op) (hc : capFault? t.machine.steps .stepLimit caps.steps = none)
    (he : Executes code.jumps caps.output t op f t') :
    Resumes code caps u t (f.map (·.locate code.program.source ins)) t' := by
  obtain ⟨m, r, k⟩ := u
  obtain ⟨rfl, hrest, hhealthy⟩ := hm
  have hwrites := Code.writesAt_of_fetch hi
  rw [hop] at hwrites
  -- the step without failures, from the command that it executes
  have hfree : ∀ {g : Option Fault} {v : Snapshot},
      Executes code.jumps caps.output ⟨t.machine, r, k⟩ op g v →
        step code caps ⟨t.machine, r, k⟩ = (g.map (·.locate code.program.source ins), v) := by
    intro g v hex
    subst hop
    exact (Stepped.executed (s := ⟨t.machine, r, k⟩) hr hi hc hex).eq
  by_cases hin : op = .input
  · subst hin
    cases he with
    | read h hb =>
      have hex : Executes code.jumps caps.output ⟨t.machine, r, k⟩ .input _ _ :=
        .read (hhealthy.1 _) (hrest.trans hb)
      exact .silent hr (hfree hex) (not_flushFails_of_output_eq rfl) hwrites
        ⟨rfl, rfl, hex.healthy hhealthy⟩ rfl rfl rfl
    | readEnd h hb =>
      have hex : Executes code.jumps caps.output ⟨t.machine, r, k⟩ .input _ _ :=
        .readEnd (hhealthy.1 _) (hrest.trans hb)
      exact .stuck (.inr (by simp)) (by rw [hfree hex]) (not_flushFails_of_output_eq rfl)
        ⟨rfl, hrest, hhealthy⟩ rfl
    | readFails h =>
      exact .refused (.inl ⟨rfl, by simp [h]⟩) (not_flushFails_of_output_eq rfl)
        ⟨rfl, hrest, hhealthy⟩ rfl
  by_cases hout : op = .output
  · subst hout
    cases he with
    | capped h =>
      have hex : Executes code.jumps caps.output ⟨t.machine, r, k⟩ .output _ _ := .capped h
      exact .stuck (.inr (by simp)) (by rw [hfree hex]) (not_flushFails_of_output_eq rfl)
        ⟨rfl, hrest, hhealthy⟩ rfl
    | written h hw hf =>
      have hex : Executes code.jumps caps.output ⟨t.machine, r, k⟩ .output _ _ :=
        .written h (hhealthy.2.1 _) (hhealthy.2.2 _)
      exact .printed hr (hfree hex) (fun hflush => hflush.2 hf)
        ⟨rfl, hrest, hex.healthy hhealthy⟩ rfl (Sink.bytes_accepted _ _) (Sink.bytes_accepted _ _)
    | writeFails h hw =>
      refine .refused (.inr (.inl ⟨rfl, by simp [hw]⟩)) ?_ ⟨rfl, hrest, hhealthy⟩ rfl
      rintro ⟨hcount, -⟩
      simp [Sink.refused] at hcount
    | flushFails h hw hf =>
      exact .doubled ⟨rfl, by simp [hf]⟩ hwrites ⟨rfl, hrest, hhealthy⟩ (Sink.bytes_accepted _ _)
  obtain ⟨heq, hex, hcount⟩ := he.on (u := ⟨t.machine, r, k⟩) hin hout rfl
  have hsame : t'.output = t.output := by rw [heq]
  have hrest' : r.rest = t'.input.rest := by rw [heq]; exact hrest
  have hbytes : t'.output.bytes = t.output.bytes := by rw [hsame]
  cases f with
  | none =>
    exact .silent hr (hfree hex) (not_flushFails_of_output_eq hsame) (by simp [hwrites, hout])
      ⟨rfl, hrest', hex.healthy hhealthy⟩ hcount hbytes rfl
  | some f =>
    exact .stuck (.inr (by simp)) (by rw [hfree hex]) (not_flushFails_of_output_eq hsame)
      ⟨(he.machine_eq (by simp)).symm, hrest', hhealthy⟩ hbytes

/-- **A call of the driver beside the step without failures.** -/
theorem Stepped.resumes {f : Option Fault} {t' : Snapshot} (hst : Stepped code caps t f t')
    (hm : Matches u t) : Resumes code caps u t f t' := by
  obtain ⟨m, r, k⟩ := u
  obtain ⟨rfl, hrest, hhealthy⟩ := hm
  cases hst with
  | finished h =>
    have hfree : Stepped code caps ⟨t.machine, r, k⟩ none _ := .finished h
    exact .stuck (.inl h) (by rw [hfree.eq]) (not_flushFails_of_output_eq rfl)
      ⟨rfl, hrest, hhealthy⟩ rfl
  | noInstruction hr hi =>
    have hfree : Stepped code caps ⟨t.machine, r, k⟩ _ _ := .noInstruction hr hi
    exact .stuck (.inr (by simp)) (by rw [hfree.eq]) (not_flushFails_of_output_eq rfl)
      ⟨rfl, hrest, hhealthy⟩ rfl
  | capped hr hi hc =>
    have hfree : Stepped code caps ⟨t.machine, r, k⟩ _ _ := .capped hr hi hc
    exact .stuck (.inr (by simp)) (by rw [hfree.eq]) (not_flushFails_of_output_eq rfl)
      ⟨rfl, hrest, hhealthy⟩ rfl
  | executed hr hi hc he => exact he.resumes ⟨rfl, hrest, hhealthy⟩ hr hi rfl hc

/-! ### Many calls -/

/-- The driver after `n` calls beside the run without failures, which has written `e`. -/
structure Abreast (code : Code) (caps : Caps) (s : Snapshot) (n : Nat) (u : Snapshot)
    (e : List UInt8) : Prop where
  /-- The run without failures has made as many steps as the driver. -/
  reached : s.healed.after code caps (s.advances code caps n) = some u
  beside : Matches u (s.drive code caps n)
  written : u.output.bytes = s.output.bytes ++ e
  counted : u.machine.outputBytes = s.machine.outputBytes + e.length
  /-- The sink of the driver holds each byte once more for every failed flush, and the byte that is
  about to be written for every flush of it that failed already. -/
  accepted : (s.drive code caps n).output.bytes =
    s.output.bytes ++ stretch (s.hits code caps n) e ++
      List.replicate (s.hits code caps n e.length) (s.drive code caps n).machine.outByte
  /-- No flush of a later byte was tried. -/
  later : ∀ q > e.length, s.hits code caps n q = 0
  /-- If a flush failed, its instruction is tried again. -/
  again : 0 < s.hits code caps n e.length →
    code.writesAt (s.drive code caps n).machine.pc = true

theorem hits_succ_of_not_flushFails {n : Nat}
    (h : ¬ FlushFails (s.drive code caps n) (s.drive code caps (n + 1))) :
    s.hits code caps (n + 1) = s.hits code caps n := by
  funext q
  rw [hits_succ, if_neg fun hq => h hq.1, Nat.add_zero]

theorem not_advances_of_fault {f : Fault} (h : (s.step code caps).1 = some f) :
    ¬ Advances code caps s := by
  rintro ⟨-, hnone⟩
  rw [h] at hnone
  cases hnone

namespace Abreast

variable {n : Nat} {e : List UInt8}

theorem start (code : Code) (caps : Caps) (s : Snapshot) : Abreast code caps s 0 s.healed [] where
  reached := rfl
  beside := matches_healed s
  written := (List.append_nil _).symm
  counted := (Int.add_zero _).symm
  accepted := by simp
  later := fun _ _ => rfl
  again := fun h => absurd h (Nat.lt_irrefl 0)

theorem machine_eq (h : Abreast code caps s n u e)
    (hm : Matches u (s.drive code caps (n + 1))) :
    (s.drive code caps (n + 1)).machine = (s.drive code caps n).machine :=
  hm.machine.symm.trans h.beside.machine

/-- A call that does nothing. -/
theorem idle (h : Abreast code caps s n u e) (hadv : ¬ Advances code caps (s.drive code caps n))
    (hflush : ¬ FlushFails (s.drive code caps n) (s.drive code caps (n + 1)))
    (hm : Matches u (s.drive code caps (n + 1)))
    (hbytes : (s.drive code caps (n + 1)).output.bytes = (s.drive code caps n).output.bytes) :
    Abreast code caps s (n + 1) u e where
  reached := by rw [advances_succ, if_neg hadv]; exact h.reached
  beside := hm
  written := h.written
  counted := h.counted
  accepted := by
    rw [hits_succ_of_not_flushFails hflush, hbytes, h.machine_eq hm, h.accepted]
  later := by rw [hits_succ_of_not_flushFails hflush]; exact h.later
  again := by rw [hits_succ_of_not_flushFails hflush, h.machine_eq hm]; exact h.again

/-- A call whose flush fails. -/
theorem doubled (h : Abreast code caps s n u e) (hadv : ¬ Advances code caps (s.drive code caps n))
    (hflush : FlushFails (s.drive code caps n) (s.drive code caps (n + 1)))
    (hwrites : code.writesAt (s.drive code caps n).machine.pc = true)
    (hm : Matches u (s.drive code caps (n + 1)))
    (hbytes : (s.drive code caps (n + 1)).output.bytes =
      (s.drive code caps n).output.bytes ++ [(s.drive code caps n).machine.outByte]) :
    Abreast code caps s (n + 1) u e := by
  -- the flush belongs to the byte that comes after those of `e`
  have hits_eq : ∀ q, s.hits code caps (n + 1) q =
      s.hits code caps n q + if q = e.length then 1 else 0 := by
    intro q
    rw [hits_succ, ← h.beside.machine, h.counted]
    congr 1
    by_cases hq : q = e.length
    · simp [hflush, hq]
    · have hne : (e.length : Int) ≠ q := by omega
      simp [hq, hne]
  refine ⟨?_, hm, h.written, h.counted, ?_, ?_, ?_⟩
  · rw [advances_succ, if_neg hadv]
    exact h.reached
  · have hold : stretch (s.hits code caps (n + 1)) e = stretch (s.hits code caps n) e :=
      stretch_congr fun q hq => by rw [hits_eq, if_neg (Nat.ne_of_lt hq), Nat.add_zero]
    rw [hbytes, h.accepted, hold, hits_eq, if_pos rfl, h.machine_eq hm, List.replicate_succ',
      ← List.append_assoc]
  · intro q hq
    rw [hits_eq, if_neg (Nat.ne_of_gt hq), h.later q hq]
  · intro _
    rw [h.machine_eq hm]
    exact hwrites

/-- A call that writes a byte. -/
theorem printed {u' : Snapshot} (h : Abreast code caps s n u e)
    (hadv : Advances code caps (s.drive code caps n)) (hr : ¬ u.Finished code)
    (hstep : u.step code caps = (none, u'))
    (hflush : ¬ FlushFails (s.drive code caps n) (s.drive code caps (n + 1)))
    (hm : Matches u' (s.drive code caps (n + 1)))
    (hcount : (s.drive code caps (n + 1)).machine.outputBytes =
      (s.drive code caps n).machine.outputBytes + 1)
    (hbytes : (s.drive code caps (n + 1)).output.bytes =
      (s.drive code caps n).output.bytes ++ [(s.drive code caps n).machine.outByte])
    (hbytes' : u'.output.bytes = u.output.bytes ++ [(s.drive code caps n).machine.outByte]) :
    Abreast code caps s (n + 1) u' (e ++ [(s.drive code caps n).machine.outByte]) ∧
      s.hits code caps (n + 1) (e ++ [(s.drive code caps n).machine.outByte]).length = 0 := by
  have hnone : s.hits code caps n (e.length + 1) = 0 := h.later _ (Nat.lt_succ_self _)
  rw [List.length_append, List.length_singleton, hits_succ_of_not_flushFails hflush]
  refine ⟨⟨?_, hm, ?_, ?_, ?_, ?_, ?_⟩, hnone⟩
  · rw [advances_succ, if_pos hadv]
    exact after_succ_right_iff.2 ⟨u, h.reached, hr, hstep⟩
  · rw [hbytes', h.written, List.append_assoc]
  · rw [hm.machine, hcount, ← h.beside.machine, h.counted, List.length_append,
      List.length_singleton]
    omega
  · rw [hits_succ_of_not_flushFails hflush, List.length_append, List.length_singleton, hnone,
      hbytes, h.accepted, stretch_concat, List.replicate_succ']
    simp only [List.replicate_zero, List.append_nil, List.append_assoc]
  · rw [hits_succ_of_not_flushFails hflush, List.length_append, List.length_singleton]
    exact fun q hq => h.later q (by omega)
  · rw [hits_succ_of_not_flushFails hflush, List.length_append, List.length_singleton, hnone]
    exact fun hpos => absurd hpos (Nat.lt_irrefl 0)

/-- A call that executes an instruction and writes nothing: no flush was to be tried again. -/
theorem silent {u' : Snapshot} (h : Abreast code caps s n u e)
    (hadv : Advances code caps (s.drive code caps n)) (hr : ¬ u.Finished code)
    (hstep : u.step code caps = (none, u'))
    (hflush : ¬ FlushFails (s.drive code caps n) (s.drive code caps (n + 1)))
    (hwrites : code.writesAt (s.drive code caps n).machine.pc = false)
    (hm : Matches u' (s.drive code caps (n + 1)))
    (hcount : (s.drive code caps (n + 1)).machine.outputBytes =
      (s.drive code caps n).machine.outputBytes)
    (hbytes : (s.drive code caps (n + 1)).output.bytes = (s.drive code caps n).output.bytes)
    (hbytes' : u'.output.bytes = u.output.bytes) :
    Abreast code caps s (n + 1) u' e ∧ s.hits code caps (n + 1) e.length = 0 := by
  have hnone : s.hits code caps n e.length = 0 := by
    refine Nat.eq_zero_of_not_pos fun hpos => ?_
    rw [h.again hpos] at hwrites
    cases hwrites
  rw [hits_succ_of_not_flushFails hflush]
  refine ⟨⟨?_, hm, ?_, ?_, ?_, ?_, ?_⟩, hnone⟩
  · rw [advances_succ, if_pos hadv]
    exact after_succ_right_iff.2 ⟨u, h.reached, hr, hstep⟩
  · rw [hbytes', h.written]
  · rw [hm.machine, hcount, ← h.beside.machine, h.counted]
  · rw [hits_succ_of_not_flushFails hflush, hbytes, h.accepted, hnone]
    rfl
  · rw [hits_succ_of_not_flushFails hflush]
    exact h.later
  · rw [hits_succ_of_not_flushFails hflush, hnone]
    exact fun hpos => absurd hpos (Nat.lt_irrefl 0)

/-- **One more call keeps the driver abreast**, and once a call has executed an instruction no byte
is left to be written again. -/
theorem call (h : Abreast code caps s n u e) :
    ∃ u' e', Abreast code caps s (n + 1) u' e' ∧
      (Advances code caps (s.drive code caps n) → s.hits code caps (n + 1) e'.length = 0) := by
  have hres := (stepped code caps (s.drive code caps n)).resumes h.beside
  have hfinished : u.Finished code ↔ (s.drive code caps n).Finished code := by
    rw [Finished, Finished, h.beside.machine]
  rw [← drive_succ] at hres
  generalize hf : ((s.drive code caps n).step code caps).1 = f at hres
  generalize ht : s.drive code caps (n + 1) = t at hres
  cases hres with
  | refused _ hflush hm hbytes =>
    subst ht
    have hadv := not_advances_of_fault hf
    exact ⟨u, e, h.idle hadv hflush hm hbytes, fun hyes => absurd hyes hadv⟩
  | doubled hflush hwrites hm hbytes =>
    subst ht
    have hadv := not_advances_of_fault hf
    exact ⟨u, e, h.doubled hadv hflush hwrites hm hbytes, fun hyes => absurd hyes hadv⟩
  | printed hr hstep hflush hm hcount hbytes hbytes' =>
    subst ht
    obtain ⟨hnext, hnone⟩ := h.printed ⟨hr, hf⟩ (mt hfinished.1 hr) hstep hflush hm hcount hbytes
      hbytes'
    exact ⟨_, _, hnext, fun _ => hnone⟩
  | silent hr hstep hflush hwrites hm hcount hbytes hbytes' =>
    subst ht
    obtain ⟨hnext, hnone⟩ := h.silent ⟨hr, hf⟩ (mt hfinished.1 hr) hstep hflush hwrites hm hcount
      hbytes hbytes'
    exact ⟨_, _, hnext, fun _ => hnone⟩
  | stuck hstop _ hflush hm hbytes =>
    subst ht
    have hadv : ¬ Advances code caps (s.drive code caps n) := by
      rintro ⟨hr, hnone⟩
      rcases hstop with hend | hfault
      · exact hr hend
      · exact hfault (hf.symm.trans hnone)
    exact ⟨u, e, h.idle hadv hflush hm hbytes, fun hyes => absurd hyes hadv⟩

end Abreast

/-- The driver keeps abreast of the run without failures. -/
theorem abreast (code : Code) (caps : Caps) (s : Snapshot) (n : Nat) :
    ∃ u e, Abreast code caps s n u e ∧ ∀ m, n = m + 1 →
      Advances code caps (s.drive code caps m) → s.hits code caps n e.length = 0 := by
  induction n with
  | zero => exact ⟨_, _, .start code caps s, fun m hm => nomatch hm⟩
  | succ n ih =>
    obtain ⟨u, e, h, -⟩ := ih
    obtain ⟨u', e', hnext, hnone⟩ := h.call
    refine ⟨u', e', hnext, fun m hm => ?_⟩
    cases hm
    exact hnone

/-! ### Finitely many failures -/

/-- How many of the calls before `bound` are still to be made, on the three schedules together. -/
def remaining (bound : Nat) (s : Snapshot) : Nat :=
  (bound - s.input.reads) + (bound - s.output.writes) + (bound - s.output.flushes)

theorem Executes.calls_le {jumps : JumpTable} {cap : Option Limit} {op : Opcode}
    {f : Option Fault} (h : Executes jumps cap s op f t) :
    s.input.reads ≤ t.input.reads ∧ s.output.writes ≤ t.output.writes ∧
      s.output.flushes ≤ t.output.flushes := by
  cases h <;> simp [Reader.advanced, Reader.missed, Sink.accepted, Sink.refused]

theorem Stepped.calls_le {f : Option Fault} (h : Stepped code caps s f t) :
    s.input.reads ≤ t.input.reads ∧ s.output.writes ≤ t.output.writes ∧
      s.output.flushes ≤ t.output.flushes := by
  cases h with
  | executed _ _ _ he => exact he.calls_le
  | _ => exact ⟨le_rfl, le_rfl, le_rfl⟩

theorem FailsBefore.stepped {bound : Nat} {f : Option Fault} (hb : s.FailsBefore bound)
    (h : Stepped code caps s f t) : t.FailsBefore bound := by
  obtain ⟨hread, hwrite, hflush⟩ := h.faults_eq
  intro n hn
  rw [hread, hwrite, hflush]
  exact hb n hn

theorem FailsBefore.drive {bound : Nat} (hb : s.FailsBefore bound) (n : Nat) :
    (s.drive code caps n).FailsBefore bound := by
  induction n with
  | zero => exact hb
  | succ n ih =>
    rw [drive_succ]
    exact ih.stepped (Snapshot.stepped code caps _)

/-- A call that meets a failure uses it up. -/
theorem Stepped.remaining_lt {bound : Nat} {f : Option Fault} (h : Stepped code caps s f t)
    (hb : s.FailsBefore bound) (hinjected : Injected s t) :
    t.remaining bound < s.remaining bound := by
  obtain ⟨hreads, hwrites, hflushes⟩ := h.calls_le
  unfold remaining
  rcases hinjected with ⟨hcount, hfails⟩ | ⟨hcount, hfails⟩ | ⟨hcount, hfails⟩
  · have hlt : s.input.reads < bound := lt_of_not_ge fun hge => hfails (hb _ hge).1
    omega
  · have hlt : s.output.writes < bound := lt_of_not_ge fun hge => hfails (hb _ hge).2.1
    omega
  · have hlt : s.output.flushes < bound := lt_of_not_ge fun hge => hfails (hb _ hge).2.2
    omega

/-- Where the run without failures makes a step, a call of the driver makes it too or meets a
failure. -/
theorem Resumes.advances_or_injected {f : Option Fault} {t' : Snapshot}
    (h : Resumes code caps u t f t') (hr : ¬ t.Finished code)
    (hstep : (u.step code caps).1 = none) : f = none ∨ Injected t t' ∧ f ≠ none ∧ Matches u t' := by
  cases h with
  | refused hinjected _ hm => exact .inr ⟨hinjected, by simp, hm⟩
  | doubled hflush _ hm => exact .inr ⟨.inr (.inr hflush), by simp, hm⟩
  | printed => exact .inl rfl
  | silent => exact .inl rfl
  | stuck hstop hfault =>
    rcases hstop with hend | hsome
    · exact absurd hend hr
    · exact absurd (hfault.symm.trans hstep) hsome

/-- Where the run without failures makes a step, the driver makes it after some failures. -/
theorem exists_advance {bound n : Nat} (hb : s.FailsBefore bound)
    (hm : Matches u (s.drive code caps n)) (hr : ¬ u.Finished code)
    (hstep : (u.step code caps).1 = none) :
    ∃ m ≥ n, s.advances code caps m = s.advances code caps n ∧
      Advances code caps (s.drive code caps m) ∧
      ∀ j, n ≤ j → j < m → Injected (s.drive code caps j) (s.drive code caps (j + 1)) := by
  -- every failure that is met leaves fewer to come
  induction hrem : (s.drive code caps n).remaining bound using Nat.strong_induction_on
    generalizing n with
  | _ k ih =>
    have hst := stepped code caps (s.drive code caps n)
    have hrn : ¬ (s.drive code caps n).Finished code := by
      rwa [Finished, ← hm.machine]
    rcases (hst.resumes hm).advances_or_injected hrn hstep with hnone | ⟨hinjected, hfault, hm'⟩
    · exact ⟨n, le_rfl, rfl, ⟨hrn, hnone⟩, fun j hj hlt => absurd hlt (Nat.not_lt.2 hj)⟩
    · have hlt := hst.remaining_lt (hb.drive n) hinjected
      rw [← drive_succ] at hlt hinjected hm'
      obtain ⟨m, hle, hcount, hadv, hall⟩ := ih _ (hrem ▸ hlt) hm' rfl
      refine ⟨m, Nat.le_of_succ_le hle, ?_, hadv, fun j hj hjm => ?_⟩
      · rw [hcount, advances_succ, if_neg fun h => hfault h.2, Nat.add_zero]
      · rcases Nat.eq_or_lt_of_le hj with rfl | hj
        · exact hinjected
        · exact hall j hj hjm

/-- The driver gets wherever the run without failures gets, with no byte left to be written again,
and on the way it ignores injected failures only. -/
theorem exists_drive {bound : Nat} (hb : s.FailsBefore bound) {k : Nat}
    (hu : s.healed.after code caps k = some u) :
    ∃ n e, s.advances code caps n = k ∧ Abreast code caps s n u e ∧
      s.hits code caps n e.length = 0 ∧
      ∀ j < n, ((s.drive code caps j).step code caps).1 ≠ none →
        Injected (s.drive code caps j) (s.drive code caps (j + 1)) := by
  induction k generalizing u with
  | zero =>
    cases hu
    exact ⟨0, [], rfl, .start code caps s, rfl, fun j hj => absurd hj (Nat.not_lt_zero j)⟩
  | succ k ih =>
    obtain ⟨v, hv, hr, hstep⟩ := after_succ_right_iff.1 hu
    obtain ⟨n, e, hcount, hn, -, hfaults⟩ := ih hv
    obtain ⟨m, hle, hcount', hadv, hinjected⟩ :=
      exists_advance hb hn.beside hr (by rw [hstep])
    obtain ⟨u', e', hm, hnone⟩ := abreast code caps s (m + 1)
    have htotal : s.advances code caps (m + 1) = k + 1 := by
      rw [advances_succ, if_pos hadv, hcount', hcount]
    obtain rfl : u' = u := by
      have hreached := hm.reached
      rw [htotal, hu] at hreached
      exact (Option.some.inj hreached).symm
    refine ⟨m + 1, e', htotal, hm, hnone m rfl hadv, fun j hj hfault => ?_⟩
    rcases Nat.lt_or_ge j n with hjn | hjn
    · exact hfaults j hjn hfault
    rcases Nat.lt_succ_iff_lt_or_eq.1 hj with hjm | rfl
    · exact hinjected j hjn hjm
    · exact absurd hadv.2 hfault

end Snapshot

open Snapshot

/-- **Failed steps are atomic and can be resumed.** A step that raises leaves the machine as it was.
Hence after any number of calls, with any failures, the driver has the machine and the rest of the
input of the run without failures after as many steps, and its sink holds the bytes of that run, each
once more for every flush of it that failed; and if only finitely many calls fail, the driver gets
wherever the run without failures gets and ignores nothing but injected failures on the way. -/
theorem failed_steps_resume (code : Code) (caps : Caps) :
    (∀ (m : Machine) (io : Streams) (φ : Fault), (TapeMachine.step code caps m io).fault = some φ →
      (TapeMachine.step code caps m io).machine = m) ∧
    ∀ s : Snapshot,
      (∀ n, ∃ u e, s.healed.after code caps (s.advances code caps n) = some u ∧
        (s.drive code caps n).machine = u.machine ∧
        (s.drive code caps n).input.rest = u.input.rest ∧
        u.output.bytes = s.output.bytes ++ e ∧
        (s.drive code caps n).output.bytes =
          s.output.bytes ++ stretch (s.hits code caps n) e ++
            List.replicate (s.hits code caps n e.length) (s.drive code caps n).machine.outByte ∧
        ∀ m, n = m + 1 → Advances code caps (s.drive code caps m) →
          s.hits code caps n e.length = 0) ∧
      ∀ bound, s.FailsBefore bound → ∀ k u, s.healed.after code caps k = some u →
        ∃ n e, s.advances code caps n = k ∧
          (s.drive code caps n).machine = u.machine ∧
          (s.drive code caps n).input.rest = u.input.rest ∧
          u.output.bytes = s.output.bytes ++ e ∧
          (s.drive code caps n).output.bytes =
            s.output.bytes ++ stretch (s.hits code caps n) e ∧
          ∀ j < n, ((s.drive code caps j).step code caps).1 ≠ none →
            Injected (s.drive code caps j) (s.drive code caps (j + 1)) := by
  refine ⟨fun m io φ hφ => ?_, fun s => ⟨fun n => ?_, fun bound hb k u hu => ?_⟩⟩
  · exact (stepped_of code caps m io).machine_eq (by simp [hφ])
  · obtain ⟨u, e, h, hnone⟩ := abreast code caps s n
    exact ⟨u, e, h.reached, h.beside.machine.symm, h.beside.rest.symm, h.written, h.accepted, hnone⟩
  · obtain ⟨n, e, hcount, h, hnone, hfaults⟩ := exists_drive hb hu
    refine ⟨n, e, hcount, h.beside.machine.symm, h.beside.rest.symm, h.written, ?_, hfaults⟩
    rw [h.accepted, hnone, List.replicate_zero, List.append_nil]

/-- One byte to read, on streams whose first read, first write and first two flushes fail. -/
def faltering : Snapshot :=
  .start ⟨1, Nat.one_pos, false, .u8, .none, "False"⟩
    ⟨[65], 0, fun n => if n < 1 then some .closed else none⟩
    ⟨[], [], 0, 0, fun n => if n < 1 then some .closed else none,
      fun n => if n < 2 then some .closed else none⟩

/-- The program `,.` copies its byte in two steps. The driver needs six calls for them, and its sink
then holds the byte three times, twice for the flushes that failed. -/
theorem failed_steps_resume_faltering :
    faltering.FailsBefore 2 ∧
      ∃ code u, Code.ofProgram (Program.ofText (some "p") ",.") = .ok code ∧
        faltering.healed.after code .none 2 = some u ∧ u.output.bytes = [65] ∧
        faltering.advances code .none 6 = 2 ∧
        (faltering.drive code .none 6).output.bytes = [65, 65, 65] ∧
        ∃ n e, faltering.advances code .none n = 2 ∧
          (faltering.drive code .none n).machine = u.machine ∧
          u.output.bytes = faltering.output.bytes ++ e ∧
          (faltering.drive code .none n).output.bytes =
            faltering.output.bytes ++ stretch (faltering.hits code .none n) e := by
  have hbound : faltering.FailsBefore 2 := fun n hn =>
    ⟨if_neg (by omega), if_neg (by omega), if_neg (by omega)⟩
  have hdriven : ∀ code u, faltering.healed.after code .none 2 = some u →
      ∃ n e, faltering.advances code .none n = 2 ∧
        (faltering.drive code .none n).machine = u.machine ∧
        u.output.bytes = faltering.output.bytes ++ e ∧
        (faltering.drive code .none n).output.bytes =
          faltering.output.bytes ++ stretch (faltering.hits code .none n) e := by
    intro code u hu
    obtain ⟨n, e, hcount, hmachine, -, hwritten, haccepted, -⟩ :=
      ((failed_steps_resume code .none).2 faltering).2 2 hbound 2 u hu
    exact ⟨n, e, hcount, hmachine, hwritten, haccepted⟩
  exact ⟨hbound, _, _, rfl, rfl, rfl, rfl, rfl, hdriven _ _ rfl⟩

end TapeMachine
