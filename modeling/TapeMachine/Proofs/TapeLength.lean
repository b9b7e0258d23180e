import Mathlib
import TapeMachine.Proofs.Blame
import TapeMachine.Proofs.Lockstep
import TapeMachine.Proofs.Tape

/-!
# Tapes of any length

A tape is a finite row, and what a program means by it is an infinite one: beyond its length every cell
is zero. An extensible tape never shows where it ends. Two of them may have any lengths and are doubled
at different moments, and still no command tells them apart. A tape of fixed length is told from an
extensible one at one place only, by a move to the right from its last cell.

## What is proved

* `SameRow.congruent`, `SameRow.indistinct`: being the same infinite row is kept by every command, apart
  from that move.
* `Stepped.moveRight?_of_overflow`: an overflow is raised by no other move.
* `tape_length_unobservable`: extensible tapes of any lengths give the same runs, without overflows, and
  a tape of fixed length gives the same run up to its overflow.
-/

namespace TapeMachine

open Snapshot

/-! ### Infinite rows -/

namespace Tape

/-- The value of the cell at an index, zero beyond the length. -/
def value (t : Tape) (i : Nat) : Int := t.cells.toList.getD i 0

theorem value_pointer (t : Tape) : t.value t.pointer = t.current := t.current_eq.symm

theorem value_of_length_le {t : Tape} {i : Nat} (h : t.length ≤ i) : t.value i = 0 :=
  List.getD_eq_default _ _ (by simpa [length] using h)

theorem value_blank (n : Nat) (pos : 0 < n) (extensible : Bool) (kind : CellKind) (i : Nat) :
    (blank n pos extensible kind).value i = 0 := by
  rw [value, blank, Array.toList_replicate, List.getD_eq_getElem?_getD]
  exact List.getElem?_getD_replicate_default_eq ..

theorem value_put (t : Tape) (v : Int) (i : Nat) :
    (t.put v).value i = if t.pointer = i then v else t.value i := by
  have hlt := t.pointer_lt
  rw [value, value, toList_cells_put, List.getD_eq_getElem?_getD, List.getElem?_set]
  split
  · next h =>
    subst h
    simp [hlt]
  · rw [List.getD_eq_getElem?_getD]

theorem value_moveLeft {t u : Tape} (h : t.moveLeft? = some u) (i : Nat) : u.value i = t.value i := by
  obtain ⟨-, -, hcells, -⟩ := moveLeft?_eq_some_iff.1 h
  rw [value, value, hcells]

/-- Doubling a tape adds zeros, which were there before. -/
theorem value_moveRight {t u : Tape} (h : t.moveRight? = some u) (i : Nat) :
    u.value i = t.value i := by
  obtain ⟨-, -, -, ⟨-, hcells⟩ | ⟨-, -, hcells⟩⟩ := moveRight?_eq_some h
  · rw [value, value, hcells]
  · rw [value, value, hcells, Array.toList_append, Array.toList_replicate]
    by_cases hi : i < t.cells.toList.length
    · exact List.getD_append _ _ _ _ hi
    · have hle := Nat.le_of_not_lt hi
      rw [List.getD_append_right _ _ _ _ hle, List.getD_eq_default _ _ hle,
        List.getD_eq_getElem?_getD]
      exact List.getElem?_getD_replicate_default_eq ..

/-- An extensible tape has always room to the right. -/
theorem moveRight?_ne_none {t : Tape} (h : t.extensible = true) : t.moveRight? ≠ none := by
  rw [Ne, moveRight?_eq_none_iff, h]
  simp

/-- Two tapes are the same infinite row, at the same place. The second is extensible; the first is so
too, unless it has a fixed length. -/
structure SameRow (fixed : Option Nat) (a b : Tape) : Prop where
  kind : a.kind = b.kind
  pointer : a.pointer = b.pointer
  value (i : Nat) : a.value i = b.value i
  extensible : a.extensible = fixed.isNone
  length (c : Nat) (hc : c ∈ fixed) : a.length = c
  extensible_right : b.extensible = true

namespace SameRow

variable {fixed : Option Nat} {a b : Tape}

theorem current (h : SameRow fixed a b) : a.current = b.current := by
  rw [← value_pointer, ← value_pointer, h.pointer, h.value]

theorem put (h : SameRow fixed a b) (v : Int) : SameRow fixed (a.put v) (b.put v) where
  kind := h.kind
  pointer := h.pointer
  value i := by rw [value_put, value_put, h.pointer, h.value]
  extensible := h.extensible
  length c hc := (length_put a v).trans (h.length c hc)
  extensible_right := h.extensible_right

theorem moveLeft (h : SameRow fixed a b) : Option.Rel (SameRow fixed) a.moveLeft? b.moveLeft? := by
  refine rel_of_none_iff ?_ fun u v hu hv => ?_
  · rw [moveLeft?_eq_none_iff, moveLeft?_eq_none_iff, h.pointer]
  · obtain ⟨hkind, hext, hcells, hpointer⟩ := moveLeft?_eq_some_iff.1 hu
    obtain ⟨hkind', hext', -, hpointer'⟩ := moveLeft?_eq_some_iff.1 hv
    have hplace := h.pointer
    refine ⟨by rw [hkind, hkind', h.kind], by omega, fun i => ?_, hext.trans h.extensible,
      fun c hc => ?_, hext'.trans h.extensible_right⟩
    · rw [value_moveLeft hu, value_moveLeft hv, h.value]
    · rw [Tape.length, hcells]
      exact h.length c hc

/-- A move to the right, where a first tape of fixed length has room for it. -/
theorem moveRight (h : SameRow fixed a b) (hroom : ∀ c ∈ fixed, a.pointer + 1 ≠ c) :
    Option.Rel (SameRow fixed) a.moveRight? b.moveRight? := by
  have hb : b.moveRight? ≠ none := moveRight?_ne_none h.extensible_right
  have ha : a.moveRight? ≠ none := by
    rw [Ne, moveRight?_eq_none_iff, h.extensible]
    rintro ⟨hlast, hfixed⟩
    obtain ⟨c, hc⟩ := Option.isSome_iff_exists.1 (by simpa using hfixed)
    exact hroom c hc (hlast ▸ h.length c hc)
  refine rel_of_none_iff (iff_of_false ha hb) fun u v hu hv => ?_
  obtain ⟨hkind, hext, hpointer, hcells⟩ := moveRight?_eq_some hu
  obtain ⟨hkind', hext', hpointer', -⟩ := moveRight?_eq_some hv
  refine ⟨by rw [hkind, hkind', h.kind], by rw [hpointer, hpointer', h.pointer], fun i => ?_,
    hext.trans h.extensible, fun c hc => ?_, hext'.trans h.extensible_right⟩
  · rw [value_moveRight hu, value_moveRight hv, h.value]
  · -- a tape of fixed length is not doubled
    have hfixed : a.extensible = false := by rw [h.extensible, Option.mem_def.1 hc]; rfl
    rcases hcells with ⟨-, hcells⟩ | ⟨-, hgrows, -⟩
    · rw [Tape.length, hcells]
      exact h.length c hc
    · rw [hfixed] at hgrows
      cases hgrows

theorem congruent : Congruent (SameRow fixed) where
  moveLeft h := h.moveLeft
  increment {a b} h := by
    rw [Tape.increment, Tape.increment, h.kind, h.current]
    exact h.put _
  decrement {a b} h := by
    rw [Tape.decrement, Tape.decrement, h.kind, h.current]
    exact h.put _
  setByte {a b} h x := by
    rw [Tape.setByte, Tape.setByte, h.kind]
    exact h.put _
  byte {a b} h := by rw [Tape.byte, Tape.byte, h.kind, h.current]

theorem indistinct {op : Opcode} (h : SameRow fixed a b)
    (hroom : op = .moveRight → ∀ c ∈ fixed, a.pointer + 1 ≠ c) :
    Indistinct (SameRow fixed) op a b where
  moveRight hop := h.moveRight (hroom hop)
  test _ := by rw [h.current]

end SameRow

end Tape

/-! ### Overflows -/

/-- The fault is that the pointer left the tape to the right. -/
def Fault.Overflow (φ : Fault) : Prop :=
  ∃ e cause, φ = .error e cause ∧ e.problem = .pointerOverflow

namespace Fault

theorem not_overflow_ofFailure {problem : Value → Problem} (f : Failure)
    (h : ∀ v, problem v ≠ .pointerOverflow) : ¬ (ofFailure problem f).Overflow := by
  rintro ⟨e, cause, he, hproblem⟩
  unfold ofFailure at he
  split at he
  · cases he
    exact h _ hproblem
  · cases he

theorem not_overflow_of_capFault? {n : Int} {problem : Limit → Problem} {cap : Option Limit}
    {f : Fault} (hf : capFault? n problem cap = some f) (h : ∀ l, problem l ≠ .pointerOverflow) :
    ¬ f.Overflow := by
  rintro ⟨e, cause, rfl, hproblem⟩
  obtain ⟨l, rfl⟩ := eq_unplaced_of_capFault? hf
  exact h l hproblem

/-- Blaming a fault on an instruction does not make it an overflow. -/
theorem overflow_of_locate {f : Fault} {source : Option String} {ins : Instruction}
    (h : (f.locate source ins).Overflow) : f.Overflow := by
  obtain ⟨e, cause, he, hproblem⟩ := h
  obtain ⟨e', rfl, rfl⟩ := eq_error_of_locate he
  exact ⟨e', cause, rfl, hproblem⟩

end Fault

namespace Snapshot

variable {code : Code} {caps : Caps}

theorem Executes.moveRight?_of_overflow {jumps : JumpTable} {cap : Option Limit} {op : Opcode}
    {f : Option Fault} {s t : Snapshot} (h : Executes jumps cap s op f t) {φ : Fault}
    (hf : f = some φ) (hφ : φ.Overflow) : s.machine.tape.moveRight? = none := by
  cases h with
  | rightEdge hu => exact hu
  | capped hc =>
    cases hf
    exact absurd hφ (Fault.not_overflow_of_capFault? hc fun _ h => nomatch h)
  | readFails _ | writeFails _ _ | flushFails _ _ _ =>
    cases hf
    exact absurd hφ (Fault.not_overflow_ofFailure _ fun _ h => nomatch h)
  | leftEdge _ | readEnd _ _ =>
    cases hf
    obtain ⟨e, cause, he, hproblem⟩ := hφ
    cases he
    cases hproblem
  | openAlone _ _ | closeAlone _ _ =>
    cases hf
    obtain ⟨e, cause, he, -⟩ := hφ
    cases he
  | _ => cases hf

/-- **Overflows are raised at the end of a fixed tape only.** -/
theorem Stepped.moveRight?_of_overflow {f : Option Fault} {s t : Snapshot}
    (h : Stepped code caps s f t) {φ : Fault} (hf : f = some φ) (hφ : φ.Overflow) :
    s.machine.tape.moveRight? = none := by
  cases h with
  | finished => cases hf
  | noInstruction =>
    cases hf
    obtain ⟨e, cause, he, -⟩ := hφ
    cases he
  | capped _ _ hc =>
    cases hf
    exact absurd (Fault.overflow_of_locate hφ)
      (Fault.not_overflow_of_capFault? hc fun _ h => nomatch h)
  | executed _ _ _ he =>
    obtain ⟨ψ, hψ, rfl⟩ := Option.map_eq_some_iff.1 hf
    exact he.moveRight?_of_overflow hψ (Fault.overflow_of_locate hφ)

theorem not_overflow_step {s : Snapshot} (h : s.machine.tape.extensible = true) {φ : Fault}
    (hf : (s.step code caps).1 = some φ) : ¬ φ.Overflow := by
  intro hφ
  exact Tape.moveRight?_ne_none h ((stepped code caps s).moveRight?_of_overflow hf hφ)

/-! ### The last cell -/

/-- The next step executes a move to the right, from the last of `c` cells. -/
def AtEdge (code : Code) (caps : Caps) (c : Nat) (t : Snapshot) : Prop :=
  Executing code caps t .moveRight ∧ t.machine.tape.pointer + 1 = c

/-- **Where the tapes part**: on a tape of fixed length the move to the right from its last cell fails,
and on an extensible one it comes to a cell that is zero. -/
theorem Alike.step_atEdge {c : Nat} {s t : Snapshot} (h : Alike (Tape.SameRow (some c)) s t)
    (hedge : AtEdge code caps c t) :
    s.step code caps = (some (code.faultAt s.machine.pc .pointerOverflow), s) ∧
      ∃ t', t.step code caps = (none, t') ∧ t'.machine.tape.pointer = c ∧
        t'.machine.tape.current = 0 := by
  obtain ⟨⟨hr, hc, ins, hi, hop⟩, hlast⟩ := hedge
  have hlength : s.machine.tape.length = c := h.tape.length c rfl
  constructor
  · have hnone : s.machine.tape.moveRight? = none := by
      rw [Tape.moveRight?_eq_none_iff, hlength, h.tape.pointer, h.tape.extensible]
      exact ⟨hlast.symm, rfl⟩
    rw [← h.finished_iff] at hr
    rw [← h.pc] at hi
    rw [← h.steps] at hc
    have he : Executes code.jumps caps.output s ins.opcode (some (.ofProblem .pointerOverflow)) s :=
      hop ▸ .rightEdge hnone
    rw [(Stepped.executed hr hi hc he).eq, ← Code.locate_ofProblem hi]
    rfl
  · obtain ⟨v, hv⟩ :=
      Option.ne_none_iff_exists'.1 (Tape.moveRight?_ne_none h.tape.extensible_right)
    have he : Executes code.jumps caps.output t ins.opcode none
        { t with machine := t.machine.advance v } := hop ▸ .right hv
    have hpointer : v.pointer = c := (Tape.moveRight?_eq_some hv).2.2.1.trans hlast
    refine ⟨_, (Stepped.executed hr hi hc he).eq, hpointer, ?_⟩
    calc v.current = v.value c := by rw [← hpointer, Tape.value_pointer]
      _ = t.machine.tape.value c := Tape.value_moveRight hv c
      _ = s.machine.tape.value c := (h.tape.value c).symm
      _ = 0 := Tape.value_of_length_le hlength.le

end Snapshot

/-! ### Runs -/

/-- The same settings with a tape of another length, extensible or not. -/
def Settings.withTape (settings : Settings) (c : Nat) (hc : 0 < c) (extensible : Bool) : Settings :=
  { settings with cells := c, cells_pos := hc, extensible := extensible }

namespace Snapshot

variable {code : Code} {caps : Caps} {settings : Settings} {input : Reader} {output : Sink}
variable {c c' : Nat}

theorem alike_start_withTape (hc : 0 < c) (hc' : 0 < c') (fixed : Option Nat)
    (hfixed : ∀ n ∈ fixed, n = c) :
    Alike (Tape.SameRow fixed) (start (settings.withTape c hc fixed.isNone) input output)
      (start (settings.withTape c' hc' true) input output) where
  tape :=
    { kind := rfl
      pointer := rfl
      value := fun i =>
        (Tape.value_blank c hc _ _ i).trans (Tape.value_blank c' hc' _ _ i).symm
      extensible := rfl
      length := fun n hn => by
        rw [hfixed n hn]
        exact Array.size_replicate
      extensible_right := rfl }
  pc := rfl
  steps := rfl
  outputBytes := rfl
  input := rfl
  output := rfl

theorem alike_start_extensible (hc : 0 < c) (hc' : 0 < c') :
    Alike (Tape.SameRow none) (start (settings.withTape c hc true) input output)
      (start (settings.withTape c' hc' true) input output) :=
  alike_start_withTape hc hc' none fun n hn => absurd hn (Option.not_mem_none n)

theorem alike_start_fixed (hc : 0 < c) (hc' : 0 < c') :
    Alike (Tape.SameRow (some c)) (start (settings.withTape c hc false) input output)
      (start (settings.withTape c' hc' true) input output) :=
  alike_start_withTape hc hc' (some c) fun _ hn => (Option.some.inj hn).symm

theorem indistinct_of_extensible (s t : Snapshot) (op : Opcode)
    (h : Alike (Tape.SameRow none) s t) :
    Tape.Indistinct (Tape.SameRow none) op s.machine.tape t.machine.tape :=
  h.tape.indistinct fun _ n hn => absurd hn (Option.not_mem_none n)

theorem indistinct_of_not_atEdge (s t : Snapshot) (op : Opcode)
    (h : Alike (Tape.SameRow (some c)) s t) (hx : Executing code caps t op)
    (hroom : ¬ AtEdge code caps c t) :
    Tape.Indistinct (Tape.SameRow (some c)) op s.machine.tape t.machine.tape := by
  refine h.tape.indistinct ?_
  rintro rfl n hn hlast
  obtain rfl : c = n := Option.some.inj hn
  exact hroom ⟨hx, h.tape.pointer ▸ hlast⟩

/-- **Extensible tapes of any lengths** give runs that never part. -/
theorem agreeUntil_extensible (hc : 0 < c) (hc' : 0 < c') :
    AgreeUntil code settings.caps (Tape.SameRow none) (fun _ => False)
      (start (settings.withTape c hc true) input output)
      (start (settings.withTape c' hc' true) input output) :=
  agreeUntil Tape.SameRow.congruent (fun s t op h _ _ => indistinct_of_extensible s t op h)
    (alike_start_extensible hc hc')

/-- A run on an extensible tape stays on one. -/
theorem extensible_after (hc : 0 < c) {n : Nat} {s : Snapshot}
    (hs : (start (settings.withTape c hc true) input output).after code settings.caps n = some s) :
    s.machine.tape.extensible = true := by
  -- the run is compared with itself
  have hagree : AgreeUntil code settings.caps (Tape.SameRow none) (fun _ => False)
      (start (settings.withTape c hc true) input output)
      (start (settings.withTape c hc true) input output) := agreeUntil_extensible hc hc
  obtain ⟨hrel, -⟩ := hagree n fun _ _ _ _ => not_false
  rw [hs] at hrel
  obtain ⟨t, -, halike⟩ := exists_of_rel_some hrel
  exact halike.tape.extensible

/-- **A tape of fixed length** gives the same run as an extensible one, up to its last cell. -/
theorem agreeUntil_fixed (hc : 0 < c) (hc' : 0 < c') :
    AgreeUntil code settings.caps (Tape.SameRow (some c)) (AtEdge code settings.caps c)
      (start (settings.withTape c hc false) input output)
      (start (settings.withTape c' hc' true) input output) :=
  agreeUntil Tape.SameRow.congruent indistinct_of_not_atEdge (alike_start_fixed hc hc')

end Snapshot

/-- On an extensible tape no run fails with an overflow. -/
theorem not_overflow_interpret {code : Code} {settings : Settings} {input : Reader} {output : Sink}
    {c : Nat} (hc : 0 < c) {fuel : Nat} {φ : Fault}
    (h : (interpret fuel code (settings.withTape c hc true) input output).ending = .failed φ) :
    ¬ φ.Overflow := by
  obtain ⟨ending, m, io, -, hrun, hends, -⟩ :=
    interpret_eq_close fuel code (settings.withTape c hc true) input output
  rw [hrun] at h
  rcases Run.eq_or_failure_of_close h with rfl | ⟨f, rfl⟩
  · obtain ⟨n, -, t, ht, -, hstep⟩ := hends
    exact not_overflow_step (extensible_after hc ht) (congrArg Prod.fst hstep)
  · rintro ⟨e, cause, he, -⟩
    cases he

/-- **The length of a tape does not show.** On extensible tapes of any two lengths the runs agree step
by step: they have the same program counter, pointer, counters and streams, they raise the same faults,
and every cell has the same value, where cells beyond the length count as zero. They have the same
outcome, and none of them overflows. On a tape with a fixed number of cells the run agrees with one on
an extensible tape up to the first move to the right from the last cell that is executed. There the
first overflows, and the second moves on to a cell that is zero. If there is none, the runs have the
same outcome. -/
theorem tape_length_unobservable (code : Code) (settings : Settings) (input : Reader) (output : Sink)
    {c c' : Nat} (hc : 0 < c) (hc' : 0 < c') :
    (AgreeUntil code settings.caps (Tape.SameRow none) (fun _ => False)
        (start (settings.withTape c hc true) input output)
        (start (settings.withTape c' hc' true) input output) ∧
      (∀ fuel, Run.SameOutcome (Tape.SameRow none)
        (interpret fuel code (settings.withTape c hc true) input output)
        (interpret fuel code (settings.withTape c' hc' true) input output)) ∧
      (∀ n s φ, (start (settings.withTape c hc true) input output).after code settings.caps n =
        some s → (s.step code settings.caps).1 = some φ → ¬ φ.Overflow) ∧
      ∀ fuel φ, (interpret fuel code (settings.withTape c hc true) input output).ending =
        .failed φ → ¬ φ.Overflow) ∧
    AgreeUntil code settings.caps (Tape.SameRow (some c)) (AtEdge code settings.caps c)
        (start (settings.withTape c hc false) input output)
        (start (settings.withTape c' hc' true) input output) ∧
      (∀ n t, StopFree code settings.caps (AtEdge code settings.caps c)
          (start (settings.withTape c' hc' true) input output) n →
        (start (settings.withTape c' hc' true) input output).after code settings.caps n = some t →
        AtEdge code settings.caps c t →
        ∃ s t', (start (settings.withTape c hc false) input output).after code settings.caps n =
            some s ∧
          s.step code settings.caps = (some (code.faultAt s.machine.pc .pointerOverflow), s) ∧
          t.step code settings.caps = (none, t') ∧ t'.machine.tape.pointer = c ∧
          t'.machine.tape.current = 0) ∧
      ((∀ n, StopFree code settings.caps (AtEdge code settings.caps c)
          (start (settings.withTape c' hc' true) input output) n) →
        ∀ fuel, Run.SameOutcome (Tape.SameRow (some c))
          (interpret fuel code (settings.withTape c hc false) input output)
          (interpret fuel code (settings.withTape c' hc' true) input output)) := by
  have hfixed : AgreeUntil code settings.caps (Tape.SameRow (some c)) (AtEdge code settings.caps c)
      (start (settings.withTape c hc false) input output)
      (start (settings.withTape c' hc' true) input output) := agreeUntil_fixed hc hc'
  refine ⟨⟨agreeUntil_extensible hc hc', ?_, fun n s φ hs => not_overflow_step (extensible_after hc hs),
    fun fuel φ hφ => not_overflow_interpret hc hφ⟩, hfixed, fun n t hfree ht hedge => ?_,
    fun hnever => ?_⟩
  · exact interpret_alike Tape.SameRow.congruent
      (fun s t op h _ _ => indistinct_of_extensible s t op h) (alike_start_extensible hc hc') rfl
      fun n j _ u _ => not_false
  · obtain ⟨hrel, -⟩ := hfixed n hfree
    rw [ht] at hrel
    generalize hs : (start (settings.withTape c hc false) input output).after code settings.caps n = x
      at hrel
    cases hrel with
    | some halike =>
      obtain ⟨hfault, t', hstep, hpointer, hzero⟩ := halike.step_atEdge hedge
      exact ⟨_, t', rfl, hfault, hstep, hpointer, hzero⟩
  · exact interpret_alike Tape.SameRow.congruent indistinct_of_not_atEdge (alike_start_fixed hc hc') rfl
      hnever

/-- The program `+>+>.<.` on extensible tapes of two and of three cells, of which the first is doubled,
and on two fixed cells. There the second move to the right overflows, and an extensible tape has a zero
at that place. -/
theorem tape_length_unobservable_doubling :
    ∃ code, Code.ofProgram (Program.ofText (some "p") "+>+>.<.") = .ok code ∧
      (∃ (two : 0 < 2) (three : 0 < 3),
        (interpret 9 code (oneCell.withTape 2 two true) (.ofBytes []) .healthy).machine.tape.length =
          4 ∧
        (interpret 9 code (oneCell.withTape 3 three true) (.ofBytes []) .healthy).machine.tape.length =
          3 ∧
        Run.SameOutcome (Tape.SameRow none)
          (interpret 9 code (oneCell.withTape 2 two true) (.ofBytes []) .healthy)
          (interpret 9 code (oneCell.withTape 3 three true) (.ofBytes []) .healthy) ∧
        ∃ s t t', (start (oneCell.withTape 2 two false) (.ofBytes []) .healthy).after code .none 3 =
            some s ∧
          (start (oneCell.withTape 3 three true) (.ofBytes []) .healthy).after code .none 3 = some t ∧
          s.step code .none =
            (some (.error ⟨.pointerOverflow, some "p", some ⟨1, 4, .moveRight⟩⟩ none), s) ∧
          t.step code .none = (none, t') ∧ t'.machine.tape.pointer = 2 ∧
          t'.machine.tape.current = 0) := by
  have hfree : ∀ code, Code.ofProgram (Program.ofText (some "p") "+>+>.<.") = .ok code →
      StopFree code .none (AtEdge code .none 2)
        (start (oneCell.withTape 3 (by decide) true) (.ofBytes []) .healthy) 3 := by
    rintro code hcode j hj u hu ⟨⟨-, -, ins, hi, hop⟩, hlast⟩
    cases hcode
    match j, hj with
    | 0, _ | 1, _ =>
      cases hu
      cases hlast
    | 2, _ =>
      cases hu
      cases hi
      cases hop
  have hedge : ∀ code t, Code.ofProgram (Program.ofText (some "p") "+>+>.<.") = .ok code →
      (start (oneCell.withTape 3 (by decide) true) (.ofBytes []) .healthy).after code .none 3 =
        some t → AtEdge code .none 2 t := by
    intro code t hcode ht
    cases hcode
    cases ht
    exact ⟨⟨by decide, rfl, _, rfl, rfl⟩, rfl⟩
  refine ⟨_, rfl, by decide, by decide, by decide +kernel, by decide +kernel, ?_⟩
  obtain ⟨⟨-, hsame, -⟩, -, hparts, -⟩ := tape_length_unobservable _ oneCell (.ofBytes []) .healthy
    (show 0 < 2 by decide) (show 0 < 3 by decide)
  obtain ⟨s, t', hs, hfault, hstep, hpointer, hzero⟩ := hparts 3 _ (hfree _ rfl) rfl (hedge _ _ rfl rfl)
  cases hs
  exact ⟨hsame 9, _, _, t', rfl, rfl, hfault, hstep, hpointer, hzero⟩

end TapeMachine
