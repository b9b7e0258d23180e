import Mathlib
import TapeMachine.Proofs.Invariant
import TapeMachine.Proofs.TapeLength
import TapeMachine.Tape.Loose

/-!
# How far a tape grows

An extensible tape is doubled when the pointer leaves it to the right, and never otherwise. So its length
tells about the whole history of the pointer, and not about where the pointer is now: it is the first of
the lengths `c`, `2c`, `4c`, … that has room for the highest position that the pointer ever had.

## The model

`Tape.Extent c peak t` ties a tape to the length `c` that it began with and to the highest position
`peak` so far. On tapes worked by hand, `visited` is the set of all positions that the pointer has had,
calls that failed included.

## What is proved

* `Extent.moveRight`: a move to the right doubles the tape exactly if the highest position gets out of
  its room.
* `Explored.call`: what a call on a tape worked by hand can do, and that it leaves cells alone that were
  not visited.
* `Paced.executes`: in a run the highest position is at most the number of steps.
* `tape_growth_exact`: the length after any calls, and its bound in every run.
-/

namespace TapeMachine

open Snapshot

/-! ### The highest position -/

namespace Tape

/-- A tape that began with `c` cells and whose pointer has been at `peak` and never further: it has been
doubled as often as `peak` made necessary, and never if it is not extensible. -/
structure Extent (c peak : Nat) (t : Tape) : Prop where
  pointer_le : t.pointer ≤ peak
  peak_lt : peak < t.length
  length : ∃ k, t.length = c * 2 ^ k ∧ (∀ j < k, c * 2 ^ j ≤ peak) ∧
    (t.extensible = false → k = 0)

namespace Extent

variable {c peak : Nat} {t u : Tape}

theorem blank (c : Nat) (hc : 0 < c) (extensible : Bool) (kind : CellKind) :
    (Tape.blank c hc extensible kind).Extent c 0 where
  pointer_le := le_rfl
  peak_lt := by simpa [Tape.blank, Tape.length] using hc
  length := ⟨0, by simp [Tape.blank, Tape.length], by simp, fun _ => rfl⟩

theorem put (h : t.Extent c peak) (v : Int) : (t.put v).Extent c peak where
  pointer_le := h.pointer_le
  peak_lt := (length_put t v).symm ▸ h.peak_lt
  length := (length_put t v).symm ▸ h.length

theorem moveLeft (h : t.Extent c peak) (hu : t.moveLeft? = some u) : u.Extent c peak := by
  obtain ⟨-, hext, hcells, hpointer⟩ := moveLeft?_eq_some_iff.1 hu
  have hlength : u.length = t.length := congrArg Array.size hcells
  have hle := h.pointer_le
  refine ⟨by omega, by rw [hlength]; exact h.peak_lt, ?_⟩
  rw [hlength, hext]
  exact h.length

/-- **A tape is doubled when its highest position gets out of its room**, and not before. -/
theorem moveRight (h : t.Extent c peak) (hu : t.moveRight? = some u) :
    u.Extent c (max u.pointer peak) := by
  obtain ⟨-, hext, hpointer, hcells⟩ := moveRight?_eq_some hu
  obtain ⟨k, hlength, hleast, hfixed⟩ := h.length
  have hle := h.pointer_le
  have hlt := h.peak_lt
  rcases hcells with ⟨hroom, hcells⟩ | ⟨hlast, hgrows, hcells⟩
  · have hsame : u.length = t.length := congrArg Array.size hcells
    refine ⟨le_max_left _ _, by omega, k, by omega, fun j hj => ?_, by rwa [hext]⟩
    exact le_max_of_le_right (hleast j hj)
  · -- the pointer was at the last cell, so no position was higher
    have hdouble : u.length = 2 * t.length := by
      rw [Tape.length, hcells, Array.size_append, Array.size_replicate, ← Tape.length]
      omega
    refine ⟨le_max_left _ _, by omega, k + 1, by rw [hdouble, hlength, pow_succ]; ring,
      fun j hj => le_max_of_le_left ?_, fun hno => ?_⟩
    · calc c * 2 ^ j ≤ c * 2 ^ k :=
          Nat.mul_le_mul_left c (Nat.pow_le_pow_right (by decide) (by omega))
        _ = u.pointer := by rw [← hlength, hlast, hpointer]
    · rw [hext, hgrows] at hno
      cases hno

/-- The number of doublings is the least that makes room for the highest position. -/
theorem isLeast (h : t.Extent c peak) :
    ∃ k, IsLeast {k | peak < c * 2 ^ k} k ∧ t.length = c * 2 ^ k := by
  obtain ⟨k, hlength, hleast, -⟩ := h.length
  have hroom : peak < c * 2 ^ k := hlength ▸ h.peak_lt
  refine ⟨k, ⟨hroom, fun j hj => ?_⟩, hlength⟩
  by_contra hlt
  exact absurd (hleast j (Nat.lt_of_not_le hlt)) (Nat.not_le.2 hj)

theorem length_of_fixed (h : t.Extent c peak) (hfixed : t.extensible = false) : t.length = c := by
  obtain ⟨k, hlength, -, hzero⟩ := h.length
  rw [hlength, hzero hfixed, pow_zero, Nat.mul_one]

/-- The last doubling was made at half the length. -/
theorem length_le (h : t.Extent c peak) : t.length ≤ max c (2 * peak) := by
  obtain ⟨k, hlength, hleast, -⟩ := h.length
  cases k with
  | zero => exact le_max_of_le_left (by rw [hlength, pow_zero, Nat.mul_one])
  | succ k =>
    refine le_max_of_le_right ?_
    calc t.length = 2 * (c * 2 ^ k) := by rw [hlength, pow_succ]; ring
      _ ≤ 2 * peak := Nat.mul_le_mul_left 2 (hleast k (Nat.lt_succ_self k))

end Extent

end Tape

/-! ### Tapes worked by hand -/

namespace LooseTape

/-- A tape of zeros to be worked by hand. -/
def blank (c : Nat) (hc : 0 < c) (extensible : Bool) (kind : CellKind) (width : Value) : LooseTape :=
  ⟨.blank c hc extensible kind, width, []⟩

/-- The tape that a sequence of calls leaves. -/
def after (room : Room) (t : LooseTape) (calls : List TapeCall) : LooseTape :=
  calls.foldl (fun t d => (t.call room d).tape) t

/-- The positions that the pointer has had: at the start, and after each of the calls. -/
def visited (room : Room) (t : LooseTape) (calls : List TapeCall) : Set Nat :=
  {i | ∃ done, done <+: calls ∧ (t.after room done).tape.pointer = i}

variable (room : Room)

theorem after_concat (t : LooseTape) (calls : List TapeCall) (d : TapeCall) :
    t.after room (calls ++ [d]) = ((t.after room calls).call room d).tape := by
  rw [after, List.foldl_append]
  rfl

theorem visited_nil (t : LooseTape) : t.visited room [] = {t.tape.pointer} := by
  ext i
  simp [visited, after, eq_comm]

theorem visited_concat (t : LooseTape) (calls : List TapeCall) (d : TapeCall) :
    t.visited room (calls ++ [d]) =
      insert (t.after room (calls ++ [d])).tape.pointer (t.visited room calls) := by
  ext i
  constructor
  · rintro ⟨done, hdone, hi⟩
    rcases List.prefix_concat_iff.1 hdone with rfl | hdone
    · exact .inl hi.symm
    · exact .inr ⟨done, hdone, hi⟩
  · rintro (rfl | ⟨done, hdone, hi⟩)
    · exact ⟨_, List.prefix_rfl, rfl⟩
    · exact ⟨done, List.prefix_concat_iff.2 (.inr hdone), hi⟩

/-- Everything that a call can do to a tape: nothing, another value under the pointer, or a move. -/
theorem call_cases (t : LooseTape) (d : TapeCall) :
    (t.call room d).tape = t ∨ (∃ v, (t.call room d).tape = t.put v) ∨
      ∃ u, (t.tape.moveLeft? = some u ∨ t.tape.moveRight? = some u) ∧
        (t.call room d).tape = { t with tape := u } := by
  have hstepped : ∀ r, (t.stepped r).tape = t ∨ ∃ v, (t.stepped r).tape = t.put v := by
    rintro (e | v)
    · exact .inl rfl
    · exact .inr ⟨v, rfl⟩
  cases d with
  | moveLeft =>
    rw [call]
    cases hu : t.tape.moveLeft? with
    | none => exact .inl rfl
    | some u => exact .inr (.inr ⟨u, .inl rfl, rfl⟩)
  | moveRight =>
    rw [call]
    cases hu : t.tape.moveRight? with
    | none => exact .inl rfl
    | some u => exact .inr (.inr ⟨u, .inr rfl, rfl⟩)
  | increment => exact (hstepped _).imp_right .inl
  | decrement => exact (hstepped _).imp_right .inl
  | getValue =>
    rw [call]
    cases LooseCell.toByte t.value <;> exact .inl rfl
  | setValue v => exact .inr (.inl ⟨_, rfl⟩)

/-! ### One call -/

theorem lookup_without {odd : List (Nat × Value)} {i j : Nat} (h : i ≠ j) :
    (without odd i).lookup j = odd.lookup j := by
  unfold without
  induction odd with
  | nil => rfl
  | cons entry odd ih =>
    obtain ⟨k, v⟩ := entry
    by_cases hk : k = i
    · have hj : (j == i) = false := by simpa using h.symm
      simpa [List.filter_cons, List.lookup_cons, hk, hj] using ih
    · simp [List.lookup_cons, hk, ih]

/-- A cell whose value is put changes, and all others stay. -/
theorem put_eq (t : LooseTape) (v : Value) :
    ∃ n odd, t.put v = ⟨t.tape.put n, t.width, odd⟩ ∧
      ∀ i ≠ t.tape.pointer, odd.lookup i = t.odd.lookup i := by
  obtain ⟨tape, width, odd⟩ := t
  cases v with
  | int n => exact ⟨n, _, rfl, fun i hi => lookup_without hi.symm⟩
  | null | bool | real | text | list | table =>
    refine ⟨_, _, rfl, fun i hi => ?_⟩
    have hne : (i == tape.pointer) = false := by simpa using hi
    rw [List.lookup_cons, hne]
    exact lookup_without hi.symm

/-- What has been found out about a tape that began with `c` cells, when the pointer has been at the
positions of a set: how far it has grown, and that everything else is as it was. -/
structure Explored (c : Nat) (seen : Set Nat) (t : LooseTape) : Prop where
  pointer_mem : t.tape.pointer ∈ seen
  extent : ∃ peak, IsGreatest seen peak ∧ t.tape.Extent c peak
  unseen : ∀ i ∉ seen, t.tape.value i = 0 ∧ t.odd.lookup i = none

namespace Explored

variable {c : Nat} {seen : Set Nat} {t : LooseTape}

/-- **What a call keeps.** The pointer may have come to a new position, and the length is what this
position asks for. -/
theorem call (h : Explored c seen t) (d : TapeCall) :
    Explored c (insert (t.call room d).tape.tape.pointer seen) (t.call room d).tape := by
  obtain ⟨peak, hpeak, hextent⟩ := h.extent
  have hstays : insert t.tape.pointer seen = seen := Set.insert_eq_of_mem h.pointer_mem
  rcases call_cases room t d with hsame | ⟨v, hput⟩ | ⟨u, hmove, htape⟩
  · rw [hsame, hstays]
    exact h
  · obtain ⟨n, odd, heq, hodd⟩ := put_eq t v
    rw [hput, heq]
    show Explored c (insert t.tape.pointer seen) _
    rw [hstays]
    refine ⟨h.pointer_mem, ⟨peak, hpeak, hextent.put n⟩, fun i hi => ?_⟩
    have hne : i ≠ t.tape.pointer := fun heq => hi (heq ▸ h.pointer_mem)
    obtain ⟨hvalue, hlookup⟩ := h.unseen i hi
    exact ⟨by rw [Tape.value_put, if_neg hne.symm, hvalue], by rw [hodd i hne, hlookup]⟩
  · rw [htape]
    refine ⟨Set.mem_insert _ _, ⟨max u.pointer peak, hpeak.insert u.pointer, ?_⟩, fun i hi => ?_⟩
    · rcases hmove with hleft | hright
      · have hleft := hextent.moveLeft hleft
        rwa [max_eq_right hleft.pointer_le]
      · exact hextent.moveRight hright
    · obtain ⟨hvalue, hlookup⟩ := h.unseen i fun hseen => hi (Set.mem_insert_of_mem _ hseen)
      refine ⟨?_, hlookup⟩
      rcases hmove with hleft | hright
      · rw [Tape.value_moveLeft hleft, hvalue]
      · rw [Tape.value_moveRight hright, hvalue]

/-- What any calls keep. -/
theorem after (c : Nat) (hc : 0 < c) (extensible : Bool) (kind : CellKind) (width : Value)
    (calls : List TapeCall) :
    Explored c ((LooseTape.blank c hc extensible kind width).visited room calls)
      ((LooseTape.blank c hc extensible kind width).after room calls) := by
  induction calls using List.reverseRecOn with
  | nil =>
    rw [visited_nil]
    refine ⟨rfl, ⟨0, isGreatest_singleton, Tape.Extent.blank c hc extensible kind⟩, fun i _ => ?_⟩
    exact ⟨Tape.value_blank c hc extensible kind i, rfl⟩
  | append_singleton calls d ih =>
    rw [visited_concat, after_concat]
    exact ih.call room d

/-- A cell that was never visited is zero. -/
theorem valueAt?_of_unseen (h : Explored c seen t) {i : Nat} (hi : i < t.tape.length)
    (hseen : i ∉ seen) : t.valueAt? i = some (.int 0) := by
  obtain ⟨hvalue, hlookup⟩ := h.unseen i hseen
  have hlt : i < t.tape.cells.size := hi
  have hcell : t.tape.cells[i]? = some 0 := by
    rw [Array.getElem?_eq_getElem hlt, ← hvalue, Tape.value,
      List.getD_eq_getElem _ _ (by simpa using hlt), Array.getElem_toList]
  rw [valueAt?, hcell, hlookup]
  rfl

end Explored

/-- Calls leave a tape extensible or not, as it was. -/
theorem extensible_after (t : LooseTape) (calls : List TapeCall) :
    (t.after room calls).tape.extensible = t.tape.extensible := by
  induction calls using List.reverseRecOn with
  | nil => rfl
  | append_singleton calls d ih =>
    rw [after_concat, ← ih]
    rcases call_cases room (t.after room calls) d with hsame | ⟨v, hput⟩ | ⟨u, hleft | hright, htape⟩
    · rw [hsame]
    · obtain ⟨n, odd, heq, -⟩ := put_eq (t.after room calls) v
      rw [hput, heq, Tape.extensible_put]
    · rw [htape]
      exact (Tape.moveLeft?_eq_some_iff.1 hleft).2.1
    · rw [htape]
      exact (Tape.moveRight?_eq_some hright).2.1

/-- A move changes the value of no cell. -/
theorem valueAt?_of_move (t : LooseTape) {d : TapeCall} (hd : d = .moveLeft ∨ d = .moveRight) {i : Nat}
    (hi : i < t.tape.length) : (t.call room d).tape.valueAt? i = t.valueAt? i := by
  have hcells : ∀ u : Tape, u.cells[i]? = t.tape.cells[i]? →
      valueAt? { t with tape := u } i = t.valueAt? i := by
    intro u hu
    simp only [valueAt?, hu]
  rcases hd with rfl | rfl
  · rw [call]
    cases hu : t.tape.moveLeft? with
    | none => rfl
    | some u =>
      obtain ⟨-, -, hsame, -⟩ := Tape.moveLeft?_eq_some_iff.1 hu
      exact hcells u (by rw [hsame])
  · rw [call]
    cases hu : t.tape.moveRight? with
    | none => rfl
    | some u =>
      refine hcells u ?_
      obtain ⟨-, -, -, ⟨-, hsame⟩ | ⟨-, -, hmore⟩⟩ := Tape.moveRight?_eq_some hu
      · rw [hsame]
      · rw [hmore, Array.getElem?_append_left hi]

end LooseTape

/-! ### Runs -/

/-- What every step keeps, also one that fails, holds after any calls on a machine. -/
theorem Call.foldl_machine_keeps {code : Code} {settings : Settings} {P : Machine → Prop}
    (hinitial : P (.initial settings))
    (hstep : ∀ s t f, Stepped code settings.caps s f t → P s.machine → P t.machine)
    (calls : List Call) : P (calls.foldl (Call.machine code settings) (.initial settings)) := by
  induction calls using List.reverseRecOn with
  | nil => exact hinitial
  | append_singleton calls c ih =>
    rw [List.foldl_append, List.foldl_cons, List.foldl_nil]
    cases c with
    | step input output => exact hstep _ _ _ (stepped_of code settings.caps _ _) ih
    | interpret fuel input output =>
      rw [Call.machine, TapeMachine.interpret, Run.close_machine]
      exact (runFor_spec code settings.caps fuel (.initial settings) _).keeps hstep rfl
        (Nat.zero_le fuel) hinitial
    | reset => exact hinitial

/-- The pointer of a machine has been at most as far as there were steps. -/
def Paced (c : Nat) (m : Machine) : Prop := ∃ peak : Nat, peak ≤ m.steps ∧ m.tape.Extent c peak

namespace Paced

variable {c : Nat} {s t : Snapshot}

theorem initial (settings : Settings) : Paced settings.cells (.initial settings) :=
  ⟨0, le_rfl, .blank settings.cells settings.cells_pos settings.extensible settings.kind⟩

/-- A command is counted, and it moves the pointer by one at most. -/
theorem executes {jumps : JumpTable} {cap : Option Limit} {op : Opcode} {f : Option Fault}
    (h : Paced c s.machine) (he : Executes jumps cap s op f t) : Paced c t.machine := by
  obtain ⟨peak, hsteps, hextent⟩ := h
  have hcounted : (peak : Int) ≤ s.machine.steps + 1 := by omega
  cases he with
  | left hu => exact ⟨peak, hcounted, hextent.moveLeft hu⟩
  | @right u hu =>
    refine ⟨max u.pointer peak, ?_, hextent.moveRight hu⟩
    have hpointer := (Tape.moveRight?_eq_some hu).2.2.1
    have hle := hextent.pointer_le
    show ((max u.pointer peak : Nat) : Int) ≤ s.machine.steps + 1
    omega
  | increment => exact ⟨peak, hcounted, hextent.put _⟩
  | decrement => exact ⟨peak, hcounted, hextent.put _⟩
  | read => exact ⟨peak, hcounted, hextent.put _⟩
  | written | skip | enter | leave | again => exact ⟨peak, hcounted, hextent⟩
  | _ => exact ⟨peak, hsteps, hextent⟩

theorem stepped {code : Code} {caps : Caps} {f : Option Fault} (h : Paced c s.machine)
    (hst : Stepped code caps s f t) : Paced c t.machine := by
  cases hst with
  | executed _ _ _ he => exact h.executes he
  | _ => exact h

theorem length_le {m : Machine} (h : Paced c m) : (m.tape.length : Int) ≤ max (c : Int) (2 * m.steps) := by
  obtain ⟨peak, hsteps, hextent⟩ := h
  have hle := hextent.length_le
  omega

end Paced

/-- **Tapes grow as far as they have to.** Take a tape of `c` cells, of any kind and width, and any finite
sequence of calls on it, failed ones included. If it is extensible, its length is `c` doubled as often as
is needed to exceed the highest position that the pointer ever had, and no more; otherwise it is `c`. Every
cell that was never visited is zero, and no move changes the value of a cell. So in every run, and after
any sequence of steps, runs and resets, the length is at most that of the start or twice the number of
steps. -/
theorem tape_growth_exact :
    (∀ (room : Room) (c : Nat) (hc : 0 < c) (extensible : Bool) (kind : CellKind) (width : Value)
        (calls : List TapeCall),
      let start := LooseTape.blank c hc extensible kind width
      let t := start.after room calls
      (extensible = true → ∃ peak k, IsGreatest (start.visited room calls) peak ∧
        IsLeast {k | peak < c * 2 ^ k} k ∧ t.tape.length = c * 2 ^ k) ∧
      (extensible = false → t.tape.length = c) ∧
      (∀ i < t.tape.length, i ∉ start.visited room calls → t.valueAt? i = some (.int 0)) ∧
      ∀ d : TapeCall, d = .moveLeft ∨ d = .moveRight → ∀ i < t.tape.length,
        (t.call room d).tape.valueAt? i = t.valueAt? i) ∧
    ∀ (code : Code) (settings : Settings) (calls : List Call),
      let m := calls.foldl (Call.machine code settings) (.initial settings)
      (m.tape.length : Int) ≤ max (settings.cells : Int) (2 * m.steps) := by
  constructor
  · intro room c hc extensible kind width calls start t
    have hexplored : LooseTape.Explored c (start.visited room calls) t :=
      .after room c hc extensible kind width calls
    have hextensible : t.tape.extensible = extensible := start.extensible_after room calls
    obtain ⟨peak, hpeak, hextent⟩ := hexplored.extent
    refine ⟨fun _ => ?_, fun hfixed => ?_, fun i hi hseen => ?_, fun d hd i hi => ?_⟩
    · obtain ⟨k, hleast, hlength⟩ := hextent.isLeast
      exact ⟨peak, k, hpeak, hleast, hlength⟩
    · exact hextent.length_of_fixed (hextensible.trans hfixed)
    · exact hexplored.valueAt?_of_unseen hi hseen
    · exact t.valueAt?_of_move room hd hi
  · intro code settings calls m
    have hpaced : Paced settings.cells m :=
      Call.foldl_machine_keeps (.initial settings) (fun _ _ _ hst h => h.stepped hst) calls
    exact hpaced.length_le

/-- Three cells are doubled once for a pointer that goes to position 3 and back, after a call that failed.
The program `+[>+]`, which has the pointer go on to the right, has four cells after seven steps. -/
theorem tape_growth_exact_doubling :
    ∃ three : 0 < 3, let calls : List TapeCall :=
        [.moveLeft, .moveRight, .increment, .moveRight, .moveRight, .moveLeft]
      let start := LooseTape.blank 3 three true .u8 (.int 8)
      let t := start.after .usual calls
      t.tape.length = 6 ∧ (∃ peak k, IsGreatest (start.visited .usual calls) peak ∧
        IsLeast {k | peak < 3 * 2 ^ k} k ∧ 6 = 3 * 2 ^ k) ∧
      ((LooseTape.blank 3 three false .u8 (.int 8)).after .usual calls).tape.length = 3 ∧
      t.valueAt? 4 = some (.int 0) ∧ (t.call .usual .moveLeft).tape.valueAt? 1 = some (.int 1) ∧
      ∃ code m, Code.ofProgram (Program.ofText (some "p") "+[>+]") = .ok code ∧
        m = Call.machine code growing (.initial growing) (.interpret 20 (.ofBytes []) .healthy) ∧
        m.tape.length = 4 ∧ m.steps = 7 ∧
        (m.tape.length : Int) ≤ max (growing.cells : Int) (2 * m.steps) := by
  refine ⟨by decide, ?_⟩
  intro calls start t
  obtain ⟨hgrown, -, hunseen, hmoves⟩ := tape_growth_exact.1 .usual 3 (by decide) true .u8 (.int 8) calls
  obtain ⟨-, hfixed, -⟩ := tape_growth_exact.1 .usual 3 (by decide) false .u8 (.int 8) calls
  have hlength : t.tape.length = 6 := by decide
  have hnew : 4 ∉ start.visited .usual calls := by
    rintro ⟨done, hdone, hpointer⟩
    have hall : ∀ done ∈ calls.inits, (start.after .usual done).tape.pointer ≠ 4 := by decide
    exact hall done ((List.mem_inits _ _).2 hdone) hpointer
  have hruns : ∀ code m, Code.ofProgram (Program.ofText (some "p") "+[>+]") = .ok code →
      m = Call.machine code growing (.initial growing) (.interpret 20 (.ofBytes []) .healthy) →
      m.tape.length = 4 ∧ m.steps = 7 := by
    rintro code m hcode rfl
    cases hcode
    exact ⟨by decide, by decide⟩
  obtain ⟨hcells, hsteps⟩ := hruns _ _ rfl rfl
  exact ⟨hlength, hlength ▸ hgrown rfl, hfixed rfl, hunseen 4 (by decide) hnew,
    (hmoves .moveLeft (.inl rfl) 1 (by decide)).trans rfl, _, _, rfl, rfl, hcells, hsteps,
    tape_growth_exact.2 _ growing [.interpret 20 (.ofBytes []) .healthy]⟩

end TapeMachine
