import Mathlib
import TapeMachine.Proofs.Lockstep
import TapeMachine.Proofs.Tape

/-!
# Narrow cells and wide cells

The same program is run on narrow cells and on wide cells. Stepping a cell, storing a byte in it and
writing its byte commute with reducing the cell modulo a power of two, so the narrow tape stays the wide
one, reduced. Only a bracket sees the whole cell. It sees different things on the two tapes exactly
where the wide cell is not zero and the narrow one is: where the wide cell is a nonzero multiple of the
narrow modulus.

## What is proved

* `Reduced.congruent`: being reduced is kept by every command that does not test for zero.
* `widths_agree`: the runs agree step by step up to the first bracket that sees such a multiple, and have
  the same outcome if there is none.
-/

namespace TapeMachine

open Snapshot

namespace Tape

/-- The first tape has cells of width `k` and the second of width `k'`. They are at the same place, and
every cell of the first is that of the second modulo the power of two that `k` wraps at. -/
structure Reduced (k k' : CellKind) (a b : Tape) : Prop where
  kind : a.kind = k
  kind_wide : b.kind = k'
  extensible : a.extensible = b.extensible
  pointer : a.pointer = b.pointer
  cells : a.cells.toList = b.cells.toList.map (· % 2 ^ k.bits)
  fits : b.Fits

namespace Reduced

variable {k k' : CellKind} {a b : Tape}

theorem length (h : Reduced k k' a b) : a.length = b.length := by
  simpa [Tape.length] using congrArg List.length h.cells

theorem current (h : Reduced k k' a b) : a.current = b.current % 2 ^ k.bits := by
  rw [current_eq, current_eq, h.cells, h.pointer]
  have hmap := List.getD_map b.cells.toList 0 (n := b.pointer) fun v : Int => v % 2 ^ k.bits
  rwa [Int.zero_emod] at hmap

theorem current_fits (h : Reduced k k' a b) : a.kind.Fits a.current := by
  have hpos : (0 : Int) < 2 ^ k.bits := by positivity
  rw [h.current, h.kind, CellKind.fits_iff]
  exact ⟨Int.emod_nonneg _ hpos.ne', Int.emod_lt_of_pos _ hpos⟩

/-- Storing a value in the wide cell, and its remainder in the narrow one. -/
theorem put (h : Reduced k k' a b) {v v' : Int} (hv : v = v' % 2 ^ k.bits) (hfits : k'.Fits v') :
    Reduced k k' (a.put v) (b.put v') where
  kind := h.kind
  kind_wide := h.kind_wide
  extensible := h.extensible
  pointer := h.pointer
  cells := by
    rw [toList_cells_put, toList_cells_put, h.cells, h.pointer, List.map_set, hv]
  fits := h.fits.put (h.kind_wide.symm ▸ hfits)

theorem moveLeft (h : Reduced k k' a b) : Option.Rel (Reduced k k') a.moveLeft? b.moveLeft? := by
  refine rel_of_none_iff ?_ fun u v hu hv => ?_
  · rw [moveLeft?_eq_none_iff, moveLeft?_eq_none_iff, h.pointer]
  · have hvfits := h.fits.moveLeft hv
    obtain ⟨hkind, hext, hcells, hpointer⟩ := moveLeft?_eq_some_iff.1 hu
    obtain ⟨hkind', hext', hcells', hpointer'⟩ := moveLeft?_eq_some_iff.1 hv
    have hplace := h.pointer
    exact ⟨hkind.trans h.kind, hkind'.trans h.kind_wide, by rw [hext, hext', h.extensible],
      by omega, by rw [hcells, hcells', h.cells], hvfits⟩

theorem moveRight (h : Reduced k k' a b) : Option.Rel (Reduced k k') a.moveRight? b.moveRight? := by
  have hlength := h.length
  have hplace := h.pointer
  refine rel_of_none_iff ?_ fun u v hu hv => ?_
  · rw [moveRight?_eq_none_iff, moveRight?_eq_none_iff, hlength, hplace, h.extensible]
  · have hvfits := h.fits.moveRight hv
    obtain ⟨hkind, hext, hpointer, hcells⟩ := moveRight?_eq_some hu
    obtain ⟨hkind', hext', hpointer', hcells'⟩ := moveRight?_eq_some hv
    refine ⟨hkind.trans h.kind, hkind'.trans h.kind_wide, by rw [hext, hext', h.extensible],
      by omega, ?_, hvfits⟩
    -- the tapes are equally long, so either both are doubled or neither is
    rcases hcells with ⟨hlt, hcells⟩ | ⟨hlast, -, hcells⟩ <;>
      rcases hcells' with ⟨hlt', hcells'⟩ | ⟨hlast', -, hcells'⟩
    · rw [hcells, hcells', h.cells]
    · omega
    · omega
    · rw [hcells, hcells', Array.toList_append, Array.toList_append, h.cells, hlength]
      simp

/-- **Cells wrap in step**: only tests for zero tell a tape from the reduced one. -/
theorem congruent (hbyte : 8 ≤ k.bits) (hle : k.bits ≤ k'.bits) : Congruent (Reduced k k') where
  moveLeft h := h.moveLeft
  increment {a b} h := by
    have hdvd : (2 : Int) ^ k.bits ∣ 2 ^ k'.bits := pow_dvd_pow 2 hle
    refine h.put ?_ (h.kind_wide ▸ CellKind.fits_increment h.fits.current)
    rw [CellKind.increment_eq_emod h.current_fits, CellKind.increment_eq_emod h.fits.current,
      h.kind, h.kind_wide, Int.emod_emod_of_dvd _ hdvd, h.current, Int.emod_add_emod]
  decrement {a b} h := by
    have hdvd : (2 : Int) ^ k.bits ∣ 2 ^ k'.bits := pow_dvd_pow 2 hle
    refine h.put ?_ (h.kind_wide ▸ CellKind.fits_decrement h.fits.current)
    rw [CellKind.decrement_eq_emod h.current_fits, CellKind.decrement_eq_emod h.fits.current,
      h.kind, h.kind_wide, Int.emod_emod_of_dvd _ hdvd, h.current, Int.emod_sub_emod]
  setByte {a b} h x := by
    obtain ⟨hnonneg, hlt⟩ := CellKind.fits_iff.1 (CellKind.fits_byte hbyte x)
    exact h.put (Int.emod_eq_of_lt hnonneg hlt).symm (CellKind.fits_byte (hbyte.trans hle) x)
  byte {a b} h := by
    have hdvd : (256 : Int) ∣ 2 ^ k.bits := pow_dvd_pow (2 : Int) hbyte
    rw [Tape.byte, Tape.byte, CellKind.toByte, CellKind.toByte, h.current,
      Int.emod_emod_of_dvd _ hdvd]

end Reduced

end Tape

/-! ### Runs -/

/-- The same settings with cells of another width. -/
def Settings.withKind (settings : Settings) (k : CellKind) : Settings := { settings with kind := k }

/-- The next step executes a bracket, on a cell that is not zero but a multiple of the power of two that
`k` wraps at. -/
def Snapshot.Ambiguous (code : Code) (caps : Caps) (k : CellKind) (t : Snapshot) : Prop :=
  (Executing code caps t .beginLoop ∨ Executing code caps t .endLoop) ∧
    t.machine.tape.current ≠ 0 ∧ 2 ^ k.bits ∣ t.machine.tape.current

section

variable {code : Code} {caps : Caps} {k k' : CellKind}

/-- A command that is not ambiguous does not tell a tape from the reduced one. -/
theorem Snapshot.indistinct_of_not_ambiguous (s t : Snapshot) (op : Opcode)
    (h : Alike (Tape.Reduced k k') s t) (hx : Executing code caps t op)
    (hclear : ¬ Ambiguous code caps k t) :
    Tape.Indistinct (Tape.Reduced k k') op s.machine.tape t.machine.tape where
  moveRight _ := h.tape.moveRight
  test hbracket := by
    rw [h.tape.current]
    constructor
    · intro hzero
      by_contra hne
      have hexec : Executing code caps t .beginLoop ∨ Executing code caps t .endLoop := by
        rcases hbracket with rfl | rfl
        · exact .inl hx
        · exact .inr hx
      exact hclear ⟨hexec, hne, Int.dvd_of_emod_eq_zero hzero⟩
    · intro hzero
      rw [hzero, Int.zero_emod]

theorem Snapshot.alike_start_withKind (settings : Settings) (input : Reader) (output : Sink) :
    Alike (Tape.Reduced k k') (start (settings.withKind k) input output)
      (start (settings.withKind k') input output) where
  tape :=
    { kind := rfl
      kind_wide := rfl
      extensible := rfl
      pointer := rfl
      cells := by simp [start, Machine.initial, Tape.blank, Settings.withKind]
      fits := Tape.fits_blank _ settings.cells_pos _ _ }
  pc := rfl
  steps := rfl
  outputBytes := rfl
  input := rfl
  output := rfl

/-- What is fetched is an instruction of the program, wherever the program counter points. -/
theorem Code.mem_of_fetch {pc : Int} {ins : Instruction} (h : code.fetch? pc = some ins) :
    ins ∈ code.program.instructions := by
  cases pc with
  | ofNat i => exact Array.mem_of_getElem? h
  | negSucc i =>
    simp only [Code.fetch?] at h
    split at h
    · exact Array.mem_of_getElem? h
    · cases h

/-- Without brackets no test is ambiguous. -/
theorem Snapshot.not_ambiguous (t : Snapshot)
    (h : ∀ ins ∈ code.program.instructions, ins.opcode ≠ .beginLoop ∧ ins.opcode ≠ .endLoop) :
    ¬ Ambiguous code caps k t := by
  rintro ⟨⟨-, -, ins, hi, hop⟩ | ⟨-, -, ins, hi, hop⟩, -⟩
  · exact (h ins (Code.mem_of_fetch hi)).1 hop
  · exact (h ins (Code.mem_of_fetch hi)).2 hop

end

/-- **Narrow and wide cells.** The runs on cells of a supported width and on wider ones agree step by
step: they have the same program counter, pointer, counters, length and streams, they raise the same
faults, and every narrow cell is the wide one modulo the narrow power of two. They do so up to the first
bracket that is executed on a wide cell that is a nonzero multiple of this power. If there is none, the
runs have the same outcome; so have they for every program without brackets. -/
theorem widths_agree (code : Code) (settings : Settings) (input : Reader) (output : Sink)
    {k k' : CellKind} (hk : k ∈ CellKind.supported) (hlt : k.bits < k'.bits) :
    AgreeUntil code settings.caps (Tape.Reduced k k') (Ambiguous code settings.caps k)
        (start (settings.withKind k) input output) (start (settings.withKind k') input output) ∧
      ((∀ n, StopFree code settings.caps (Ambiguous code settings.caps k)
          (start (settings.withKind k') input output) n) →
        ∀ fuel, Run.SameOutcome (Tape.Reduced k k')
          (interpret fuel code (settings.withKind k) input output)
          (interpret fuel code (settings.withKind k') input output)) ∧
      ((∀ ins ∈ code.program.instructions, ins.opcode ≠ .beginLoop ∧ ins.opcode ≠ .endLoop) →
        ∀ fuel, Run.SameOutcome (Tape.Reduced k k')
          (interpret fuel code (settings.withKind k) input output)
          (interpret fuel code (settings.withKind k') input output)) := by
  have hT : Tape.Congruent (Tape.Reduced k k') :=
    Tape.Reduced.congruent (CellKind.eight_le_bits hk) hlt.le
  have hstart : Alike (Tape.Reduced k k') (start (settings.withKind k) input output)
      (start (settings.withKind k') input output) := alike_start_withKind settings input output
  have hwhole : (∀ n, StopFree code settings.caps (Ambiguous code settings.caps k)
      (start (settings.withKind k') input output) n) → ∀ fuel, Run.SameOutcome (Tape.Reduced k k')
        (interpret fuel code (settings.withKind k) input output)
        (interpret fuel code (settings.withKind k') input output) :=
    fun hnever => interpret_alike hT indistinct_of_not_ambiguous hstart rfl hnever
  exact ⟨agreeUntil hT indistinct_of_not_ambiguous hstart, hwhole,
    fun hflat => hwhole fun n j _ u _ => not_ambiguous u hflat⟩

/-- The program `,+[<]` on the byte 255. Bytes wrap to zero and skip the loop; on 16 bits the cell holds
256, and the loop runs off the tape. Up to the bracket the runs agree. -/
theorem widths_agree_overflowing :
    ∃ code, Code.ofProgram (Program.ofText (some "p") ",+[<]") = .ok code ∧
      CellKind.u8 ∈ CellKind.supported ∧ CellKind.u8.bits < CellKind.u16.bits ∧
      (∃ s t, (start (oneCell.withKind .u8) (.ofBytes [255]) .healthy).after code .none 2 = some s ∧
        (start (oneCell.withKind .u16) (.ofBytes [255]) .healthy).after code .none 2 = some t ∧
        Alike (Tape.Reduced .u8 .u16) s t ∧ s.machine.tape.current = 0 ∧
        t.machine.tape.current = 256 ∧ Ambiguous code .none .u8 t) ∧
      (interpret 9 code (oneCell.withKind .u8) (.ofBytes [255]) .healthy).ending = .finished ∧
      (interpret 9 code (oneCell.withKind .u16) (.ofBytes [255]) .healthy).ending =
        .failed (.error ⟨.pointerUnderflow, some "p", some ⟨1, 4, .moveLeft⟩⟩ none) := by
  have hfree : ∀ code, Code.ofProgram (Program.ofText (some "p") ",+[<]") = .ok code →
      StopFree code .none (Ambiguous code .none .u8)
        (start (oneCell.withKind .u16) (.ofBytes [255]) .healthy) 2 := by
    rintro code hcode j hj u hu ⟨-, hne, hdvd⟩
    cases hcode
    match j, hj with
    | 0, _ =>
      cases hu
      exact hne rfl
    | 1, _ =>
      cases hu
      exact absurd hdvd (by decide)
  have hbracket : ∀ code t, Code.ofProgram (Program.ofText (some "p") ",+[<]") = .ok code →
      (start (oneCell.withKind .u16) (.ofBytes [255]) .healthy).after code .none 2 = some t →
      t.machine.tape.current = 256 ∧ Ambiguous code .none .u8 t := by
    intro code t hcode ht
    cases hcode
    cases ht
    exact ⟨rfl, .inl ⟨by decide, rfl, _, rfl, rfl⟩, by decide, by decide⟩
  refine ⟨_, rfl, by decide, by decide, ⟨_, _, rfl, rfl, ?_, rfl, hbracket _ _ rfl rfl⟩, rfl, rfl⟩
  have hagree := (widths_agree _ oneCell (.ofBytes [255]) .healthy
    (show CellKind.u8 ∈ CellKind.supported by decide)
    (show CellKind.u8.bits < CellKind.u16.bits by decide)).1 2 (hfree _ rfl)
  obtain ⟨t, ht, hrel⟩ := exists_of_rel_some hagree.1
  cases ht
  exact hrel

end TapeMachine
