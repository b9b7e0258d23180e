import Mathlib
import TapeMachine.Tape

/-!
# What the tape operations do

A tape seen as the list of its cells and a pointer. Each operation is described once on this view: a
move changes only the pointer, apart from the zeros that a doubled tape gains, and the others change
only the cell under the pointer. On values that fit the width, stepping is arithmetic modulo a power
of two.

`Tape.Fits` says that every cell fits the width of the tape; every operation keeps it.
-/

namespace TapeMachine

/-! ### Cells -/

namespace CellKind

theorem largest_eq (k : CellKind) : k.largest = 2 ^ k.bits - 1 := by
  show ((2 ^ k.bits : Nat) : Int) - 1 = 2 ^ k.bits - 1
  push_cast
  rfl

theorem fits_iff {k : CellKind} {v : Int} : k.Fits v ↔ 0 ≤ v ∧ v < 2 ^ k.bits := by
  rw [Fits, largest_eq]
  omega

theorem fits_zero (k : CellKind) : k.Fits 0 := ⟨le_rfl, k.largest_nonneg⟩

theorem increment_eq_emod {k : CellKind} {v : Int} (h : k.Fits v) :
    k.increment v = (v + 1) % 2 ^ k.bits := by
  obtain ⟨h₁, h₂⟩ := fits_iff.1 h
  unfold increment
  rw [largest_eq]
  split
  · rw [Int.emod_eq_of_lt (by omega) (by omega)]
  · -- only the largest value is left, and it wraps
    have hv : v + 1 = 2 ^ k.bits := by omega
    rw [hv, Int.emod_self]

theorem decrement_eq_emod {k : CellKind} {v : Int} (h : k.Fits v) :
    k.decrement v = (v - 1) % 2 ^ k.bits := by
  obtain ⟨h₁, h₂⟩ := fits_iff.1 h
  unfold decrement
  rw [largest_eq]
  split
  · rw [Int.emod_eq_of_lt (by omega) (by omega)]
  · have hv : v - 1 = 2 ^ k.bits - 1 - 2 ^ k.bits := by omega
    rw [hv, Int.sub_emod_right, Int.emod_eq_of_lt (by omega) (by omega)]

/-- The supported widths hold a byte. -/
theorem eight_le_bits {k : CellKind} (h : k ∈ supported) : 8 ≤ k.bits := by
  revert k
  decide

theorem fits_byte {k : CellKind} (h : 8 ≤ k.bits) (b : UInt8) : k.Fits (k.ofByte b.toNat) := by
  have hb : (b.toNat : Int) < 2 ^ 8 := by exact_mod_cast b.toNat_lt
  have hpow : (2 : Int) ^ 8 ≤ 2 ^ k.bits := pow_le_pow_right₀ (by norm_num) h
  exact fits_iff.2 ⟨Int.natCast_nonneg _, lt_of_lt_of_le hb hpow⟩

end CellKind

/-! ### Tapes -/

namespace Tape

/-- Every cell fits the width. -/
def Fits (t : Tape) : Prop := ∀ v ∈ t.cells.toList, t.kind.Fits v

theorem current_eq (t : Tape) : t.current = t.cells.toList.getD t.pointer 0 := by
  have h := t.pointer_lt
  rw [current, List.getD_eq_getElem _ _ (by simpa using h), Array.getElem_toList]

theorem current_mem (t : Tape) : t.current ∈ t.cells.toList := by
  have h := t.pointer_lt
  rw [Array.mem_toList_iff]
  exact Array.getElem_mem h

theorem Fits.current {t : Tape} (h : t.Fits) : t.kind.Fits t.current := h _ t.current_mem

@[simp] theorem kind_put (t : Tape) (v : Int) : (t.put v).kind = t.kind := rfl

@[simp] theorem extensible_put (t : Tape) (v : Int) : (t.put v).extensible = t.extensible := rfl

@[simp] theorem pointer_put (t : Tape) (v : Int) : (t.put v).pointer = t.pointer := rfl

@[simp] theorem toList_cells_put (t : Tape) (v : Int) :
    (t.put v).cells.toList = t.cells.toList.set t.pointer v := by
  obtain ⟨kind, extensible, cells, pointer, h⟩ := t
  simp [put]

@[simp] theorem length_put (t : Tape) (v : Int) : (t.put v).length = t.length := by
  obtain ⟨kind, extensible, cells, pointer, h⟩ := t
  simp [put, length]

theorem Fits.put {t : Tape} (h : t.Fits) {v : Int} (hv : t.kind.Fits v) : (t.put v).Fits := by
  intro u hu
  rw [toList_cells_put] at hu
  rcases List.mem_or_eq_of_mem_set hu with hu | rfl
  · exact h u hu
  · exact hv

theorem Fits.increment {t : Tape} (h : t.Fits) : t.increment.Fits :=
  h.put (CellKind.fits_increment h.current)

theorem Fits.decrement {t : Tape} (h : t.Fits) : t.decrement.Fits :=
  h.put (CellKind.fits_decrement h.current)

theorem Fits.setByte {t : Tape} (h : t.Fits) (hk : 8 ≤ t.kind.bits) (b : UInt8) :
    (t.setByte b.toNat).Fits := h.put (CellKind.fits_byte hk b)

/-- A move to the left changes the pointer only. -/
theorem moveLeft?_eq_some_iff {t u : Tape} :
    t.moveLeft? = some u ↔ u.kind = t.kind ∧ u.extensible = t.extensible ∧ u.cells = t.cells ∧
      u.pointer + 1 = t.pointer := by
  obtain ⟨kind, extensible, cells, pointer, h⟩ := t
  obtain ⟨kind', extensible', cells', pointer', h'⟩ := u
  unfold moveLeft?
  dsimp only
  split
  · next hp => exact ⟨fun hn => (nomatch hn), fun hn => by omega⟩
  · next hp =>
    simp only [Option.some.injEq, Tape.mk.injEq]
    constructor
    · rintro ⟨rfl, rfl, rfl, rfl⟩
      exact ⟨rfl, rfl, rfl, by omega⟩
    · rintro ⟨rfl, rfl, rfl, hpointer⟩
      exact ⟨rfl, rfl, rfl, by omega⟩

theorem moveLeft?_eq_none_iff {t : Tape} : t.moveLeft? = none ↔ t.pointer = 0 := by
  unfold moveLeft?
  split <;> simp_all

/-- A move to the right changes the pointer, and at the last cell it doubles the tape. -/
theorem moveRight?_eq_some {t u : Tape} (h : t.moveRight? = some u) :
    u.kind = t.kind ∧ u.extensible = t.extensible ∧ u.pointer = t.pointer + 1 ∧
      (t.pointer + 1 < t.length ∧ u.cells = t.cells ∨
        t.length = t.pointer + 1 ∧ t.extensible = true ∧
          u.cells = t.cells ++ Array.replicate t.length 0) := by
  have hlt := t.pointer_lt
  unfold moveRight? at h
  split at h
  · next hp =>
    cases h
    exact ⟨rfl, rfl, rfl, .inl ⟨hp, rfl⟩⟩
  · next hp =>
    split at h
    · next he =>
      cases h
      exact ⟨rfl, rfl, rfl, .inr ⟨by unfold length; omega, he, rfl⟩⟩
    · cases h

theorem moveRight?_eq_none_iff {t : Tape} :
    t.moveRight? = none ↔ t.length = t.pointer + 1 ∧ t.extensible = false := by
  have hlt := t.pointer_lt
  unfold moveRight? length
  split
  · simp only [reduceCtorEq, false_iff]
    omega
  · split
    · next he => simp [he]
    · next he =>
      simp only [true_iff]
      exact ⟨by omega, by simpa using he⟩

theorem Fits.moveLeft {t u : Tape} (ht : t.Fits) (h : t.moveLeft? = some u) : u.Fits := by
  obtain ⟨hk, -, hc, -⟩ := moveLeft?_eq_some_iff.1 h
  intro v hv
  rw [hc] at hv
  rw [hk]
  exact ht v hv

theorem Fits.moveRight {t u : Tape} (ht : t.Fits) (h : t.moveRight? = some u) : u.Fits := by
  obtain ⟨hk, -, -, hc⟩ := moveRight?_eq_some h
  intro v hv
  rw [hk]
  rcases hc with ⟨-, hc⟩ | ⟨-, -, hc⟩
  · rw [hc] at hv
    exact ht v hv
  · -- the cells that are gained are zero
    rw [hc, Array.toList_append, List.mem_append] at hv
    rcases hv with hv | hv
    · exact ht v hv
    · rw [Array.toList_replicate] at hv
      rw [List.eq_of_mem_replicate hv]
      exact t.kind.fits_zero

theorem fits_blank (length : Nat) (pos : 0 < length) (extensible : Bool) (kind : CellKind) :
    (blank length pos extensible kind).Fits := by
  intro v hv
  simp only [blank, Array.toList_replicate] at hv
  rw [List.eq_of_mem_replicate hv]
  exact kind.fits_zero

end Tape

end TapeMachine
