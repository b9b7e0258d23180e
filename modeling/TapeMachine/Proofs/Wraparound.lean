import Mathlib
import TapeMachine.Cell.Loose
import TapeMachine.Proofs.Tape

/-!
# Stepping a cell is arithmetic modulo a power of two

A cell wraps by a comparison with its largest value or with zero, and never takes a remainder. Still, any
sequence of steps up and down adds the number of the steps up and subtracts the number of the steps down,
modulo the power of two of the width, however often it goes past either end of the range.

A cell worked by hand does the same, if there is room for a number that holds the power of two. If there is
not, the steps that look at the largest value fail, and all others are still right. However much room there
is, no number has `tooManyBits` bits; below that the room is all that it takes.

## What is proved

* `CellKind.after_eq_emod`: the value after a sequence of steps.
* `CellKind.bijOn_increment`, `CellKind.bijOn_decrement`: a step permutes the range.
* `LooseCell.after_int`, `LooseCell.after_of_error`: the steps of a cell worked by hand, with and without
  a largest value.
* `stepping_modular`: all of this for every width and any room, with the bytes.
-/

namespace TapeMachine

/-- A call that steps a cell. -/
inductive CellCall where
  | increment
  | decrement
  deriving DecidableEq

/-- What a call adds to a cell that does not wrap. -/
def CellCall.offset : CellCall → Int
  | .increment => 1
  | .decrement => -1

theorem CellCall.sum_offset (calls : List CellCall) :
    (calls.map offset).sum = (calls.count .increment : Int) - calls.count .decrement := by
  induction calls with
  | nil => rfl
  | cons c calls ih =>
    rw [List.map_cons, List.sum_cons, ih]
    cases c with
    | increment =>
      rw [offset, List.count_cons_self, List.count_cons_of_ne (by decide)]
      omega
    | decrement =>
      rw [offset, List.count_cons_self, List.count_cons_of_ne (by decide)]
      omega

/-! ### Cells of a width -/

namespace CellKind

/-- The values of a cell: those below the power of two of its width. -/
def values (k : CellKind) : Set Int := Set.Icc 0 (2 ^ k.bits - 1)

/-- The value after a call. -/
def call (k : CellKind) (v : Int) : CellCall → Int
  | .increment => k.increment v
  | .decrement => k.decrement v

/-- The value after a sequence of calls. -/
def after (k : CellKind) (v : Int) (calls : List CellCall) : Int := calls.foldl k.call v

theorem mem_values {k : CellKind} {v : Int} : v ∈ k.values ↔ k.Fits v := by
  rw [values, Set.mem_Icc, Fits, largest_eq]

/-- A power of two is larger than its exponent, so values up to the number of bits fit. -/
theorem mem_values_of_le {k : CellKind} {v : Int} (hnonneg : 0 ≤ v) (hle : v ≤ k.bits) :
    v ∈ k.values := by
  have hlt : (k.bits : Int) < 2 ^ k.bits := by exact_mod_cast Nat.lt_two_pow_self
  exact ⟨hnonneg, by omega⟩

theorem fits_call {k : CellKind} {v : Int} (h : k.Fits v) (c : CellCall) : k.Fits (k.call v c) := by
  cases c with
  | increment => exact fits_increment h
  | decrement => exact fits_decrement h

theorem call_eq_emod {k : CellKind} {v : Int} (h : k.Fits v) (c : CellCall) :
    k.call v c = (v + c.offset) % 2 ^ k.bits := by
  cases c with
  | increment => exact increment_eq_emod h
  | decrement => exact decrement_eq_emod h

theorem fits_after {k : CellKind} {v : Int} (h : k.Fits v) (calls : List CellCall) :
    k.Fits (k.after v calls) := by
  induction calls generalizing v with
  | nil => exact h
  | cons c calls ih => exact ih (fits_call h c)

theorem after_eq_emod_sum {k : CellKind} {v : Int} (h : k.Fits v) (calls : List CellCall) :
    k.after v calls = (v + (calls.map CellCall.offset).sum) % 2 ^ k.bits := by
  induction calls generalizing v with
  | nil =>
    obtain ⟨hnonneg, hlt⟩ := fits_iff.1 h
    rw [List.map_nil, List.sum_nil, add_zero, Int.emod_eq_of_lt hnonneg hlt]
    rfl
  | cons c calls ih =>
    -- each call reduces its value, and only the last reduction counts
    calc k.after v (c :: calls)
        = (k.call v c + (calls.map CellCall.offset).sum) % 2 ^ k.bits := ih (fits_call h c)
      _ = (v + c.offset + (calls.map CellCall.offset).sum) % 2 ^ k.bits := by
          rw [call_eq_emod h, Int.emod_add_emod]
      _ = (v + ((c :: calls).map CellCall.offset).sum) % 2 ^ k.bits := by
          rw [List.map_cons, List.sum_cons, add_assoc]

/-- **Steps add up modulo the power of two**, in whatever order they come. -/
theorem after_eq_emod {k : CellKind} {v : Int} (h : k.Fits v) (calls : List CellCall) :
    k.after v calls =
      (v + calls.count .increment - calls.count .decrement) % 2 ^ k.bits := by
  rw [after_eq_emod_sum h, CellCall.sum_offset, add_sub_assoc]

theorem after_eq_of_perm {k : CellKind} {v : Int} (h : k.Fits v) {calls calls' : List CellCall}
    (hperm : calls'.Perm calls) : k.after v calls' = k.after v calls := by
  rw [after_eq_emod h, after_eq_emod h, hperm.count_eq, hperm.count_eq]

/-! ### Steps as permutations -/

theorem mapsTo_increment (k : CellKind) : Set.MapsTo k.increment k.values k.values :=
  fun _ hv => mem_values.2 (fits_increment (mem_values.1 hv))

theorem mapsTo_decrement (k : CellKind) : Set.MapsTo k.decrement k.values k.values :=
  fun _ hv => mem_values.2 (fits_decrement (mem_values.1 hv))

theorem invOn_step (k : CellKind) : Set.InvOn k.decrement k.increment k.values k.values :=
  ⟨fun _ hv => decrement_increment (mem_values.1 hv),
    fun _ hv => increment_decrement (mem_values.1 hv)⟩

theorem bijOn_increment (k : CellKind) : Set.BijOn k.increment k.values k.values :=
  k.invOn_step.bijOn k.mapsTo_increment k.mapsTo_decrement

theorem bijOn_decrement (k : CellKind) : Set.BijOn k.decrement k.values k.values :=
  k.invOn_step.symm.bijOn k.mapsTo_decrement k.mapsTo_increment

/-! ### Bytes -/

/-- The byte of a cell that holds at least a byte does not depend on the width. -/
theorem toByte_after {k : CellKind} (hbyte : 8 ≤ k.bits) {v : Int} (h : k.Fits v)
    (calls : List CellCall) :
    k.toByte (k.after v calls) =
      (v + calls.count .increment - calls.count .decrement) % 256 := by
  have hdvd : (256 : Int) ∣ 2 ^ k.bits := pow_dvd_pow (2 : Int) hbyte
  rw [toByte, after_eq_emod h, Int.emod_emod_of_dvd _ hdvd]

theorem toByte_ofByte (k : CellKind) (x : UInt8) : k.toByte (k.ofByte x.toNat) = x.toNat := by
  have hlt : (x.toNat : Int) < 256 := by exact_mod_cast x.toNat_lt
  exact Int.emod_eq_of_lt (Int.natCast_nonneg _) hlt

end CellKind

/-! ### Cells worked by hand -/

namespace LooseCell

variable {room : Room}

/-- The value after a call, or why it fails. -/
def call (room : Room) (width v : Value) : CellCall → Except OperandError Value
  | .increment => increment room width v
  | .decrement => decrement room width v

/-- The value after a sequence of calls, or why the first of them that fails does so. -/
def after (room : Room) (width v : Value) (calls : List CellCall) : Except OperandError Value :=
  calls.foldlM (call room width) v

theorem after_cons_ok {width v u : Value} {c : CellCall} (h : call room width v c = .ok u)
    (calls : List CellCall) : after room width v (c :: calls) = after room width u calls := by
  rw [after, List.foldlM_cons, h]
  rfl

theorem after_cons_error {width v : Value} {c : CellCall} {e : OperandError}
    (h : call room width v c = .error e) (calls : List CellCall) :
    after room width v (c :: calls) = .error e := by
  rw [after, List.foldlM_cons, h]
  rfl

theorem call_int {k : CellKind} (h : k.bits ≤ room.bits) (v : Int) (c : CellCall) :
    call room (.int k.bits) (.int v) c = .ok (.int (k.call v c)) := by
  cases c with
  | increment => exact increment_int h v
  | decrement => exact decrement_int h v

/-- **With a largest value no call fails**, and the values are those of the width. -/
theorem after_int {k : CellKind} (h : k.bits ≤ room.bits) (v : Int) (calls : List CellCall) :
    after room (.int k.bits) (.int v) calls = .ok (.int (k.after v calls)) := by
  induction calls generalizing v with
  | nil => rfl
  | cons c calls ih =>
    rw [after_cons_ok (call_int h v c)]
    exact ih (k.call v c)

/-- Why there is no largest value of a width that there is no room for. -/
def lack (bits : Nat) : OperandError := if tooManyBits ≤ bits then .tooManyDigits else .outOfMemory

theorem largest_of_lt {k : CellKind} (h : room.bits < k.bits) :
    largest room (.int k.bits) = .error (lack k.bits) := by
  unfold largest lack
  simp only [Value.asInt?]
  rw [if_neg (by omega)]
  by_cases hbits : tooManyBits ≤ k.bits
  · rw [if_pos (by omega), if_pos hbits]
  · rw [if_neg (by omega), if_pos (by omega), if_neg hbits]

theorem call_increment_of_error {width : Value} {e : OperandError} (h : largest room width = .error e)
    (v : Value) : call room width v .increment = .error e := by
  show increment room width v = .error e
  unfold increment
  rw [h]

theorem call_decrement_of_pos (width : Value) {v : Int} (h : 0 < v) :
    call room width (.int v) .decrement = .ok (.int (v - 1)) := if_pos h

theorem call_decrement_zero_of_error {width : Value} {e : OperandError}
    (h : largest room width = .error e) : call room width (.int 0) .decrement = .error e := by
  show (largest room width).map Value.int = .error e
  rw [h]
  rfl

/-- **Without a largest value only steps down to zero return.** The first call that looks at the largest
value fails as looking at it does. -/
theorem after_of_error {width : Value} {e : OperandError} (h : largest room width = .error e) {v : Int}
    (hv : 0 ≤ v) (calls : List CellCall) :
    after room width (.int v) calls =
      if calls.count .increment = 0 ∧ (calls.count .decrement : Int) ≤ v then
        .ok (.int (v - calls.count .decrement))
      else .error e := by
  induction calls generalizing v with
  | nil =>
    rw [if_pos ⟨rfl, hv⟩]
    simp only [List.count_nil, Nat.cast_zero, sub_zero]
    rfl
  | cons c calls ih =>
    cases c with
    | increment =>
      rw [after_cons_error (call_increment_of_error h _), if_neg]
      simp
    | decrement =>
      rw [List.count_cons_self, List.count_cons_of_ne (by decide)]
      push_cast
      rcases hv.eq_or_lt with rfl | hpos
      · rw [after_cons_error (call_decrement_zero_of_error h), if_neg (by omega)]
      · rw [after_cons_ok (call_decrement_of_pos width hpos), ih (by omega)]
        simp only [le_sub_iff_add_le, sub_sub, add_comm (1 : Int)]

/-- Nothing wraps on the way down to zero. -/
theorem after_int_of_lt {k : CellKind} (h : room.bits < k.bits) {v : Int} (hv : k.Fits v)
    (calls : List CellCall) :
    after room (.int k.bits) (.int v) calls =
      if calls.count .increment = 0 ∧ (calls.count .decrement : Int) ≤ v then
        .ok (.int (k.after v calls))
      else .error (lack k.bits) := by
  have hlt := (CellKind.fits_iff.1 hv).2
  rw [after_of_error (largest_of_lt h) hv.1]
  split
  · next hdown =>
    rw [CellKind.after_eq_emod hv, hdown.1, Int.emod_eq_of_lt (by omega) (by omega)]
    simp
  · rfl

end LooseCell

/-- Every width that a number can have, there may be room for. -/
theorem Room.exists_le_bits {bits : Nat} (h : bits < tooManyBits) : ∃ room : Room, bits ≤ room.bits :=
  ⟨⟨65536, max 64 bits, le_refl _, by decide, le_max_left _ _, max_lt (by decide) h⟩, le_max_right _ _⟩

/-- **Stepping is arithmetic modulo a power of two.** On a cell of any width, a sequence of calls from a
value of the cell stays among its values. It ends at the first value, more by the number of the increments
and less by the number of the decrements, modulo the power of two; so the order of the calls does not
matter. Increment and decrement are permutations of the values, each the inverse of the other. On cells of
at least eight bits the byte is the same sum modulo 256, and every byte is a value that gives this byte.

Worked by hand, a cell whose width there is room for takes any such sequence of calls, and goes through the
same values; below `tooManyBits` every width fits into some room. If there is no room for the width, what
fails is an increment, and a decrement at zero: all else returns the value that it should. -/
theorem stepping_modular (room : Room) (k : CellKind) :
    (∀ v ∈ k.values, ∀ calls : List CellCall,
      (∀ n, k.after v (calls.take n) ∈ k.values) ∧
      k.after v calls = (v + calls.count .increment - calls.count .decrement) % 2 ^ k.bits ∧
      (∀ calls', calls'.Perm calls → k.after v calls' = k.after v calls) ∧
      (8 ≤ k.bits → k.toByte (k.after v calls) =
        (v + calls.count .increment - calls.count .decrement) % 256)) ∧
    Set.BijOn k.increment k.values k.values ∧ Set.BijOn k.decrement k.values k.values ∧
    Set.InvOn k.decrement k.increment k.values k.values ∧
    (8 ≤ k.bits →
      ∀ x : UInt8, k.ofByte x.toNat ∈ k.values ∧ k.toByte (k.ofByte x.toNat) = x.toNat) ∧
    (k.bits < tooManyBits → ∃ ample : Room, k.bits ≤ ample.bits) ∧
    (k.bits ≤ room.bits →
      LooseCell.largest room (.int k.bits) = .ok (2 ^ k.bits - 1) ∧
      ∀ v ∈ k.values, ∀ calls : List CellCall,
        LooseCell.after room (.int k.bits) (.int v) calls = .ok (.int (k.after v calls)) ∧
        LooseCell.toByte (.int (k.after v calls)) = .ok (k.toByte (k.after v calls))) ∧
    (room.bits < k.bits →
      LooseCell.largest room (.int k.bits) =
        .error (if tooManyBits ≤ k.bits then .tooManyDigits else .outOfMemory) ∧
      ∀ v ∈ k.values, ∀ calls : List CellCall,
        LooseCell.after room (.int k.bits) (.int v) calls =
          if calls.count .increment = 0 ∧ (calls.count .decrement : Int) ≤ v then
            .ok (.int (k.after v calls))
          else .error (if tooManyBits ≤ k.bits then .tooManyDigits else .outOfMemory)) := by
  refine ⟨fun v hv calls => ?_, k.bijOn_increment, k.bijOn_decrement, k.invOn_step, fun hbyte x => ?_,
    Room.exists_le_bits, fun hroom => ⟨?_, fun v hv calls => ?_⟩,
    fun hroom => ⟨LooseCell.largest_of_lt hroom, fun v hv calls => ?_⟩⟩
  · have hfits : k.Fits v := CellKind.mem_values.1 hv
    exact ⟨fun n => CellKind.mem_values.2 (CellKind.fits_after hfits _),
      CellKind.after_eq_emod hfits calls, fun calls' hperm => CellKind.after_eq_of_perm hfits hperm,
      fun hbyte => CellKind.toByte_after hbyte hfits calls⟩
  · exact ⟨CellKind.mem_values.2 (CellKind.fits_byte hbyte x), k.toByte_ofByte x⟩
  · rw [LooseCell.largest_bits hroom, CellKind.largest_eq]
  · exact ⟨LooseCell.after_int hroom v calls, LooseCell.toByte_int k _⟩
  · exact LooseCell.after_int_of_lt hroom (CellKind.mem_values.1 hv) calls

/-- From the largest value of 16 bits, two steps up and three down cross the end of the range both ways. A
cell of no bits holds zero only. A cell of ten to the power of 30 bits has no largest value, and still
steps down. -/
theorem stepping_modular_both_ways :
    (65535 ∈ CellKind.u16.values ∧ 8 ≤ CellKind.u16.bits ∧
      LooseCell.largest .usual (.int 16) = .ok 65535 ∧
      LooseCell.after .usual (.int 16) (.int 65535)
        [.increment, .increment, .decrement, .decrement, .decrement] = .ok (.int 65534) ∧
      CellKind.u16.toByte (CellKind.u16.after 65535
        [.increment, .increment, .decrement, .decrement, .decrement]) = 254) ∧
    (0 ∈ CellKind.values ⟨0⟩ ∧ LooseCell.largest .usual (.int 0) = .ok 0 ∧
      LooseCell.after .usual (.int 0) (.int 0) [.decrement, .increment, .increment] = .ok (.int 0)) ∧
    2 ∈ CellKind.values ⟨10 ^ 30⟩ ∧
      LooseCell.largest .usual (.int (10 ^ 30 : Nat)) = .error .tooManyDigits ∧
      LooseCell.after .usual (.int (10 ^ 30 : Nat)) (.int 2) [.decrement, .decrement] =
        .ok (.int 0) := by
  have hwide : (65535 : Int) ∈ CellKind.u16.values := ⟨by decide, by decide⟩
  have hnone : (0 : Int) ∈ CellKind.values ⟨0⟩ := ⟨by decide, by decide⟩
  have hhuge : (2 : Int) ∈ CellKind.values ⟨10 ^ 30⟩ :=
    CellKind.mem_values_of_le (by decide) (by decide)
  obtain ⟨hmodular, -, -, -, -, -, hcalls, -⟩ := stepping_modular .usual .u16
  obtain ⟨-, -, -, -, -, -, hcalls', -⟩ := stepping_modular .usual ⟨0⟩
  obtain ⟨-, -, -, -, -, -, -, hdown⟩ := stepping_modular .usual ⟨10 ^ 30⟩
  exact ⟨⟨hwide, by decide, (hcalls (by decide)).1, ((hcalls (by decide)).2 _ hwide _).1,
      (hmodular _ hwide _).2.2.2 (by decide)⟩,
    ⟨hnone, (hcalls' (by decide)).1, ((hcalls' (by decide)).2 _ hnone _).1⟩,
    hhuge, (hdown (by decide)).1, (hdown (by decide)).2 _ hhuge [.decrement, .decrement]⟩

/-- **Not every width takes the calls.** However much room there is, no number can hold the largest value of
a cell of ten to the power of 30 bits, so incrementing its zero fails. -/
theorem stepping_without_room :
    0 ∈ CellKind.values ⟨10 ^ 30⟩ ∧ ∀ room : Room,
      LooseCell.after room (.int (10 ^ 30 : Nat)) (.int 0) [.increment] = .error .tooManyDigits ∧
      LooseCell.after room (.int (10 ^ 30 : Nat)) (.int 0) [.increment] ≠
        .ok (.int ((0 + 1 - 0) % 2 ^ (10 ^ 30))) := by
  refine ⟨CellKind.mem_values_of_le (by decide) (by decide), fun room => ?_⟩
  have htop : LooseCell.largest room (.int (10 ^ 30 : Nat)) = .error .tooManyDigits :=
    LooseCell.largest_of_lt (k := ⟨10 ^ 30⟩) (room.bits_lt.trans (by decide))
  have hfails : LooseCell.after room (.int (10 ^ 30 : Nat)) (.int 0) [.increment] =
      .error .tooManyDigits :=
    LooseCell.after_cons_error (LooseCell.call_increment_of_error htop _) []
  refine ⟨hfails, ?_⟩
  rw [hfails]
  exact fun h => nomatch h

end TapeMachine
