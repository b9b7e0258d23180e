import Mathlib
import TapeMachine.Program

/-!
# Balanced brackets

The bracket check keeps a stack, but what it decides can be said without one. The depth after `k`
instructions is the number of opening brackets among them less the number of closing ones. A program is
balanced if its depth never falls below zero and ends there, and if it is not, the depth also tells which
bracket is to blame.

## The model

* `depthAt l k`: the depth after the first `k` instructions.
* `Level l a b`: between `a` and `b` the depth never falls below what it is at both ends. These stretches
  are the balanced ones (`level_iff_balanced`).
* `Matched l i j`: an opening and a closing bracket with a balanced stretch between them.
* `Pends l k stack`: what the stack of a scan holds after `k` instructions. Between the brackets on it, and
  above the last, there are only balanced stretches.

## What is proved

* `exists_matched_of_open`, `exists_matched_of_close`: where the depth returns, a bracket has its partner.
* `Pends.opened`, `Pends.closed`, `Pends.passed`: what one instruction does to the stack.
* `finding_bracketFault?`: what the scan finds, by induction on what is left to scan.
* `check_decides_balance`: the check accepts what is balanced, and blames the right bracket otherwise.
-/

namespace TapeMachine

/-! ### Depth -/

/-- The command at an index. -/
def opAt? (l : List Instruction) (i : Nat) : Option Opcode := l[i]?.map (·.opcode)

/-- The opening brackets among the first `k` instructions, less the closing ones. -/
def depthAt (l : List Instruction) (k : Nat) : Int :=
  (l.take k).countP (·.opcode = .beginLoop) - (l.take k).countP (·.opcode = .endLoop)

/-- The depth never falls below zero, and it is zero in the end. -/
def Balanced (l : List Instruction) : Prop := (∀ k, 0 ≤ depthAt l k) ∧ depthAt l l.length = 0

section Depth

variable {l : List Instruction} {i j k : Nat}

theorem opAt?_eq_some_iff {op : Opcode} :
    opAt? l i = some op ↔ ∃ ins, l[i]? = some ins ∧ ins.opcode = op := by
  simp [opAt?]

theorem opAt?_of_getElem? {ins : Instruction} (h : l[i]? = some ins) : opAt? l i = some ins.opcode := by
  rw [opAt?, h]
  rfl

theorem lt_length_of_opAt? {op : Opcode} (h : opAt? l i = some op) : i < l.length := by
  obtain ⟨ins, hi, -⟩ := opAt?_eq_some_iff.1 h
  exact (List.getElem?_eq_some_iff.1 hi).1

@[simp] theorem depthAt_zero (l : List Instruction) : depthAt l 0 = 0 := rfl

/-- One instruction more. -/
theorem depthAt_succ (l : List Instruction) (k : Nat) :
    depthAt l (k + 1) = depthAt l k + ((if opAt? l k = some .beginLoop then 1 else 0) -
      (if opAt? l k = some .endLoop then 1 else 0)) := by
  unfold depthAt opAt?
  rw [List.take_add_one, List.countP_append, List.countP_append]
  cases hk : l[k]? with
  | none => simp
  | some ins => cases hop : ins.opcode <;> simp [hop] <;> ring

theorem depthAt_succ_of_open (h : opAt? l k = some .beginLoop) :
    depthAt l (k + 1) = depthAt l k + 1 := by
  simp [depthAt_succ, h]

theorem depthAt_succ_of_close (h : opAt? l k = some .endLoop) :
    depthAt l (k + 1) = depthAt l k - 1 := by
  rw [depthAt_succ, if_neg (by rw [h]; decide), if_pos h]
  ring

theorem depthAt_succ_of_ne (hopen : opAt? l k ≠ some .beginLoop) (hclose : opAt? l k ≠ some .endLoop) :
    depthAt l (k + 1) = depthAt l k := by
  simp [depthAt_succ, hopen, hclose]

/-- Only an opening bracket makes the depth greater. -/
theorem opAt?_eq_beginLoop (h : depthAt l k < depthAt l (k + 1)) : opAt? l k = some .beginLoop := by
  by_contra hne
  rw [depthAt_succ, if_neg hne] at h
  split_ifs at h <;> omega

/-- Only a closing bracket makes the depth smaller. -/
theorem opAt?_eq_endLoop (h : depthAt l (k + 1) < depthAt l k) : opAt? l k = some .endLoop := by
  by_contra hne
  rw [depthAt_succ, if_neg hne] at h
  split_ifs at h <;> omega

/-! ### Balanced stretches -/

/-- From `a` to `b` the depth never falls below what it is at both ends. -/
structure Level (l : List Instruction) (a b : Nat) : Prop where
  le : a ≤ b
  same : depthAt l b = depthAt l a
  above : ∀ m, a ≤ m → m ≤ b → depthAt l a ≤ depthAt l m

theorem Level.refl (l : List Instruction) (a : Nat) : Level l a a where
  le := le_rfl
  same := rfl
  above := fun m h h' => by rw [le_antisymm h h']

theorem Level.trans {a b c : Nat} (h : Level l a b) (h' : Level l b c) : Level l a c where
  le := h.le.trans h'.le
  same := h'.same.trans h.same
  above := by
    intro m ham hmc
    rcases le_total m b with hmb | hbm
    · exact h.above m ham hmb
    · rw [← h.same]
      exact h'.above m hbm hmc

theorem Level.succ (hopen : opAt? l k ≠ some .beginLoop) (hclose : opAt? l k ≠ some .endLoop) :
    Level l k (k + 1) where
  le := Nat.le_succ k
  same := depthAt_succ_of_ne hopen hclose
  above := by
    intro m hm hm'
    rcases Nat.le_or_eq_of_le_succ hm' with hle | rfl
    · rw [le_antisymm hm hle]
    · rw [depthAt_succ_of_ne hopen hclose]

/-- The depth inside a stretch, counted from its start. -/
theorem depthAt_stretch {a b : Nat} (hab : a ≤ b) (m : Nat) :
    depthAt ((l.take b).drop a) m = depthAt l (min (a + m) b) - depthAt l a := by
  have hsplit : l.take (min (a + m) b) = l.take a ++ ((l.take b).drop a).take m := by
    have hcut := List.take_append_drop a (l.take (min (a + m) b))
    rw [List.take_take, min_eq_left (le_min (Nat.le_add_right a m) hab)] at hcut
    rw [List.take_drop, List.take_take]
    exact hcut.symm
  unfold depthAt
  rw [hsplit, List.countP_append, List.countP_append]
  push_cast
  ring

/-- The level stretches are the balanced ones. -/
theorem level_iff_balanced {a b : Nat} (hab : a ≤ b) (hb : b ≤ l.length) :
    Level l a b ↔ Balanced ((l.take b).drop a) := by
  have hlength : ((l.take b).drop a).length = b - a := by simp [min_eq_left hb]
  have hend : depthAt ((l.take b).drop a) ((l.take b).drop a).length = depthAt l b - depthAt l a := by
    rw [depthAt_stretch hab, hlength, Nat.add_sub_cancel' hab, min_self]
  unfold Balanced
  rw [hend]
  constructor
  · intro h
    refine ⟨fun k => ?_, by rw [h.same, sub_self]⟩
    rw [depthAt_stretch hab, sub_nonneg]
    exact h.above _ (le_min (Nat.le_add_right a k) hab) (min_le_right _ _)
  · rintro ⟨habove, hsame⟩
    refine ⟨hab, by omega, fun m ham hmb => ?_⟩
    have hm := habove (m - a)
    rwa [depthAt_stretch hab, Nat.add_sub_cancel' ham, min_eq_left hmb, sub_nonneg] at hm

/-! ### Brackets that match -/

/-- An opening and a closing bracket, with a balanced stretch strictly between them. -/
structure Matched (l : List Instruction) (i j : Nat) : Prop where
  lt : i < j
  opens : opAt? l i = some .beginLoop
  closes : opAt? l j = some .endLoop
  between : Balanced ((l.take j).drop (i + 1))

theorem matched_iff_level : Matched l i j ↔
    opAt? l i = some .beginLoop ∧ opAt? l j = some .endLoop ∧ Level l (i + 1) j := by
  constructor
  · intro h
    exact ⟨h.opens, h.closes,
      (level_iff_balanced h.lt (lt_length_of_opAt? h.closes).le).2 h.between⟩
  · rintro ⟨hopen, hclose, h⟩
    exact ⟨h.le, hopen, hclose, (level_iff_balanced h.le (lt_length_of_opAt? hclose).le).1 h⟩

theorem Matched.inner (h : Matched l i j) : Level l (i + 1) j := (matched_iff_level.1 h).2.2

/-- After the closing bracket the depth is what it was before the opening one. -/
theorem Matched.level (h : Matched l i j) : Level l i (j + 1) := by
  have hup := depthAt_succ_of_open h.opens
  have hdown := depthAt_succ_of_close h.closes
  have hsame := h.inner.same
  refine ⟨by have := h.lt; omega, by omega, fun m him hmj => ?_⟩
  rcases Nat.eq_or_lt_of_le him with rfl | hlt
  · exact le_rfl
  · by_cases hle : m ≤ j
    · have := h.inner.above m hlt hle
      omega
    · obtain rfl : m = j + 1 := by omega
      omega

/-- An opening bracket has its partner, if the depth gets down again to what it was before. -/
theorem exists_matched_of_open {b : Nat} (hopen : opAt? l i = some .beginLoop) (hib : i < b)
    (hdown : depthAt l b ≤ depthAt l i) : ∃ j < b, Matched l i j := by
  have hup := depthAt_succ_of_open hopen
  -- the partner stands before the first place where the depth is down again
  have hex : ∃ n, i < n ∧ depthAt l n ≤ depthAt l i := ⟨b, hib, hdown⟩
  obtain ⟨hlt, hle⟩ := Nat.find_spec hex
  have hleast : ∀ m, i < m → m < Nat.find hex → depthAt l i < depthAt l m := fun m him hm =>
    lt_of_not_ge fun hge => Nat.find_min hex hm ⟨him, hge⟩
  have hfb : Nat.find hex ≤ b := Nat.find_min' hex ⟨hib, hdown⟩
  generalize Nat.find hex = n at hlt hle hleast hfb
  obtain ⟨j, rfl⟩ : ∃ j, n = j + 1 := ⟨n - 1, by omega⟩
  have hij : i < j := by
    rcases Nat.lt_or_eq_of_le (Nat.le_of_lt_succ hlt) with h | rfl
    · exact h
    · omega
  have hj := hleast j hij (Nat.lt_succ_self j)
  have hclose : opAt? l j = some .endLoop := opAt?_eq_endLoop (by omega)
  have hstep := depthAt_succ_of_close hclose
  refine ⟨j, by omega, matched_iff_level.2 ⟨hopen, hclose, hij, by omega, fun m him hmj => ?_⟩⟩
  have := hleast m him (by omega)
  omega

/-- A closing bracket has its partner, if the depth was at some time before as low as after it. -/
theorem exists_matched_of_close {a : Nat} (hclose : opAt? l j = some .endLoop) (haj : a ≤ j)
    (hlow : depthAt l a ≤ depthAt l (j + 1)) : ∃ i ≥ a, Matched l i j := by
  have hstep := depthAt_succ_of_close hclose
  -- the partner stands at the last place where the depth was as low
  let low : Nat → Prop := fun n => depthAt l n ≤ depthAt l (j + 1)
  have hlast : low (Nat.findGreatest low j) := Nat.findGreatest_spec haj hlow
  have hge : a ≤ Nat.findGreatest low j := Nat.le_findGreatest haj hlow
  have hle : Nat.findGreatest low j ≤ j := Nat.findGreatest_le j
  have habove : ∀ m, Nat.findGreatest low j < m → m ≤ j → depthAt l (j + 1) < depthAt l m :=
    fun m hm hmj => lt_of_not_ge fun h => Nat.findGreatest_is_greatest hm hmj h
  generalize Nat.findGreatest low j = i at hlast hge hle habove
  have hij : i < j := by
    rcases Nat.lt_or_eq_of_le hle with h | rfl
    · exact h
    · simp only [low] at hlast
      omega
  have hnext := habove (i + 1) (Nat.lt_succ_self i) hij
  simp only [low] at hlast
  have hopen : opAt? l i = some .beginLoop := opAt?_eq_beginLoop (by omega)
  have hup := depthAt_succ_of_open hopen
  refine ⟨i, hge, matched_iff_level.2 ⟨hopen, hclose, hij, by omega, fun m him hmj => ?_⟩⟩
  have := habove m him hmj
  omega

end Depth

/-! ### The stack of a scan -/

/-- The brackets that are open after `k` instructions, the innermost first. Outside of them, and inside
each of them up to the next, there are only balanced stretches. -/
inductive Pends (l : List Instruction) : Nat → List (Nat × Instruction) → Prop where
  /-- Nothing is open. -/
  | outside {k : Nat} (h : Level l 0 k) : Pends l k []
  /-- The bracket at `i` is open, and those that were open before it. -/
  | inside {i k : Nat} {ins : Instruction} {stack : List (Nat × Instruction)}
      (hi : l[i]? = some ins) (hopen : ins.opcode = .beginLoop) (hstack : Pends l i stack)
      (h : Level l (i + 1) k) : Pends l k ((i, ins) :: stack)

namespace Pends

variable {l : List Instruction} {k : Nat} {stack : List (Nat × Instruction)}

theorem start (l : List Instruction) : Pends l 0 [] := .outside (.refl l 0)

/-- A balanced stretch leaves the stack alone. -/
theorem extend {k' : Nat} (h : Pends l k stack) (hlevel : Level l k k') : Pends l k' stack := by
  cases h with
  | outside h => exact .outside (h.trans hlevel)
  | inside hi hopen hstack h => exact .inside hi hopen hstack (h.trans hlevel)

/-- A command that is no bracket leaves the stack alone. -/
theorem passed (h : Pends l k stack) (hopen : opAt? l k ≠ some .beginLoop)
    (hclose : opAt? l k ≠ some .endLoop) : Pends l (k + 1) stack :=
  h.extend (.succ hopen hclose)

/-- An opening bracket is put on the stack. -/
theorem opened {ins : Instruction} (h : Pends l k stack) (hk : l[k]? = some ins)
    (hopen : ins.opcode = .beginLoop) : Pends l (k + 1) ((k, ins) :: stack) :=
  .inside hk hopen h (.refl l (k + 1))

/-- A closing bracket matches the one that it takes from the stack. -/
theorem matched {i : Nat} {ins : Instruction} (h : Pends l k ((i, ins) :: stack))
    (hclose : opAt? l k = some .endLoop) : Matched l i k := by
  cases h with
  | inside hi hopen _ h =>
    exact matched_iff_level.2 ⟨by rw [opAt?_of_getElem? hi, hopen], hclose, h⟩

theorem closed {i : Nat} {ins : Instruction} (h : Pends l k ((i, ins) :: stack))
    (hclose : opAt? l k = some .endLoop) : Pends l (k + 1) stack := by
  have hlevel := (h.matched hclose).level
  cases h with
  | inside _ _ hstack _ => exact hstack.extend hlevel

/-- The depth has not been below zero. -/
theorem nonneg (h : Pends l k stack) : ∀ m ≤ k, 0 ≤ depthAt l m := by
  induction h with
  | outside h => exact fun m hm => h.above m (Nat.zero_le m) hm
  | @inside i k ins stack hi hopen _ h ih =>
    intro m hm
    have hup := depthAt_succ_of_open (l := l) (by rw [opAt?_of_getElem? hi, hopen])
    rcases Nat.lt_or_ge i m with him | hmi
    · have := h.above m him hm
      have := ih i le_rfl
      omega
    · exact ih m hmi

/-- The outermost bracket on the stack: nothing is open before it, and the depth stays greater. -/
theorem outermost {i : Nat} {ins : Instruction} (h : Pends l k stack)
    (hlast : stack.getLast? = some (i, ins)) :
    l[i]? = some ins ∧ ins.opcode = .beginLoop ∧ i < k ∧ Level l 0 i ∧
      ∀ m, i < m → m ≤ k → depthAt l i < depthAt l m := by
  induction h with
  | outside => cases hlast
  | @inside j k ins' stack hj hopen hstack h ih =>
    have hup := depthAt_succ_of_open (l := l) (by rw [opAt?_of_getElem? hj, hopen])
    have habove : ∀ m, j < m → m ≤ k → depthAt l j < depthAt l m := by
      intro m hjm hmk
      have := h.above m hjm hmk
      omega
    cases hstack with
    | outside hlevel =>
      cases hlast
      exact ⟨hj, hopen, h.le, hlevel, habove⟩
    | inside hi' hopen' hstack' h' =>
      obtain ⟨hi, ho, hij, hlevel, hstays⟩ := ih (by simpa using hlast)
      refine ⟨hi, ho, by have := h.le; omega, hlevel, fun m him hmk => ?_⟩
      rcases Nat.lt_or_ge j m with hjm | hmj
      · exact (hstays j hij le_rfl).trans (habove m hjm hmk)
      · exact hstays m him hmj

end Pends

/-- The first of the instructions that are left, and the others. -/
theorem getElem?_and_drop_of_drop_eq_cons {l rest : List Instruction} {k : Nat} {ins : Instruction}
    (h : l.drop k = ins :: rest) : l[k]? = some ins ∧ l.drop (k + 1) = rest := by
  constructor
  · rw [← List.head?_drop, h]
    rfl
  · rw [← List.tail_drop, h]
    rfl

/-! ### What the scan finds -/

namespace Program

section Scanning

variable {pending l rest : List Instruction} {ins : Instruction}

theorem bracketFault?_of_open (h : ins.opcode = .beginLoop) :
    bracketFault? pending (ins :: rest) = bracketFault? (ins :: pending) rest := by
  simp only [bracketFault?, h]

theorem bracketFault?_of_close (h : ins.opcode = .endLoop) :
    bracketFault? pending (ins :: rest) =
      match pending with
      | [] => some (.unmatchedClose, ins)
      | _ :: pending => bracketFault? pending rest := by
  cases pending with
  | nil | cons => simp only [bracketFault?, h]

theorem bracketFault?_of_ne (hopen : ins.opcode ≠ .beginLoop) (hclose : ins.opcode ≠ .endLoop) :
    bracketFault? pending (ins :: rest) = bracketFault? pending rest := by
  cases hop : ins.opcode with
  | beginLoop => exact absurd hop hopen
  | endLoop => exact absurd hop hclose
  | _ => simp only [bracketFault?, hop]

end Scanning

/-- What the scan of some instructions can find, and what that means. -/
inductive Finding (l : List Instruction) : Option (Problem × Instruction) → Prop where
  | balanced (h : Level l 0 l.length) : Finding l none
  /-- A closing bracket where nothing is open. -/
  | unopened {k : Nat} {ins : Instruction} (hk : l[k]? = some ins) (hclose : ins.opcode = .endLoop)
      (h : Level l 0 k) : Finding l (some (.unmatchedClose, ins))
  /-- An opening bracket, with nothing open before it, after which the depth stays greater. -/
  | unclosed {i : Nat} {ins : Instruction} (hi : l[i]? = some ins) (hopen : ins.opcode = .beginLoop)
      (h : Level l 0 i) (hstays : ∀ m, i < m → m ≤ l.length → depthAt l i < depthAt l m) :
      Finding l (some (.unmatchedOpen, ins))

/-- **What the scan finds.** The instructions from `k` on are left to scan. -/
theorem finding_bracketFault? {l rest : List Instruction} {k : Nat} {stack : List (Nat × Instruction)}
    (hk : k ≤ l.length) (hrest : l.drop k = rest) (h : Pends l k stack) :
    Finding l (bracketFault? (stack.map Prod.snd) rest) := by
  induction rest generalizing k stack with
  | nil =>
    obtain rfl : k = l.length := le_antisymm hk (List.drop_eq_nil_iff.1 hrest)
    rw [bracketFault?, List.getLast?_map]
    cases hlast : stack.getLast? with
    | none =>
      rw [List.getLast?_eq_none_iff] at hlast
      subst hlast
      cases h with
      | outside h => exact .balanced h
    | some e =>
      obtain ⟨i, ins⟩ := e
      obtain ⟨hi, hopen, -, hlevel, hstays⟩ := h.outermost hlast
      exact .unclosed hi hopen hlevel hstays
  | cons ins rest ih =>
    obtain ⟨hins, hnext⟩ := getElem?_and_drop_of_drop_eq_cons hrest
    have hlt : k < l.length := (List.getElem?_eq_some_iff.1 hins).1
    have hop := opAt?_of_getElem? hins
    by_cases hopen : ins.opcode = .beginLoop
    · rw [bracketFault?_of_open hopen]
      exact ih hlt hnext (h.opened hins hopen)
    by_cases hclose : ins.opcode = .endLoop
    · rw [bracketFault?_of_close hclose]
      cases stack with
      | nil =>
        cases h with
        | outside h => exact .unopened hins hclose h
      | cons e stack => exact ih hlt hnext (h.closed (by rw [hop, hclose]))
    · rw [bracketFault?_of_ne hopen hclose]
      exact ih hlt hnext (h.passed (by rw [hop]; simpa using hopen) (by rw [hop]; simpa using hclose))

theorem length_toList_instructions (p : Program) : p.instructions.toList.length = p.size :=
  Array.length_toList

/-- The depth of a program after its first `k` instructions. -/
def depth (p : Program) (k : Nat) : Int := depthAt p.instructions.toList k

/-- After the instruction at index `k` the depth is below zero for the first time. -/
structure FirstUnopened (p : Program) (k : Nat) (ins : Instruction) : Prop where
  here : p.instructions[k]? = some ins
  below : p.depth (k + 1) < 0
  first : ∀ m ≤ k, 0 ≤ p.depth m

/-- At index `i` there is an opening bracket, and the depth never returns to what it was before it. -/
structure Unclosed (p : Program) (i : Nat) (ins : Instruction) : Prop where
  here : p.instructions[i]? = some ins
  opens : ins.opcode = .beginLoop
  never : ∀ k, i < k → k ≤ p.size → p.depth k ≠ p.depth i

theorem Unclosed.opAt? {p : Program} {i : Nat} {ins : Instruction} (h : p.Unclosed i ins) :
    opAt? p.instructions.toList i = some .beginLoop := by
  rw [TapeMachine.opAt?, Array.getElem?_toList, h.here, Option.map_some, h.opens]

/-- An unclosed bracket has no partner, since after a partner the depth is what it was before the pair. -/
theorem Unclosed.not_matched {p : Program} {i j : Nat} {ins : Instruction} (h : p.Unclosed i ins) :
    ¬ Matched p.instructions.toList i j := by
  intro hmatched
  have hj := lt_length_of_opAt? hmatched.closes
  rw [length_toList_instructions] at hj
  exact h.never (j + 1) (Nat.lt_succ_of_lt hmatched.lt) hj hmatched.level.same

/-- An unclosed bracket before which all are closed. -/
structure FirstUnclosed (p : Program) (i : Nat) (ins : Instruction) : Prop where
  unclosed : p.Unclosed i ins
  first : ∀ j < i, ∀ ins', ¬ p.Unclosed j ins'

section Blaming

variable {p : Program} {i k : Nat} {ins : Instruction}

/-- A closing bracket where nothing is open is the first one to blame. -/
theorem firstUnopened_of_level (hk : p.instructions.toList[k]? = some ins)
    (hclose : ins.opcode = .endLoop) (h : Level p.instructions.toList 0 k) : p.FirstUnopened k ins where
  here := by rw [← Array.getElem?_toList, hk]
  below := by
    have hdown := depthAt_succ_of_close (by rw [opAt?_of_getElem? hk, hclose])
    rw [h.same, depthAt_zero] at hdown
    rw [depth, hdown]
    decide
  first := fun m hm => h.above m (Nat.zero_le m) hm

/-- An opening bracket before which nothing is open, and after which the depth stays greater, is the first
unclosed one. -/
theorem firstUnclosed_of_level (hi : p.instructions.toList[i]? = some ins)
    (hopen : ins.opcode = .beginLoop) (h : Level p.instructions.toList 0 i)
    (hstays : ∀ m, i < m → m ≤ p.size → p.depth i < p.depth m) : p.FirstUnclosed i ins where
  unclosed :=
    { here := by rw [← Array.getElem?_toList, hi]
      opens := hopen
      never := fun k hik hk => (hstays k hik hk).ne' }
  first := by
    intro j hji ins' hj
    -- before `i` the depth gets down to zero, so a bracket before it has its partner
    have hdown : depthAt p.instructions.toList i ≤ depthAt p.instructions.toList j := by
      rw [h.same]
      exact h.above j (Nat.zero_le j) hji.le
    obtain ⟨k, -, hmatched⟩ := exists_matched_of_open hj.opAt? hji hdown
    exact hj.not_matched hmatched

/-- What the check of a program finds. -/
theorem finding_check (p : Program) :
    Finding p.instructions.toList (bracketFault? [] p.instructions.toList) :=
  finding_bracketFault? (Nat.zero_le _) rfl (.start _)

end Blaming

/-- **The check decides balance, and blames the right bracket.** It accepts a program if and only if the
depth never falls below zero and ends there. It complains of a closing bracket if and only if the depth
falls below zero, and then blames the instruction after which it does so first. It complains of an opening
bracket if and only if the depth never falls below zero and ends above it, and then blames the first bracket
after which the depth never returns to what it was before, whatever is closed or left open later. Either
error has the source of the program. -/
theorem check_decides_balance (p : Program) :
    (p.check = .ok () ↔ (∀ k ≤ p.size, 0 ≤ p.depth k) ∧ p.depth p.size = 0) ∧
    ((∃ e, p.check = .error e ∧ e.problem = .unmatchedClose) ↔ ∃ k ≤ p.size, p.depth k < 0) ∧
    ((∃ e, p.check = .error e ∧ e.problem = .unmatchedOpen) ↔
      (∀ k ≤ p.size, 0 ≤ p.depth k) ∧ 0 < p.depth p.size) ∧
    ∀ e, p.check = .error e → e.source = p.source ∧
      (e.problem = .unmatchedClose ∧ (∃ k ins, p.FirstUnopened k ins ∧ e.place = some ins.place) ∨
        e.problem = .unmatchedOpen ∧ ∃ i ins, p.FirstUnclosed i ins ∧ e.place = some ins.place) := by
  have hfinding := finding_check p
  unfold check
  generalize bracketFault? [] p.instructions.toList = found at hfinding
  cases hfinding with
  | balanced h =>
    rw [length_toList_instructions] at h
    have hnonneg : ∀ k ≤ p.size, 0 ≤ p.depth k := fun k hk => h.above k (Nat.zero_le k) hk
    have hend : p.depth p.size = 0 := h.same
    simp only [reduceCtorEq, false_and, exists_false, false_iff, true_iff, not_exists, not_and, not_lt]
    exact ⟨⟨hnonneg, hend⟩, hnonneg, fun _ => hend.le, fun e he => nomatch he⟩
  | @unopened k ins hk hclose h =>
    have hfirst := firstUnopened_of_level hk hclose h
    have hlt : k < p.size := by
      rw [← length_toList_instructions]
      exact (List.getElem?_eq_some_iff.1 hk).1
    have hno : ¬ ∀ k ≤ p.size, 0 ≤ p.depth k := fun hall =>
      absurd (hall (k + 1) hlt) (not_le.2 hfirst.below)
    refine ⟨?_, ?_, ?_, ?_⟩
    · simp [hno]
    · exact ⟨fun _ => ⟨k + 1, hlt, hfirst.below⟩, fun _ => ⟨_, rfl, rfl⟩⟩
    · simp [hno]
    · rintro e ⟨⟩
      exact ⟨rfl, .inl ⟨rfl, k, ins, hfirst, rfl⟩⟩
  | @unclosed i ins hi hopen h hstays =>
    rw [length_toList_instructions] at hstays
    have hfirst := firstUnclosed_of_level hi hopen h hstays
    have hlt : i < p.size := by
      rw [← length_toList_instructions]
      exact (List.getElem?_eq_some_iff.1 hi).1
    have hzero : p.depth i = 0 := h.same
    have hend : 0 < p.depth p.size := hzero ▸ hstays p.size hlt le_rfl
    have hnonneg : ∀ k ≤ p.size, 0 ≤ p.depth k := by
      intro k hk
      rcases Nat.lt_or_ge i k with hik | hki
      · exact hzero ▸ (hstays k hik hk).le
      · exact h.above k (Nat.zero_le k) hki
    refine ⟨?_, ?_, ?_, ?_⟩
    · simp [hend.ne']
    · simpa using hnonneg
    · exact ⟨fun _ => ⟨hnonneg, hend⟩, fun _ => ⟨_, rfl, rfl⟩⟩
    · rintro e ⟨⟩
      exact ⟨rfl, .inr ⟨rfl, i, ins, hfirst, rfl⟩⟩

/-- In `[]][` the second closing bracket has nothing to close. In `[][+[]` the second opening bracket is
left open, while one before it and one after it are closed. -/
theorem check_decides_balance_culprits :
    (∃ e k ins, (ofText (some "p") "[]][").check = .error e ∧
      (ofText (some "p") "[]][").FirstUnopened k ins ∧
      e.place = some ins.place ∧ e.place = some ⟨1, 3, .endLoop⟩) ∧
    ∃ e i ins, (ofText (some "p") "[][+[]").check = .error e ∧
      (ofText (some "p") "[][+[]").FirstUnclosed i ins ∧
      e.place = some ins.place ∧ e.place = some ⟨1, 3, .beginLoop⟩ := by
  constructor
  · obtain ⟨-, -, -, hblames⟩ := check_decides_balance (ofText (some "p") "[]][")
    obtain ⟨-, ⟨-, k, ins, hfirst, hplace⟩ | ⟨hproblem, -⟩⟩ := hblames _ rfl
    · exact ⟨_, k, ins, rfl, hfirst, hplace, rfl⟩
    · cases hproblem
  · obtain ⟨-, -, -, hblames⟩ := check_decides_balance (ofText (some "p") "[][+[]")
    obtain ⟨-, ⟨hproblem, -⟩ | ⟨-, i, ins, hfirst, hplace⟩⟩ := hblames _ rfl
    · cases hproblem
    · exact ⟨_, i, ins, rfl, hfirst, hplace, rfl⟩

end Program

end TapeMachine
