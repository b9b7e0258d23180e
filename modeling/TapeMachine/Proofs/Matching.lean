import Mathlib
import TapeMachine.JumpTable
import TapeMachine.Proofs.Balance

/-!
# Jump tables match brackets

The jump table of a program is built with a stack of open brackets, in one pass. What it holds can be said
without the stack: two indices are mapped to each other if there are brackets at them that match, the first
opening and the second closing, with a balanced stretch between them.

## What is proved

* `Matched.nested`: of two pairs of brackets one lies inside the other, or one after the other. Hence a
  bracket has at most one partner (`Partners.unique`).
* `Links l k t`: a table holds the pairs that are complete after `k` instructions. `Links.passed` and
  `Links.linked` say what one instruction does to it, and `build_cases` follows the whole pass.
* `jumps_match_brackets`: the table is the matching of the brackets, and the program passes the check if and
  only if every bracket is in it.

The program need not have passed the check.
-/

namespace TapeMachine

/-! ### Pairs of brackets -/

section Pairs

variable {l : List Instruction} {i j i' j' k : Nat}

/-- Pairs of brackets do not cross: the one that opens later lies behind the other, or inside it. -/
theorem Matched.nested (h : Matched l i j) (h' : Matched l i' j') (hlt : i < i') : j < i' ∨ j' < j := by
  by_contra hcross
  push Not at hcross
  obtain ⟨hle, hle'⟩ := hcross
  have hne : i' ≠ j := by
    rintro rfl
    exact absurd (h'.opens.symm.trans h.closes) (by decide)
  -- the second pair would open inside the first and close outside, so the depth could not return
  have hinside := h.inner.above i' hlt hle
  have houtside := h'.inner.above j (by omega) hle'
  have hup := depthAt_succ_of_open h'.opens
  have hsame := h.inner.same
  omega

theorem Matched.left_unique (h : Matched l i j) (h' : Matched l i' j) : i = i' := by
  rcases Nat.lt_trichotomy i i' with hlt | heq | hlt
  · have := h.nested h' hlt
    have := h'.lt
    omega
  · exact heq
  · have := h'.nested h hlt
    have := h.lt
    omega

theorem Matched.right_unique (h : Matched l i j) (h' : Matched l i j') : j = j' := by
  have hdepth : ∀ {a b : Nat}, Matched l i a → Matched l i b → ¬ a < b := by
    intro a b ha hb hab
    have hdown := depthAt_succ_of_close ha.closes
    have hsame := ha.inner.same
    have habove := hb.inner.above (a + 1) (by have := ha.lt; omega) hab
    omega
  exact le_antisymm (not_lt.1 (hdepth h' h)) (not_lt.1 (hdepth h h'))

/-- The brackets at two indices match, whichever comes first. -/
def Partners (l : List Instruction) (i j : Nat) : Prop := Matched l i j ∨ Matched l j i

theorem Partners.symm (h : Partners l i j) : Partners l j i := Or.symm h

theorem Partners.ne (h : Partners l i j) : i ≠ j := by
  rcases h with h | h
  · exact h.lt.ne
  · exact h.lt.ne'

/-- A bracket has at most one partner. -/
theorem Partners.unique (h : Partners l i j) (h' : Partners l i j') : j = j' := by
  rcases h with h | h <;> rcases h' with h' | h'
  · exact h.right_unique h'
  · exact absurd (h.opens.symm.trans h'.closes) (by decide)
  · exact absurd (h'.opens.symm.trans h.closes) (by decide)
  · exact h.left_unique h'

theorem Partners.lt_length (h : Partners l i j) : i < l.length := by
  rcases h with h | h
  · exact lt_length_of_opAt? h.opens
  · exact lt_length_of_opAt? h.closes

/-- The later one of two partners closes. -/
theorem Partners.closes (h : Partners l k j) (hlt : j < k) : opAt? l k = some .endLoop := by
  rcases h with h | h
  · exact absurd h.lt (by omega)
  · exact h.closes

end Pairs

/-! ### Tables -/

/-- The table holds the pairs of brackets that are complete after `k` instructions, and nothing else. -/
def Links (l : List Instruction) (k : Nat) (t : Array (Option Nat)) : Prop :=
  ∀ i j, t[i]?.join = some j ↔ Partners l i j ∧ i < k ∧ j < k

namespace JumpTable

theorem getElem?_link {t : Array (Option Nat)} {i j : Nat} (hi : i < t.size) (hj : j < t.size)
    (m : Nat) : (link t i j)[m]? =
      if m = j then some (some i) else if m = i then some (some j) else t[m]? := by
  unfold link
  split_ifs with hmj hmi
  · rw [hmj, Array.getElem?_setIfInBounds_self_of_lt (by rwa [Array.size_setIfInBounds])]
  · rw [Array.getElem?_setIfInBounds_ne (Ne.symm hmj), hmi,
      Array.getElem?_setIfInBounds_self_of_lt hi]
  · rw [Array.getElem?_setIfInBounds_ne (Ne.symm hmj), Array.getElem?_setIfInBounds_ne (Ne.symm hmi)]

/-- The entries of a table are what it maps. -/
theorem mem_entries_iff {t : JumpTable} {i j : Nat} :
    (i, j) ∈ t.entries ↔ t.targets[i]?.join = some j := by
  unfold entries
  rw [List.mem_filterMap]
  constructor
  · rintro ⟨⟨target, index⟩, hmem, heq⟩
    obtain ⟨k, rfl, hk⟩ := Option.map_eq_some_iff.1 heq
    cases hk
    rw [List.mem_zipIdx_iff_getElem?, Array.getElem?_toList] at hmem
    rw [hmem]
    rfl
  · intro h
    refine ⟨(some j, i), ?_, rfl⟩
    rw [List.mem_zipIdx_iff_getElem?, Array.getElem?_toList]
    exact Option.join_eq_some_iff.1 h

end JumpTable

namespace Links

variable {l : List Instruction} {k : Nat} {t : Array (Option Nat)}

theorem empty (l : List Instruction) (n : Nat) : Links l 0 (Array.replicate n none) := by
  intro i j
  rw [Array.getElem?_replicate]
  split <;> simp

/-- Only a closing bracket completes a pair. -/
theorem passed (h : Links l k t) (hclose : opAt? l k ≠ some .endLoop) : Links l (k + 1) t := by
  intro i j
  rw [h]
  refine and_congr_right fun hp => ⟨fun hlt => by omega, fun hlt => ?_⟩
  have hi : i ≠ k := by
    rintro rfl
    exact hclose (hp.closes (by have := hp.ne; omega))
  have hj : j ≠ k := by
    rintro rfl
    exact hclose (hp.symm.closes (by have := hp.ne; omega))
  omega

/-- A closing bracket completes one pair, and that is linked. -/
theorem linked {i : Nat} (h : Links l k t) (hm : Matched l i k) (hk : k < t.size) :
    Links l (k + 1) (JumpTable.link t i k) := by
  have hpair : Partners l k i := .inr hm
  have hik := hm.lt
  intro m n
  rw [JumpTable.getElem?_link (hik.trans hk) hk]
  split_ifs with hmk hmi
  · subst hmk
    simp only [Option.join_some, Option.some.injEq]
    refine ⟨?_, fun hp => hpair.unique hp.1⟩
    rintro rfl
    exact ⟨hpair, by omega, by omega⟩
  · subst hmi
    simp only [Option.join_some, Option.some.injEq]
    refine ⟨?_, fun hp => hpair.symm.unique hp.1⟩
    rintro rfl
    exact ⟨hpair.symm, by omega, by omega⟩
  · rw [h]
    refine and_congr_right fun hp => ⟨fun hlt => by omega, fun hlt => ?_⟩
    -- the partner of `k` is `i`
    have hn : n ≠ k := by
      rintro rfl
      exact hmi (hp.symm.unique hpair)
    omega

end Links

/-! ### Building a table -/

namespace JumpTable

section Building

variable {k : Nat} {pending : List Nat} {t : Array (Option Nat)} {ins : Instruction}
  {l rest : List Instruction}

theorem build_of_open (h : ins.opcode = .beginLoop) :
    build k pending t (ins :: rest) = build (k + 1) (k :: pending) t rest := by
  simp only [build, h]

theorem build_of_close (h : ins.opcode = .endLoop) :
    build k pending t (ins :: rest) =
      match pending with
      | [] => none
      | i :: pending => build (k + 1) pending (link t i k) rest := by
  cases pending with
  | nil | cons => simp only [build, h]

theorem build_of_ne (hopen : ins.opcode ≠ .beginLoop) (hclose : ins.opcode ≠ .endLoop) :
    build k pending t (ins :: rest) = build (k + 1) pending t rest := by
  cases hop : ins.opcode with
  | beginLoop => exact absurd hop hopen
  | endLoop => exact absurd hop hclose
  | _ => simp only [build, hop]

/-- **What the pass builds.** The instructions from `k` on are left. It fails where the depth falls below
zero; else it links all pairs. -/
theorem build_cases {stack : List (Nat × Instruction)} (hk : k ≤ l.length) (hrest : l.drop k = rest)
    (h : Pends l k stack) (hlinks : Links l k t) (hsize : t.size = l.length) :
    (build k (stack.map Prod.fst) t rest = none ∧ ∃ m ≤ l.length, depthAt l m < 0) ∨
      ∃ t', build k (stack.map Prod.fst) t rest = some t' ∧ Links l l.length t' ∧
        ∀ m ≤ l.length, 0 ≤ depthAt l m := by
  induction rest generalizing k stack t with
  | nil =>
    obtain rfl : k = l.length := le_antisymm hk (List.drop_eq_nil_iff.1 hrest)
    exact .inr ⟨t, rfl, hlinks, h.nonneg⟩
  | cons ins rest ih =>
    obtain ⟨hins, hnext⟩ := getElem?_and_drop_of_drop_eq_cons hrest
    have hlt : k < l.length := (List.getElem?_eq_some_iff.1 hins).1
    have hop := opAt?_of_getElem? hins
    by_cases hclose : ins.opcode = .endLoop
    · rw [hclose] at hop
      rw [build_of_close hclose]
      cases stack with
      | nil =>
        cases h with
        | outside h =>
          have hdown := depthAt_succ_of_close hop
          rw [h.same, depthAt_zero] at hdown
          exact .inl ⟨rfl, k + 1, hlt, by omega⟩
      | cons e stack =>
        exact ih hlt hnext (h.closed hop) (hlinks.linked (h.matched hop) (by omega))
          (by simpa [link] using hsize)
    have hpassed := hlinks.passed (by rw [hop]; simpa using hclose)
    by_cases hopen : ins.opcode = .beginLoop
    · rw [build_of_open hopen]
      exact ih hlt hnext (h.opened hins hopen) hpassed hsize
    · rw [build_of_ne hopen hclose]
      exact ih hlt hnext (h.passed (by rw [hop]; simpa using hopen) (by rw [hop]; simpa using hclose))
        hpassed hsize

end Building

/-- What the pass over a whole program builds. -/
theorem ofProgram?_cases (p : Program) :
    (ofProgram? p = none ∧ ∃ k ≤ p.size, p.depth k < 0) ∨
      ∃ t, ofProgram? p = some t ∧
        (∀ i j, (i, j) ∈ t.entries ↔ Partners p.instructions.toList i j) ∧
        ∀ k ≤ p.size, 0 ≤ p.depth k := by
  have hbuild := build_cases (l := p.instructions.toList) (Nat.zero_le _) List.drop_zero (.start _)
    (.empty _ p.size) (by rw [Array.size_replicate, Program.length_toList_instructions])
  rw [Program.length_toList_instructions] at hbuild
  unfold ofProgram?
  rcases hbuild with ⟨hnone, hbelow⟩ | ⟨t, hsome, hlinks, hnonneg⟩
  · rw [List.map_nil] at hnone
    exact .inl ⟨by rw [hnone]; rfl, hbelow⟩
  · rw [List.map_nil] at hsome
    refine .inr ⟨⟨t⟩, by rw [hsome]; rfl, fun i j => ?_, hnonneg⟩
    rw [mem_entries_iff, hlinks, and_iff_left_iff_imp]
    intro hp
    have hi := hp.lt_length
    have hj := hp.symm.lt_length
    rw [Program.length_toList_instructions] at hi hj
    exact ⟨hi, hj⟩

/-- What is looked up in a table are its entries. -/
theorem target?_eq_some_iff {t : JumpTable} {i : Int} {j : Nat} :
    t.target? i = some j ↔ ∃ k : Nat, i = k ∧ (k, j) ∈ t.entries := by
  cases i with
  | ofNat k =>
    rw [Int.ofNat_eq_natCast]
    simp only [Nat.cast_inj, exists_eq_left', mem_entries_iff]
    rfl
  | negSucc k =>
    constructor
    · intro h
      cases h
    · rintro ⟨m, hm, -⟩
      cases hm

end JumpTable

/-! ### Programs whose brackets all have partners -/

theorem Partners.bracket {l : List Instruction} {i j : Nat} (h : Partners l i j) :
    opAt? l i = some .beginLoop ∨ opAt? l i = some .endLoop := by
  rcases h with h | h
  · exact .inl h.opens
  · exact .inr h.closes

/-- In a balanced program every bracket has a partner. -/
theorem exists_partners_of_level {l : List Instruction} (h : Level l 0 l.length) {i : Nat}
    (hi : opAt? l i = some .beginLoop ∨ opAt? l i = some .endLoop) : ∃ j, Partners l i j := by
  rcases hi with hopen | hclose
  · have hlt := lt_length_of_opAt? hopen
    obtain ⟨j, -, hj⟩ := exists_matched_of_open hopen hlt (by
      rw [h.same]
      exact h.above i (Nat.zero_le i) hlt.le)
    exact ⟨j, .inl hj⟩
  · have hlt := lt_length_of_opAt? hclose
    obtain ⟨j, -, hj⟩ := exists_matched_of_close hclose (Nat.zero_le i)
      (h.above (i + 1) (Nat.zero_le _) hlt)
    exact ⟨j, .inr hj⟩

/-- An unclosed bracket is in no pair. -/
theorem Program.Unclosed.not_partners {p : Program} {i j : Nat} {ins : Instruction}
    (h : p.Unclosed i ins) : ¬ Partners p.instructions.toList i j := by
  rintro (hm | hm)
  · exact h.not_matched hm
  · exact absurd (h.opAt?.symm.trans hm.closes) (by decide)

/-- A program passes the check if and only if the depth is never below zero and every bracket has a
partner. -/
theorem Program.check_eq_ok_iff_partners {p : Program} :
    p.check = .ok () ↔ (∀ k ≤ p.size, 0 ≤ p.depth k) ∧
      ∀ i, opAt? p.instructions.toList i = some .beginLoop ∨
        opAt? p.instructions.toList i = some .endLoop → ∃ j, Partners p.instructions.toList i j := by
  have hfinding := finding_check p
  unfold check
  generalize bracketFault? [] p.instructions.toList = found at hfinding
  cases hfinding with
  | balanced h =>
    refine iff_of_true rfl ⟨fun k hk => ?_, fun i => exists_partners_of_level h⟩
    exact h.above k (Nat.zero_le k) (by rw [length_toList_instructions]; exact hk)
  | @unopened k ins hk hclose h =>
    have hlt := (List.getElem?_eq_some_iff.1 hk).1
    rw [length_toList_instructions] at hlt
    refine iff_of_false (fun hok => nomatch hok) fun hall => ?_
    exact absurd (hall.1 (k + 1) hlt) (not_le.2 (firstUnopened_of_level hk hclose h).below)
  | @unclosed i ins hi hopen h hstays =>
    rw [length_toList_instructions] at hstays
    have hunclosed := (firstUnclosed_of_level hi hopen h hstays).unclosed
    refine iff_of_false (fun hok => nomatch hok) fun hall => ?_
    obtain ⟨j, hj⟩ := hall.2 i (.inl (by rw [opAt?_of_getElem? hi, hopen]))
    exact hunclosed.not_partners hj

/-- **The jump table is the matching of the brackets.** It cannot be built if and only if the depth falls
below zero somewhere. Otherwise it maps two indices to each other if and only if the brackets there match,
and nothing else is in it. So it is an involution without fixed points, two pairs in it lie one after the
other or one inside the other, and an opening bracket that is not closed is not in it. A program passes the
check if and only if its table can be built and has all its brackets. -/
theorem jumps_match_brackets (p : Program) :
    (JumpTable.ofProgram? p = none ↔ ∃ k ≤ p.size, p.depth k < 0) ∧
    (∀ t, JumpTable.ofProgram? p = some t →
      (∀ i j, (i, j) ∈ t.entries ↔
        Matched p.instructions.toList i j ∨ Matched p.instructions.toList j i) ∧
      (∀ (i : Int) j, t.target? i = some j ↔ ∃ k : Nat, i = k ∧ (k, j) ∈ t.entries) ∧
      (∀ i j, (i, j) ∈ t.entries → (j, i) ∈ t.entries ∧ i ≠ j) ∧
      (∀ i j i' j', (i, j) ∈ t.entries → (i', j') ∈ t.entries → i < j → i' < j' → i < i' →
        j < i' ∨ j' < j) ∧
      ∀ i ins j, p.Unclosed i ins → (i, j) ∉ t.entries) ∧
    (p.check = .ok () ↔ ∃ t, JumpTable.ofProgram? p = some t ∧
      ∀ i, (∃ j, (i, j) ∈ t.entries) ↔ opAt? p.instructions.toList i = some .beginLoop ∨
        opAt? p.instructions.toList i = some .endLoop) := by
  rcases JumpTable.ofProgram?_cases p with ⟨hnone, k, hk, hbelow⟩ | ⟨t, hsome, hentries, hnonneg⟩
  · refine ⟨iff_of_true hnone ⟨k, hk, hbelow⟩, fun t ht => ?_, iff_of_false ?_ ?_⟩
    · rw [hnone] at ht
      cases ht
    · intro hok
      exact absurd ((Program.check_eq_ok_iff_partners.1 hok).1 k hk) (not_le.2 hbelow)
    · rintro ⟨t, ht, -⟩
      rw [hnone] at ht
      cases ht
  · refine ⟨iff_of_false ?_ ?_, ?_, ?_⟩
    · rw [hsome]
      simp
    · rintro ⟨k, hk, hbelow⟩
      exact absurd (hnonneg k hk) (not_le.2 hbelow)
    · intro t' ht'
      rw [hsome] at ht'
      cases ht'
      have hforward : ∀ {i j}, (i, j) ∈ t.entries → i < j → Matched p.instructions.toList i j := by
        intro i j hij hlt
        rcases (hentries i j).1 hij with h | h
        · exact h
        · exact absurd h.lt (by omega)
      refine ⟨hentries, fun _ _ => JumpTable.target?_eq_some_iff, ?_, ?_, ?_⟩
      · intro i j hij
        have hp := (hentries i j).1 hij
        exact ⟨(hentries j i).2 hp.symm, hp.ne⟩
      · intro i j i' j' hij hij' hlt hlt' hii'
        exact (hforward hij hlt).nested (hforward hij' hlt') hii'
      · intro i ins j hunclosed hij
        exact hunclosed.not_partners ((hentries i j).1 hij)
    · rw [Program.check_eq_ok_iff_partners]
      constructor
      · rintro ⟨-, hall⟩
        refine ⟨t, hsome, fun i => ⟨?_, fun hi => ?_⟩⟩
        · rintro ⟨j, hij⟩
          exact ((hentries i j).1 hij).bracket
        · obtain ⟨j, hj⟩ := hall i hi
          exact ⟨j, (hentries i j).2 hj⟩
      · rintro ⟨t', ht', hkeys⟩
        refine ⟨hnonneg, fun i hi => ?_⟩
        rw [hsome] at ht'
        cases ht'
        obtain ⟨j, hij⟩ := (hkeys i).2 hi
        exact ⟨j, (hentries i j).1 hij⟩

/-- The first bracket of `[[+]-` is not closed. The table is built, and has the other two. -/
theorem jumps_match_brackets_unclosed :
    ∃ t, JumpTable.ofProgram? (.ofText none "[[+]-") = some t ∧ t.entries = [(1, 3), (3, 1)] ∧
      Matched (Program.ofText none "[[+]-").instructions.toList 1 3 ∧
      (Program.ofText none "[[+]-").check ≠ .ok () := by
  obtain ⟨-, htable, hcheck⟩ := jumps_match_brackets (.ofText none "[[+]-")
  refine ⟨⟨#[none, some 3, none, some 1, none]⟩, by decide, by decide, ?_, ?_⟩
  · obtain ⟨hentries, -⟩ := htable ⟨#[none, some 3, none, some 1, none]⟩ (by decide)
    rcases (hentries 1 3).1 (by decide) with h | h
    · exact h
    · exact absurd h.lt (by decide)
  · intro hok
    obtain ⟨t, ht, hkeys⟩ := hcheck.1 hok
    obtain rfl : t = ⟨#[none, some 3, none, some 1, none]⟩ :=
      Option.some.inj (ht.symm.trans (by decide))
    obtain ⟨j, hj⟩ := (hkeys 0).2 (by decide)
    have hkey : ∀ e ∈ (⟨#[none, some 3, none, some 1, none]⟩ : JumpTable).entries, e.1 ≠ 0 := by
      decide
    exact hkey _ hj rfl

end TapeMachine
