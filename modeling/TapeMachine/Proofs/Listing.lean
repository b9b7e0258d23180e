import Mathlib
import TapeMachine.Program

/-!
# A listing tells its program

A listing has one line for each instruction, and every line shows the label of the program. The label may
be any text, with colons, brackets and line feeds in it, and may even look like lines of a listing. So the
lines cannot be found by looking for line feeds. But each of them says itself where it ends: the label is
known, a number ends at the first character that is no digit, and no description begins another.

* `eq_of_toDigits_append`, `Opcode.eq_of_description_append`: where a number ends, and where a description
  ends.
* `Program.eq_of_line_append`: so a text begins with one line at most, and the rest is known with it.
* `Program.eq_of_ledLines`: hence a text is made of lines in one way, by induction on them.
* `Program.listing_tells_instructions`: programs with the same source and the same listing have the same
  instructions.
-/

namespace TapeMachine

/-! ### Parts of a line -/

/-- A number ends at the first character that is no digit. -/
theorem eq_of_toDigits_append {m n : Nat} {c : Char} (hc : c.isDigit = false) {r r' : List Char}
    (h : Nat.toDigits 10 m ++ c :: r = Nat.toDigits 10 n ++ c :: r') : m = n ∧ r = r' := by
  have hdigits : ∀ (k : Nat) (t : List Char),
      (Nat.toDigits 10 k ++ c :: t).takeWhile Char.isDigit = Nat.toDigits 10 k := by
    intro k t
    rw [List.takeWhile_append_of_pos fun a ha => Nat.isDigit_of_mem_toDigits (by decide) (by decide) ha,
      List.takeWhile_cons_of_neg (by simp [hc]), List.append_nil]
  have hsame : Nat.toDigits 10 m = Nat.toDigits 10 n := by rw [← hdigits m r, h, hdigits]
  refine ⟨Nat.repr_injective (String.toList_inj.1 ?_), ?_⟩
  · rw [Nat.toList_repr, Nat.toList_repr, hsame]
  · rw [hsame] at h
    exact (List.cons.inj (List.append_cancel_left h)).2

namespace Opcode

theorem eq_of_prefix_description {a b : Opcode} (h : a.description.toList <+: b.description.toList) :
    a = b := by
  cases a <;> cases b <;> first | rfl | simp [description] at h

theorem eq_of_description_append {a b : Opcode} {r r' : List Char}
    (h : a.description.toList ++ r = b.description.toList ++ r') : a = b ∧ r = r' := by
  obtain rfl : a = b := by
    have ha : a.description.toList <+: b.description.toList ++ r' := ⟨r, h⟩
    rcases List.prefix_or_prefix_of_prefix ha (List.prefix_append _ r') with hab | hba
    · exact eq_of_prefix_description hab
    · exact (eq_of_prefix_description hba).symm
  exact ⟨rfl, List.append_cancel_left h⟩

end Opcode

namespace Program

/-! ### Lines -/

theorem toList_line (label : String) (i : Instruction) :
    (line label i).toList =
      '[' :: label.toList ++ ':' :: (Nat.toDigits 10 i.row ++ ':' :: (Nat.toDigits 10 i.col ++
        ']' :: ' ' :: i.opcode.description.toList)) := by
  simp [line]

/-- **A text begins with one line at most**, whatever follows, if the label is known. -/
theorem eq_of_line_append {label : String} {i j : Instruction} {r r' : List Char}
    (h : (line label i).toList ++ r = (line label j).toList ++ r') : i = j ∧ r = r' := by
  obtain ⟨row, col, op⟩ := i
  obtain ⟨row', col', op'⟩ := j
  -- the label is the same in both lines, so the text goes on with the row
  simp only [toList_line, List.append_assoc, List.cons_append, List.cons.injEq, true_and,
    List.append_cancel_left_eq] at h
  obtain ⟨rfl, hcol⟩ := eq_of_toDigits_append (by decide) h
  obtain ⟨rfl, hclose⟩ := eq_of_toDigits_append (by decide) hcol
  obtain ⟨rfl, hrest⟩ := Opcode.eq_of_description_append (List.cons.inj hclose).2
  exact ⟨rfl, hrest⟩

/-- Lines of which each follows a line feed. -/
def ledLines (label : String) (l : List Instruction) : List Char :=
  l.flatMap fun i => '\n' :: (line label i).toList

theorem eq_of_ledLines {label : String} {l l' : List Instruction}
    (h : ledLines label l = ledLines label l') : l = l' := by
  induction l generalizing l' with
  | nil =>
    cases l' with
    | nil => rfl
    | cons j l' => cases h
  | cons i l ih =>
    cases l' with
    | nil => cases h
    | cons j l' =>
      simp only [ledLines, List.flatMap_cons, List.cons_append] at h
      obtain ⟨rfl, hrest⟩ := eq_of_line_append (List.cons.inj h).2
      rw [ih hrest]

theorem toList_intercalate_cons (label : String) (i : Instruction) (l : List Instruction) :
    ("\n".intercalate ((i :: l).map (line label))).toList =
      (line label i).toList ++ ledLines label l := by
  induction l generalizing i with
  | nil => simp [ledLines]
  | cons j l ih =>
    rw [List.map_cons, String.intercalate_cons_of_ne_nil (by simp), String.toList_append, ih j]
    simp [ledLines]

/-- **A listing tells its program.** Two programs with the same source, which may be any text, and with the
same listing have the same instructions: the same commands in the same order, at the same rows and
columns. -/
theorem listing_tells_instructions (p q : Program) (hsource : p.source = q.source)
    (h : p.listing = q.listing) : p.instructions = q.instructions := by
  have hlabel : p.label = q.label := by rw [label, label, hsource]
  rw [← String.toList_inj, listing, listing, hlabel] at h
  rw [← Array.toList_inj]
  cases hp : p.instructions.toList with
  | nil =>
    cases hq : q.instructions.toList with
    | nil => rfl
    | cons j l' =>
      rw [hp, hq, toList_intercalate_cons, toList_line] at h
      cases h
  | cons i l =>
    cases hq : q.instructions.toList with
    | nil =>
      rw [hp, hq, toList_intercalate_cons, toList_line] at h
      cases h
    | cons j l' =>
      rw [hp, hq, toList_intercalate_cons, toList_intercalate_cons] at h
      obtain ⟨rfl, hrest⟩ := eq_of_line_append h
      rw [eq_of_ledLines hrest]

/-- The source is itself a listing of two lines, without its first bracket. The program that was read from
a text is told from its listing. -/
theorem listing_tells_instructions_misleading :
    let source := "p:1:1] Start looping\n[p:12:3] End looping\n[p"
    let p := ofText (some source) "+\n 2 ,"
    let q : Program := ⟨some source, #[⟨1, 1, .increment⟩, ⟨2, 4, .input⟩]⟩
    p.source = q.source ∧ p.listing = q.listing ∧ p.instructions = q.instructions := by
  intro source p q
  have hlisting : p.listing = q.listing := by decide +kernel
  exact ⟨rfl, hlisting, listing_tells_instructions p q rfl hlisting⟩

end Program

end TapeMachine
