import Mathlib
import TapeMachine.Program
import TapeMachine.Text.Split

/-!
# Where instructions stand in their text

Reading a text keeps two counters, and every character moves one of them. A text can also be cut into
its lines. Here the two views are tied together: an instruction that was read stands in the text at its
row and column, and whatever command stands in the text was read (`mem_parse_iff`). Instructions are
found in the order of their places (`pairwise_precedes_parse`), and their commands are those of the text
(`map_opcode_parse`). A text put together from two others at a line feed is read as these are, the second
one further down (`parse_append_newline`). `parse_exact` collects what reading a text means.
-/

namespace TapeMachine

/-! ### Lines -/

namespace Text

/-- The character of a text in a row and a column, both counted from one. -/
def charAt? (text : List Char) : (row col : Nat) → Option Char
  | row + 1, col + 1 => (pieces '\n' text)[row]?.bind fun chars => chars[col]?
  | _, _ => none

theorem exists_pieces_eq_cons (separator : Char) (cs : List Char) :
    ∃ p ps, pieces separator cs = p :: ps := by
  cases cs with
  | nil => exact ⟨[], [], rfl⟩
  | cons c cs =>
    unfold pieces
    split
    · exact ⟨_, _, rfl⟩
    · split
      · exact ⟨_, _, rfl⟩
      · exact ⟨_, _, rfl⟩

theorem pieces_cons_self (c : Char) (cs : List Char) :
    pieces c (c :: cs) = [] :: pieces c cs := by
  rw [pieces, if_pos rfl]

theorem pieces_cons_of_ne {separator c : Char} {cs p : List Char} {ps : List (List Char)}
    (h : c ≠ separator) (hp : pieces separator cs = p :: ps) :
    pieces separator (c :: cs) = (c :: p) :: ps := by
  rw [pieces, if_neg h, hp]

end Text

theorem Text.pieces_eq_splitOn (separator : Char) (cs : List Char) :
    pieces separator cs = cs.splitOn separator := by
  induction cs with
  | nil => rfl
  | cons c cs ih =>
    obtain ⟨p, ps, hp⟩ := exists_pieces_eq_cons separator cs
    rw [List.splitOn, List.splitOnP_cons_eq_if_modifyHead, ← List.splitOn, ← ih]
    by_cases hc : c = separator
    · rw [hc, pieces_cons_self, if_pos (beq_self_eq_true separator)]
    · rw [pieces_cons_of_ne hc hp, hp, if_neg (by simpa using hc), List.modifyHead_cons]

/-- What stands in a row and a column: a line of the split text, and a character of that line. -/
theorem Text.charAt?_eq_some_iff {text : List Char} {row col : Nat} {c : Char} :
    charAt? text row col = some c ↔ 1 ≤ row ∧ 1 ≤ col ∧
      ∃ chars, (text.splitOn '\n')[row - 1]? = some chars ∧ chars[col - 1]? = some c := by
  cases row with
  | zero => simp [charAt?]
  | succ row =>
    cases col with
    | zero => simp [charAt?]
    | succ col => simp [charAt?, pieces_eq_splitOn, Option.bind_eq_some_iff]

theorem Opcode.ofChar?_eq_some_iff {c : Char} {op : Opcode} :
    ofChar? c = some op ↔ c = op.symbol := by
  constructor
  · intro h
    unfold ofChar? at h
    split at h
    all_goals first | (cases h; rfl) | cases h
  · rintro rfl
    exact ofChar?_symbol op

/-- One instruction stands before another in their text. -/
def Instruction.Precedes (i j : Instruction) : Prop := i.row < j.row ∨ i.row = j.row ∧ i.col < j.col

theorem Instruction.Precedes.ne {i j : Instruction} (h : i.Precedes j) : i ≠ j := by
  rintro rfl
  rcases h with h | ⟨-, h⟩ <;> exact absurd h (Nat.lt_irrefl _)

/-- The instruction some rows further down. -/
def Instruction.lowered (n : Nat) (i : Instruction) : Instruction := { i with row := i.row + n }

/-! ### Reading -/

namespace Program

/-- The instructions of a text whose first character has the given row and column. -/
def readFrom : (row col : Nat) → List Char → List Instruction
  | _, _, [] => []
  | row, col, c :: cs =>
    if c = '\n' then readFrom (row + 1) 1 cs
    else ((Opcode.ofChar? c).map fun op => ⟨row, col, op⟩).toList ++ readFrom row (col + 1) cs

/-- Feeding a text finds what stands in it, from the place reached so far. -/
theorem toList_found_foldl (cs : List Char) (s : Scan) :
    (cs.foldl Scan.feed s).found.toList = s.found.toList ++ readFrom s.row s.col cs := by
  induction cs generalizing s with
  | nil => simp [readFrom]
  | cons c cs ih =>
    rw [List.foldl_cons, ih, readFrom, Scan.feed]
    by_cases hc : c = '\n'
    · simp only [hc, if_true]
    · rw [if_neg hc, if_neg hc]
      cases Opcode.ofChar? c <;> simp

theorem toList_parse (text : List Char) : (parse text).toList = readFrom 1 1 text := by
  rw [parse, toList_found_foldl]
  rfl

/-- What was read stands in one of the lines. In the first of them columns count on from where it was
entered. -/
theorem mem_readFrom_iff {i : Instruction} {row col : Nat} {cs : List Char} :
    i ∈ readFrom row col cs ↔
      ∃ k j chars, (Text.pieces '\n' cs)[k]? = some chars ∧ chars[j]? = some i.opcode.symbol ∧
        i.row = row + k ∧ i.col = (if k = 0 then col else 1) + j := by
  induction cs generalizing row col with
  | nil =>
    simp only [readFrom, List.not_mem_nil, false_iff]
    rintro ⟨k, j, chars, hk, hj, -⟩
    cases k with
    | zero =>
      cases hk
      cases hj
    | succ k => cases hk
  | cons c cs ih =>
    by_cases hc : c = '\n'
    · subst hc
      rw [readFrom, if_pos rfl, ih, Text.pieces_cons_self]
      constructor
      · rintro ⟨k, j, chars, hk, hj, hrow, hcol⟩
        refine ⟨k + 1, j, chars, hk, hj, by omega, ?_⟩
        rw [hcol, if_neg (Nat.succ_ne_zero k), ite_self]
      · rintro ⟨k, j, chars, hk, hj, hrow, hcol⟩
        cases k with
        | zero =>
          cases hk
          cases hj
        | succ k =>
          refine ⟨k, j, chars, hk, hj, by omega, ?_⟩
          rw [hcol, if_neg (Nat.succ_ne_zero k), ite_self]
    · obtain ⟨p, ps, hp⟩ := Text.exists_pieces_eq_cons '\n' cs
      rw [readFrom, if_neg hc, List.mem_append, ih, hp, Text.pieces_cons_of_ne hc hp]
      constructor
      · rintro (hi | ⟨k, j, chars, hk, hj, hrow, hcol⟩)
        · -- the character itself
          obtain ⟨op, hop, rfl⟩ := Option.map_eq_some_iff.1 (Option.mem_toList.1 hi)
          refine ⟨0, 0, c :: p, rfl, ?_, rfl, rfl⟩
          rw [Opcode.ofChar?_eq_some_iff.1 hop]
          rfl
        · cases k with
          | zero =>
            cases hk
            exact ⟨0, j + 1, c :: p, rfl, hj, hrow, by simp at hcol ⊢; omega⟩
          | succ k => exact ⟨k + 1, j, chars, hk, hj, hrow, hcol⟩
      · rintro ⟨k, j, chars, hk, hj, hrow, hcol⟩
        cases k with
        | succ k => exact .inr ⟨k + 1, j, chars, hk, hj, hrow, hcol⟩
        | zero =>
          cases hk
          cases j with
          | zero =>
            left
            have hop : Opcode.ofChar? c = some i.opcode :=
              Opcode.ofChar?_eq_some_iff.2 (Option.some.inj hj)
            rw [hop, Option.mem_toList]
            obtain ⟨r, l, op⟩ := i
            simp at hrow hcol ⊢
            exact ⟨hrow.symm, hcol.symm⟩
          | succ j => exact .inr ⟨0, j, p, rfl, hj, hrow, by simp at hcol ⊢; omega⟩

/-- **The instructions of a text are the commands that stand in it**, each with its row and column. -/
theorem mem_parse_iff {i : Instruction} {text : List Char} :
    i ∈ parse text ↔ Text.charAt? text i.row i.col = some i.opcode.symbol := by
  obtain ⟨row, col, op⟩ := i
  rw [← Array.mem_toList_iff, toList_parse, mem_readFrom_iff]
  constructor
  · rintro ⟨k, j, chars, hk, hj, hrow, hcol⟩
    simp only [ite_self] at hrow hcol
    rw [hrow, hcol, Nat.add_comm 1 k, Nat.add_comm 1 j, Text.charAt?, hk]
    exact hj
  · intro h
    cases row with
    | zero => cases h
    | succ row =>
      cases col with
      | zero => cases h
      | succ col =>
        obtain ⟨chars, hk, hj⟩ := Option.bind_eq_some_iff.1 h
        exact ⟨row, col, chars, hk, hj, Nat.add_comm row 1, by rw [ite_self]; exact Nat.add_comm col 1⟩

theorem map_opcode_readFrom (row col : Nat) (cs : List Char) :
    (readFrom row col cs).map (·.opcode) = cs.filterMap Opcode.ofChar? := by
  induction cs generalizing row col with
  | nil => rfl
  | cons c cs ih =>
    rw [readFrom, List.filterMap_cons]
    by_cases hc : c = '\n'
    · subst hc
      exact ih (row + 1) 1
    · rw [if_neg hc, List.map_append, ih]
      cases Opcode.ofChar? c <;> rfl

theorem map_opcode_parse (text : List Char) :
    (parse text).toList.map (·.opcode) = text.filterMap Opcode.ofChar? := by
  rw [toList_parse, map_opcode_readFrom]

theorem from_of_mem_readFrom {i : Instruction} {row col : Nat} {cs : List Char}
    (h : i ∈ readFrom row col cs) : row < i.row ∨ row = i.row ∧ col ≤ i.col := by
  obtain ⟨k, j, -, -, -, hrow, hcol⟩ := mem_readFrom_iff.1 h
  cases k with
  | zero => exact .inr ⟨hrow.symm, by simp at hcol; omega⟩
  | succ k => exact .inl (by omega)

theorem pairwise_precedes_readFrom (row col : Nat) (cs : List Char) :
    (readFrom row col cs).Pairwise Instruction.Precedes := by
  induction cs generalizing row col with
  | nil => exact .nil
  | cons c cs ih =>
    rw [readFrom]
    split
    · exact ih (row + 1) 1
    · cases Opcode.ofChar? c with
      | none => exact ih row (col + 1)
      | some op =>
        refine List.Pairwise.cons (fun i hi => ?_) (ih row (col + 1))
        rcases from_of_mem_readFrom hi with hrow | ⟨hrow, hcol⟩
        · exact .inl hrow
        · exact .inr ⟨hrow, hcol⟩

/-- **Instructions are found in the order of their places.** -/
theorem pairwise_precedes_parse (text : List Char) :
    (parse text).toList.Pairwise Instruction.Precedes := by
  rw [toList_parse]
  exact pairwise_precedes_readFrom 1 1 text

/-! ### Texts put together -/

/-- What is read some rows further down stands some rows further down. -/
theorem readFrom_add_row (n row col : Nat) (cs : List Char) :
    readFrom (row + n) col cs = (readFrom row col cs).map (Instruction.lowered n) := by
  induction cs generalizing row col with
  | nil => rfl
  | cons c cs ih =>
    rw [readFrom, readFrom]
    by_cases hc : c = '\n'
    · rw [if_pos hc, if_pos hc, Nat.add_right_comm, ih]
    · rw [if_neg hc, if_neg hc, List.map_append, ih]
      cases Opcode.ofChar? c <;> rfl

/-- What follows a line feed is read from the first column of the row after those before it. -/
theorem readFrom_append_newline (row col : Nat) (cs ds : List Char) :
    readFrom row col (cs ++ '\n' :: ds) =
      readFrom row col cs ++ readFrom (row + (1 + cs.count '\n')) 1 ds := by
  induction cs generalizing row col with
  | nil => rfl
  | cons c cs ih =>
    rw [List.cons_append, readFrom, readFrom]
    by_cases hc : c = '\n'
    · rw [if_pos hc, if_pos hc, ih, hc, List.count_cons_self]
      congr 2
      omega
    · rw [if_neg hc, if_neg hc, ih, List.count_cons_of_ne hc, List.append_assoc]

/-- Two texts joined by a line feed are read one after the other. -/
theorem parse_append_newline (cs ds : List Char) :
    parse (cs ++ '\n' :: ds) =
      parse cs ++ (parse ds).map (Instruction.lowered (1 + cs.count '\n')) := by
  apply Array.toList_inj.1
  rw [Array.toList_append, Array.toList_map, toList_parse, toList_parse, toList_parse,
    readFrom_append_newline, readFrom_add_row]

/-- **Reading a text is exact.** An instruction is read if and only if its row is a line of the text, its
column a character of that line, and this character its command. None is read twice, and they are read in
the order of their rows, and within a row of their columns. And the text of two others with a line feed
between them is read as the first and then the second, which is as many rows further down as the first
has. -/
theorem parse_exact :
    (∀ (text : List Char) (row col : Nat) (op : Opcode),
      ⟨row, col, op⟩ ∈ parse text ↔ 1 ≤ row ∧ 1 ≤ col ∧
        ∃ chars, (text.splitOn '\n')[row - 1]? = some chars ∧ chars[col - 1]? = some op.symbol) ∧
    (∀ text : List Char, (parse text).toList.Nodup ∧
      (parse text).toList.Pairwise fun i j => i.row < j.row ∨ i.row = j.row ∧ i.col < j.col) ∧
    ∀ cs ds : List Char, parse (cs ++ '\n' :: ds) =
      parse cs ++ (parse ds).map fun i => { i with row := i.row + (1 + cs.count '\n') } := by
  refine ⟨fun text row col op => ?_, fun text => ?_, parse_append_newline⟩
  · rw [mem_parse_iff, Text.charAt?_eq_some_iff]
  · have horder := pairwise_precedes_parse text
    exact ⟨horder.imp Instruction.Precedes.ne, horder⟩

example : parse "é+\n\r\n >,".toList =
    #[⟨1, 2, .increment⟩, ⟨3, 2, .moveRight⟩, ⟨3, 3, .input⟩] := by decide

end Program

end TapeMachine
