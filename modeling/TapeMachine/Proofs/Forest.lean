import TapeMachine.Machine

/-!
# Forests

A program whose brackets match is a forest: a row of commands and loops, where a loop holds a
forest again. This module reads programs as forests and says what the bracket check and the jump
table mean for them:

* a program passes the check if and only if it spells a forest (`check_eq_ok_iff`), and it spells at
  most one (`flatten_injective`);
* in the code of such a program every bracket of the forest is mapped to its partner
  (`placed_of_flatten`), and so every bracket has a target inside the program
  (`Placed.exists_target`).

Positions are kept: a forest has the row and column of each of its commands and brackets, so that it
determines the instructions and not only their commands.
-/

namespace TapeMachine

/-- A checked program has code. -/
theorem Code.exists_ofProgram {p : Program} (h : p.check = .ok ()) :
    ∃ code, Code.ofProgram p = .ok code ∧ code.program = p :=
  ⟨⟨p, (JumpTable.ofProgram? p).getD ⟨#[]⟩⟩, by rw [ofProgram, h], rfl⟩

/-- A command that is no bracket. -/
inductive Command where
  | moveLeft
  | moveRight
  | increment
  | decrement
  | input
  | output
  deriving DecidableEq, Repr

/-- The command among all commands. -/
def Command.opcode : Command → Opcode
  | .moveLeft => .moveLeft
  | .moveRight => .moveRight
  | .increment => .increment
  | .decrement => .decrement
  | .input => .input
  | .output => .output

theorem Command.opcode_injective {c d : Command} (h : c.opcode = d.opcode) : c = d := by
  cases c <;> cases d <;> first | rfl | cases h

/-- A command is a bracket or one of the others. -/
theorem Opcode.bracket_or_command (op : Opcode) :
    op = .beginLoop ∨ op = .endLoop ∨ ∃ c : Command, c.opcode = op := by
  cases op with
  | moveLeft => exact .inr (.inr ⟨.moveLeft, rfl⟩)
  | moveRight => exact .inr (.inr ⟨.moveRight, rfl⟩)
  | increment => exact .inr (.inr ⟨.increment, rfl⟩)
  | decrement => exact .inr (.inr ⟨.decrement, rfl⟩)
  | input => exact .inr (.inr ⟨.input, rfl⟩)
  | output => exact .inr (.inr ⟨.output, rfl⟩)
  | beginLoop => exact .inl rfl
  | endLoop => exact .inr (.inl rfl)

/-- Where a command was read. -/
structure Position where
  row : Nat
  col : Nat
  deriving DecidableEq, Repr

/-- The instruction that has a command at a position. -/
def Position.holding (p : Position) (op : Opcode) : Instruction := ⟨p.row, p.col, op⟩

@[simp] theorem Position.opcode_holding (p : Position) (op : Opcode) :
    (p.holding op).opcode = op := rfl

theorem Position.holding_inj {p q : Position} {a b : Opcode} :
    p.holding a = q.holding b ↔ p = q ∧ a = b := by
  cases p
  cases q
  simp [holding, and_assoc]

/-- A row of commands and loops. -/
inductive Forest where
  /-- The end of the row. -/
  | nil
  /-- A command, and the rest of the row. -/
  | command (pos : Position) (c : Command) (rest : Forest)
  /-- A loop with its two brackets, and the rest of the row. -/
  | loop (start : Position) (body : Forest) (stop : Position) (rest : Forest)
  deriving DecidableEq, Repr

namespace Forest

/-- The instructions of a forest, in order. -/
def flatten : Forest → List Instruction
  | .nil => []
  | .command p c rest => p.holding c.opcode :: rest.flatten
  | .loop a body b rest =>
    a.holding .beginLoop :: (body.flatten ++ b.holding .endLoop :: rest.flatten)

/-- The number of instructions. -/
def size : Forest → Nat
  | .nil => 0
  | .command _ _ rest => rest.size + 1
  | .loop _ body _ rest => body.size + rest.size + 2

@[simp] theorem length_flatten (f : Forest) : f.flatten.length = f.size := by
  induction f with
  | nil => rfl
  | command p c rest ih => simp [flatten, size, ih]
  | loop a body b rest ihb ihr =>
    simp only [flatten, size, List.length_cons, List.length_append, ihb, ihr]
    omega

/-! ### A program spells at most one forest -/

/-- What may stand after a row: nothing, or the bracket that closes the loop around it. -/
def Closes (r : List Instruction) : Prop := ∀ i ∈ r.head?, i.opcode = .endLoop

theorem closes_nil : Closes [] := by
  intro i hi
  cases hi

theorem closes_cons (b : Position) (r : List Instruction) : Closes (b.holding .endLoop :: r) := by
  intro i hi
  cases hi
  rfl

/-- An instruction other than a closing bracket does not follow a row. -/
theorem not_closes_cons {p : Position} {op : Opcode} {r : List Instruction} (h : op ≠ .endLoop) :
    ¬ Closes (p.holding op :: r) := fun hc => h (hc _ rfl)

theorem Command.opcode_ne_endLoop (c : Command) : c.opcode ≠ .endLoop := by
  cases c <;> decide

theorem Command.opcode_ne_beginLoop (c : Command) : c.opcode ≠ .beginLoop := by
  cases c <;> decide

/-- A row and what follows it are determined by their instructions. -/
theorem flatten_append_inj {f g : Forest} {r r' : List Instruction} (hr : Closes r)
    (hr' : Closes r') (h : f.flatten ++ r = g.flatten ++ r') : f = g ∧ r = r' := by
  induction f generalizing g r r' with
  | nil =>
    -- the other row is empty too: its first instruction would close nothing
    cases g with
    | nil => exact ⟨rfl, h⟩
    | command q d rest =>
      simp only [flatten, List.nil_append, List.cons_append] at h
      exact absurd (h ▸ hr) (not_closes_cons (Command.opcode_ne_endLoop d))
    | loop a body b rest =>
      simp only [flatten, List.nil_append, List.cons_append] at h
      exact absurd (h ▸ hr) (not_closes_cons (by decide))
  | command p c rest ih =>
    cases g with
    | nil =>
      simp only [flatten, List.nil_append, List.cons_append] at h
      exact absurd (h ▸ hr') (not_closes_cons (Command.opcode_ne_endLoop c))
    | command q d rest' =>
      simp only [flatten, List.cons_append, List.cons.injEq, Position.holding_inj] at h
      obtain ⟨⟨rfl, hcd⟩, h⟩ := h
      obtain ⟨rfl, hrest⟩ := ih hr hr' h
      exact ⟨by rw [Command.opcode_injective hcd], hrest⟩
    | loop a body b rest' =>
      simp only [flatten, List.cons_append, List.cons.injEq, Position.holding_inj] at h
      exact absurd h.1.2 (Command.opcode_ne_beginLoop c)
  | loop a body b rest ihb ihr =>
    cases g with
    | nil =>
      simp only [flatten, List.nil_append, List.cons_append] at h
      exact absurd (h ▸ hr') (not_closes_cons (by decide))
    | command q d rest' =>
      simp only [flatten, List.cons_append, List.cons.injEq, Position.holding_inj] at h
      exact absurd h.1.2.symm (Command.opcode_ne_beginLoop d)
    | loop a' body' b' rest' =>
      simp only [flatten, List.cons_append, List.append_assoc, List.cons.injEq,
        Position.holding_inj] at h
      obtain ⟨⟨rfl, -⟩, h⟩ := h
      obtain ⟨rfl, hb⟩ := ihb (closes_cons b _) (closes_cons b' _) h
      simp only [List.cons.injEq, Position.holding_inj] at hb
      obtain ⟨⟨rfl, -⟩, hrow⟩ := hb
      obtain ⟨rfl, hrest⟩ := ihr hr hr' hrow
      exact ⟨rfl, hrest⟩

/-- Two forests with the same instructions are the same. -/
theorem flatten_injective {f g : Forest} (h : f.flatten = g.flatten) : f = g := by
  refine (flatten_append_inj closes_nil closes_nil ?_).1
  simpa using h

/-! ### A checked program spells a forest -/

theorem bracketFault?_command (pending : List Instruction) (p : Position) (c : Command)
    (l : List Instruction) :
    Program.bracketFault? pending (p.holding c.opcode :: l) = Program.bracketFault? pending l := by
  cases c <;> rfl

/-- The check passes over a forest and leaves the open brackets as they were. -/
theorem bracketFault?_flatten (f : Forest) (pending l : List Instruction) :
    Program.bracketFault? pending (f.flatten ++ l) = Program.bracketFault? pending l := by
  induction f generalizing pending l with
  | nil => rfl
  | command p c rest ih =>
    rw [flatten, List.cons_append, bracketFault?_command, ih]
  | loop a body b rest ihb ihr =>
    calc Program.bracketFault? pending ((loop a body b rest).flatten ++ l)
      _ = Program.bracketFault? (a.holding .beginLoop :: pending)
            (body.flatten ++ b.holding .endLoop :: (rest.flatten ++ l)) := by
          rw [flatten, List.cons_append, List.append_assoc, List.cons_append]
          rfl
      _ = Program.bracketFault? pending (rest.flatten ++ l) := by
          rw [ihb]
          rfl
      _ = Program.bracketFault? pending l := ihr pending l

/-- What stands after a row inside loops: for each loop, from the inside out, its closing bracket and
the row after it. -/
def closing : List (Position × Forest) → List Instruction
  | [] => []
  | (b, f) :: rows => b.holding .endLoop :: (f.flatten ++ closing rows)

/-- Instructions that pass the check are a row, and the ends of the loops that are open. -/
theorem exists_flatten_append_closing (l pending : List Instruction)
    (h : Program.bracketFault? pending l = none) :
    ∃ f rows, rows.length = pending.length ∧ l = flatten f ++ closing rows := by
  induction l generalizing pending with
  | nil =>
    simp only [Program.bracketFault?, Option.map_eq_none_iff, List.getLast?_eq_none_iff] at h
    subst h
    exact ⟨.nil, [], rfl, rfl⟩
  | cons i l ih =>
    obtain ⟨row, col, op⟩ := i
    rcases op.bracket_or_command with rfl | rfl | ⟨c, rfl⟩
    · -- the loop takes the innermost of the ends that follow
      obtain ⟨f, rows, hlen, rfl⟩ := ih (⟨row, col, .beginLoop⟩ :: pending) h
      cases rows with
      | nil => simp at hlen
      | cons e rows =>
        obtain ⟨b, g⟩ := e
        refine ⟨.loop ⟨row, col⟩ f b g, rows, by simpa using hlen, ?_⟩
        simp [flatten, closing, Position.holding]
    · cases pending with
      | nil => simp [Program.bracketFault?] at h
      | cons j pending =>
        obtain ⟨f, rows, hlen, rfl⟩ := ih pending h
        exact ⟨.nil, (⟨row, col⟩, f) :: rows, by simpa using hlen, rfl⟩
    · obtain ⟨f, rows, hlen, rfl⟩ := ih pending (by
        rwa [← bracketFault?_command pending ⟨row, col⟩ c])
      exact ⟨.command ⟨row, col⟩ c f, rows, hlen, rfl⟩

/-- The bracket check accepts exactly the programs that spell a forest. -/
theorem check_eq_ok_iff (p : Program) :
    p.check = .ok () ↔ ∃ f : Forest, f.flatten = p.instructions.toList := by
  have hcheck : p.check = .ok () ↔ Program.bracketFault? [] p.instructions.toList = none := by
    unfold Program.check
    split <;> simp_all
  rw [hcheck]
  constructor
  · intro h
    obtain ⟨f, rows, hlen, hl⟩ := exists_flatten_append_closing _ _ h
    rw [List.length_nil, List.length_eq_zero_iff] at hlen
    subst hlen
    exact ⟨f, by rw [hl, closing, List.append_nil]⟩
  · rintro ⟨f, hf⟩
    have h := bracketFault?_flatten f [] []
    rw [List.append_nil, hf] at h
    exact h

/-! ### The jump table of a forest -/

/-- The jump table after a forest that stands at index `i`. -/
def links : Forest → (i : Nat) → Array (Option Nat) → Array (Option Nat)
  | .nil, _, t => t
  | .command _ _ rest, i, t => rest.links (i + 1) t
  | .loop _ body _ rest, i, t =>
    rest.links (i + body.size + 2) (JumpTable.link (body.links (i + 1) t) i (i + body.size + 1))

theorem size_link (t : Array (Option Nat)) (i j : Nat) : (JumpTable.link t i j).size = t.size := by
  simp [JumpTable.link]

@[simp] theorem size_links (f : Forest) (i : Nat) (t : Array (Option Nat)) :
    (f.links i t).size = t.size := by
  induction f generalizing i t with
  | nil => rfl
  | command p c rest ih => rw [links, ih]
  | loop a body b rest ihb ihr => rw [links, ihr, size_link, ihb]

theorem build_command (i : Nat) (pending : List Nat) (t : Array (Option Nat)) (p : Position)
    (c : Command) (l : List Instruction) :
    JumpTable.build i pending t (p.holding c.opcode :: l) =
      JumpTable.build (i + 1) pending t l := by
  cases c <;> rfl

/-- Building the table passes over a forest and sets its links. -/
theorem build_flatten (f : Forest) (i : Nat) (pending : List Nat) (t : Array (Option Nat))
    (l : List Instruction) :
    JumpTable.build i pending t (f.flatten ++ l) =
      JumpTable.build (i + f.size) pending (f.links i t) l := by
  induction f generalizing i pending t l with
  | nil => rfl
  | command p c rest ih =>
    rw [flatten, List.cons_append, build_command, ih, size, links, Nat.add_right_comm, Nat.add_assoc]
  | loop a body b rest ihb ihr =>
    calc JumpTable.build i pending t ((loop a body b rest).flatten ++ l)
      _ = JumpTable.build (i + 1) (i :: pending) t
            (body.flatten ++ b.holding .endLoop :: (rest.flatten ++ l)) := by
          rw [flatten, List.cons_append, List.append_assoc, List.cons_append]
          rfl
      _ = JumpTable.build (i + body.size + 2) pending
            (JumpTable.link (body.links (i + 1) t) i (i + body.size + 1)) (rest.flatten ++ l) := by
          rw [ihb, Nat.add_right_comm i 1]
          rfl
      _ = JumpTable.build (i + (loop a body b rest).size) pending
            ((loop a body b rest).links i t) l := by
          have hsize : i + body.size + 2 + rest.size = i + (body.size + rest.size + 2) := by omega
          rw [ihr, links, size, hsize]

/-- A forest sets no link outside the indices it stands at. -/
theorem getElem?_links_of_outside (f : Forest) (i : Nat) (t : Array (Option Nat)) {j : Nat}
    (h : j < i ∨ i + f.size ≤ j) : (f.links i t)[j]? = t[j]? := by
  induction f generalizing i t with
  | nil => rfl
  | command p c rest ih =>
    rw [links, ih]
    rw [size] at h
    omega
  | loop a body b rest ihb ihr =>
    rw [size] at h
    rw [links, ihr _ _ (by omega), JumpTable.link, Array.getElem?_setIfInBounds_ne (by omega),
      Array.getElem?_setIfInBounds_ne (by omega), ihb _ _ (by omega)]

/-! ### Code that holds a forest -/

/-- A forest stands in the code at index `i`: its instructions are there, and the brackets of each of
its loops are mapped to each other. -/
def Placed (code : Code) : Forest → (i : Nat) → Prop
  | .nil, _ => True
  | .command p c rest, i => code.fetch? i = some (p.holding c.opcode) ∧ rest.Placed code (i + 1)
  | .loop a body b rest, i =>
    code.fetch? i = some (a.holding .beginLoop) ∧
    code.fetch? (i + body.size + 1 : Nat) = some (b.holding .endLoop) ∧
    code.jumps.target? i = some (i + body.size + 1) ∧
    code.jumps.target? (i + body.size + 1 : Nat) = some i ∧
    body.Placed code (i + 1) ∧ rest.Placed code (i + body.size + 2)

theorem fetch?_of_eq_append {code : Code} {l r : List Instruction} {ins : Instruction} {i : Nat}
    (h : code.program.instructions.toList = l ++ ins :: r) (hi : l.length = i) :
    code.fetch? i = some ins := by
  show code.program.instructions[i]? = some ins
  rw [← Array.getElem?_toList, h, List.getElem?_append_right (by omega), hi, Nat.sub_self]
  rfl

/-- Code with the instructions and the links of a forest holds the forest. `t` is the table before
the forest. -/
theorem placed_of_links {code : Code} (f : Forest) (i : Nat) (t : Array (Option Nat))
    (l r : List Instruction) (hi : l.length = i)
    (hins : code.program.instructions.toList = l ++ (f.flatten ++ r)) (ht : i + f.size ≤ t.size)
    (hjumps : ∀ j, i ≤ j → j < i + f.size → code.jumps.targets[j]? = (f.links i t)[j]?) :
    f.Placed code i := by
  induction f generalizing i t l r with
  | nil => trivial
  | command p c rest ih =>
    simp only [size, links] at ht hjumps
    simp only [flatten, List.cons_append] at hins
    refine ⟨fetch?_of_eq_append hins hi, ih (i + 1) t (l ++ [p.holding c.opcode]) r ?_ ?_ ?_ ?_⟩
    · simp [hi]
    · simp [hins]
    · omega
    · exact fun j h₁ h₂ => hjumps j (by omega) (by omega)
  | loop a body b rest ihb ihr =>
    simp only [size, links] at ht hjumps
    simp only [flatten, List.cons_append, List.append_assoc] at hins
    -- the tables after the body, and after the loop
    generalize hu : body.links (i + 1) t = u at hjumps
    generalize hv : JumpTable.link u i (i + body.size + 1) = v at hjumps
    have hsu : u.size = t.size := by rw [← hu, size_links]
    have hsv : v.size = t.size := by rw [← hv, size_link, hsu]
    have hloop : ∀ j, i ≤ j → j < i + body.size + 2 → code.jumps.targets[j]? = v[j]? := by
      intro j h₁ h₂
      rw [hjumps j h₁ (by omega), getElem?_links_of_outside _ _ _ (.inl h₂)]
    refine ⟨fetch?_of_eq_append hins hi, ?_, ?_, ?_, ?_, ?_⟩
    · refine fetch?_of_eq_append (l := l ++ a.holding .beginLoop :: body.flatten)
        (r := rest.flatten ++ r) (by simp [hins]) ?_
      simp only [List.length_append, List.length_cons, length_flatten]
      omega
    · show code.jumps.targets[i]?.join = some (i + body.size + 1)
      rw [hloop i (by omega) (by omega), ← hv, JumpTable.link,
        Array.getElem?_setIfInBounds_ne (by omega), Array.getElem?_setIfInBounds_self_of_lt (by omega)]
      rfl
    · show code.jumps.targets[i + body.size + 1]?.join = some i
      rw [hloop _ (by omega) (by omega), ← hv, JumpTable.link,
        Array.getElem?_setIfInBounds_self_of_lt (by rw [Array.size_setIfInBounds]; omega)]
      rfl
    · refine ihb (i + 1) t (l ++ [a.holding .beginLoop]) (b.holding .endLoop :: (rest.flatten ++ r))
        (by simp [hi]) (by simp [hins]) (by omega) fun j h₁ h₂ => ?_
      rw [hloop j (by omega) (by omega), ← hv, JumpTable.link,
        Array.getElem?_setIfInBounds_ne (by omega), Array.getElem?_setIfInBounds_ne (by omega), hu]
    · refine ihr (i + body.size + 2) v
        (l ++ a.holding .beginLoop :: (body.flatten ++ [b.holding .endLoop])) r ?_ (by simp [hins])
        (by omega) fun j h₁ h₂ => hjumps j (by omega) (by omega)
      simp only [List.length_append, List.length_cons, length_flatten, List.length_nil]
      omega

/-- The code of a program that spells a forest holds the forest from its start. -/
theorem placed_of_flatten {p : Program} {code : Code} {f : Forest}
    (h : Code.ofProgram p = .ok code) (hf : f.flatten = p.instructions.toList) :
    f.Placed code 0 := by
  have hcheck : p.check = .ok () := (check_eq_ok_iff p).2 ⟨f, hf⟩
  have hsize : p.size = f.size := by
    rw [← length_flatten, hf, Array.length_toList]
    rfl
  have htable : JumpTable.ofProgram? p = some ⟨f.links 0 (Array.replicate f.size none)⟩ := by
    have hbuild := build_flatten f 0 [] (Array.replicate f.size none) []
    rw [List.append_nil, hf] at hbuild
    rw [JumpTable.ofProgram?, hsize, hbuild]
    rfl
  simp only [Code.ofProgram, hcheck, htable, Option.getD_some, Except.ok.injEq] at h
  subst h
  exact placed_of_links f 0 _ [] [] rfl (by simp [hf]) (by simp) fun j _ _ => rfl

/-- There is an instruction at index `j`, and a bracket there has its partner from `lo` on and
before `hi`. -/
def PairedWithin (code : Code) (lo hi j : Nat) : Prop :=
  ∃ ins, code.fetch? j = some ins ∧
    (ins.opcode = .beginLoop ∨ ins.opcode = .endLoop →
      ∃ k, code.jumps.target? j = some k ∧ lo ≤ k ∧ k < hi)

theorem PairedWithin.mono {code : Code} {lo hi lo' hi' j : Nat} (h : PairedWithin code lo hi j)
    (hlo : lo' ≤ lo) (hhi : hi ≤ hi') : PairedWithin code lo' hi' j := by
  obtain ⟨ins, hins, htarget⟩ := h
  refine ⟨ins, hins, fun hb => ?_⟩
  obtain ⟨k, hk, hge, hlt⟩ := htarget hb
  exact ⟨k, hk, Nat.le_trans hlo hge, Nat.lt_of_lt_of_le hlt hhi⟩

/-- Every index of a forest has an instruction, and every bracket there has a target among the
indices of the forest. -/
theorem Placed.exists_target {code : Code} {f : Forest} {i : Nat} (h : f.Placed code i) {j : Nat}
    (hi : i ≤ j) (hj : j < i + f.size) : PairedWithin code i (i + f.size) j := by
  induction f generalizing i with
  | nil =>
    rw [size] at hj
    omega
  | command p c rest ih =>
    obtain ⟨hfetch, hrest⟩ := h
    rw [size] at hj ⊢
    rcases Nat.eq_or_lt_of_le hi with rfl | hlt
    · refine ⟨_, hfetch, ?_⟩
      rintro (h | h)
      · exact absurd h (Command.opcode_ne_beginLoop c)
      · exact absurd h (Command.opcode_ne_endLoop c)
    · exact (ih hrest hlt (by omega)).mono (by omega) (by omega)
  | loop a body b rest ihb ihr =>
    obtain ⟨hopen, hclose, hforth, hback, hbody, hrest⟩ := h
    rw [size] at hj ⊢
    rcases Nat.eq_or_lt_of_le hi with rfl | hlt
    · exact ⟨_, hopen, fun _ => ⟨_, hforth, by omega, by omega⟩⟩
    rcases Nat.lt_trichotomy j (i + body.size + 1) with hin | rfl | hout
    · exact (ihb hbody hlt (by omega)).mono (by omega) (by omega)
    · exact ⟨_, hclose, fun _ => ⟨_, hback, by omega, by omega⟩⟩
    · exact (ihr hrest hout (by omega)).mono (by omega) (by omega)

end Forest

end TapeMachine
