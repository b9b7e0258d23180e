import Mathlib
import TapeMachine.Proofs.Blame
import TapeMachine.Proofs.Lockstep

/-!
# Commentary and layout are inert

Two texts with the same commands are read as instructions that differ in their places only. Places are
carried along everywhere, by the instructions, through the bracket check and into every error, but
nothing is decided by them.

## The model

`SameCommands` says of two programs that they have one source and the same commands. Instructions are
`Aligned` if they have the same index in the two programs; errors and faults are `Displaced` if they
differ in this alone, that they are blamed on aligned instructions.

## What is proved

* `Program.check_displaced`, `JumpTable.ofProgram?_congr`: the bracket check blames aligned brackets, and
  the jumps are the same.
* `SameCommands.inStep`: a step does the same in both programs, with displaced faults.
* `Evaluation.run_relaid`: hence so do whole runs.
* `layout_inert`: what a report on a text tells about its layout is the line and the column of its error.
-/

namespace TapeMachine

open Snapshot

/-! ### Programs with the same commands -/

/-- The commands of a text, in order; all other characters are commentary. -/
def Text.commands (text : List Char) : List Char := text.filter fun c => (Opcode.ofChar? c).isSome

theorem Text.filterMap_commands (text : List Char) :
    (commands text).filterMap Opcode.ofChar? = text.filterMap Opcode.ofChar? := by
  rw [commands, List.filterMap_filter]
  refine List.filterMap_congr fun c _ => ?_
  cases Opcode.ofChar? c <;> rfl

namespace Program

/-- The programs have one source and the same commands. -/
structure SameCommands (p p' : Program) : Prop where
  source : p.source = p'.source
  opcodes : p.instructions.toList.map (·.opcode) = p'.instructions.toList.map (·.opcode)

/-- The instructions have one index in the two programs, and the same command. -/
structure Aligned (p p' : Program) (ins ins' : Instruction) : Prop where
  opcode : ins.opcode = ins'.opcode
  index : ∃ i : Nat, p.instructions[i]? = some ins ∧ p'.instructions[i]? = some ins'

theorem sameCommands_ofText (source : Option String) {text text' : String}
    (h : Text.commands text.toList = Text.commands text'.toList) :
    (ofText source text).SameCommands (ofText source text') := by
  refine ⟨rfl, ?_⟩
  show (parse text.toList).toList.map _ = (parse text'.toList).toList.map _
  rw [map_opcode_parse, map_opcode_parse, ← Text.filterMap_commands, h, Text.filterMap_commands]

variable {p p' : Program}

theorem SameCommands.size_eq (h : p.SameCommands p') : p.size = p'.size := by
  simpa [size] using congrArg List.length h.opcodes

/-- At every index there are aligned instructions, or none. -/
theorem SameCommands.getElem? (h : p.SameCommands p') (i : Nat) :
    Option.Rel (Aligned p p') p.instructions[i]? p'.instructions[i]? := by
  have hsize : p.instructions.size = p'.instructions.size := h.size_eq
  refine rel_of_none_iff (by simp [hsize]) fun ins ins' hi hi' => ⟨?_, i, hi, hi'⟩
  have hop := congrArg (·[i]?) h.opcodes
  simpa [hi, hi'] using hop

theorem SameCommands.forall₂_aligned (h : p.SameCommands p') :
    List.Forall₂ (Aligned p p') p.instructions.toList p'.instructions.toList := by
  rw [List.forall₂_iff_get]
  refine ⟨h.size_eq, fun i hi hi' => ?_⟩
  have hrel := h.getElem? i
  rw [Array.getElem?_eq_getElem hi, Array.getElem?_eq_getElem hi'] at hrel
  cases hrel with
  | some h => exact h

/-! ### Brackets -/

/-- The bracket check goes through aligned instructions in the same way, and blames aligned ones. -/
theorem bracketFault?_aligned {pending pending' l l' : List Instruction}
    (hpending : List.Forall₂ (Aligned p p') pending pending')
    (hl : List.Forall₂ (Aligned p p') l l') :
    Option.Rel (fun x y => x.1 = y.1 ∧ Aligned p p' x.2 y.2) (bracketFault? pending l)
      (bracketFault? pending' l') := by
  induction hl generalizing pending pending' with
  | nil =>
    rw [bracketFault?, bracketFault?, List.getLast?_eq_head?_reverse,
      List.getLast?_eq_head?_reverse]
    have hrev := List.rel_reverse hpending
    generalize pending.reverse = rev at hrev ⊢
    generalize pending'.reverse = rev' at hrev ⊢
    cases hrev with
    | nil => exact .none
    | cons h _ => exact .some ⟨rfl, h⟩
  | @cons ins ins' l l' h _ ih =>
    rw [bracketFault?.eq_def, bracketFault?.eq_def pending']
    dsimp only
    rw [← h.opcode]
    cases ins.opcode with
    | beginLoop => exact ih (.cons h hpending)
    | endLoop =>
      cases hpending with
      | nil => exact .some ⟨rfl, h⟩
      | cons _ hpending => exact ih hpending
    | _ => exact ih hpending

end Program

/-- The errors differ in their places only, and these are those of aligned instructions. -/
inductive Error.Displaced (p p' : Program) : Error → Error → Prop where
  | mk (problem : Problem) (source : Option String) {ins ins' : Instruction}
      (h : p.Aligned p' ins ins') :
      Displaced p p' ⟨problem, source, some ins.place⟩ ⟨problem, source, some ins'.place⟩

/-- The bracket check accepts both programs, or blames aligned brackets for the same problem. -/
theorem Program.check_displaced {p p' : Program} (h : p.SameCommands p') :
    p.check = .ok () ∧ p'.check = .ok () ∨
      ∃ e e', p.check = .error e ∧ p'.check = .error e' ∧ Error.Displaced p p' e e' := by
  have hrel := bracketFault?_aligned .nil h.forall₂_aligned
  unfold check
  generalize bracketFault? [] p.instructions.toList = x at hrel ⊢
  generalize bracketFault? [] p'.instructions.toList = y at hrel ⊢
  cases hrel with
  | none => exact .inl ⟨rfl, rfl⟩
  | @some a b h' =>
    obtain ⟨hproblem, haligned⟩ := h'
    refine .inr ⟨_, _, rfl, rfl, ?_⟩
    rw [← hproblem, ← h.source]
    exact .mk _ _ haligned

/-- Matching brackets looks at the commands only. -/
theorem JumpTable.build_congr {l l' : List Instruction}
    (h : l.map (·.opcode) = l'.map (·.opcode)) (i : Nat) (pending : List Nat)
    (t : Array (Option Nat)) : build i pending t l = build i pending t l' := by
  induction l generalizing l' i pending t with
  | nil =>
    rw [List.map_nil, eq_comm, List.map_eq_nil_iff] at h
    rw [h]
  | cons ins l ih =>
    cases l' with
    | nil => cases h
    | cons ins' l' =>
      rw [List.map_cons, List.map_cons, List.cons.injEq] at h
      rw [build.eq_def, build.eq_def _ _ _ (ins' :: l')]
      dsimp only
      rw [← h.1]
      cases ins.opcode with
      | beginLoop => exact ih h.2 _ _ _
      | endLoop =>
        cases pending with
        | nil => rfl
        | cons j pending => exact ih h.2 _ _ _
      | _ => exact ih h.2 _ _ _

theorem JumpTable.ofProgram?_congr {p p' : Program} (h : p.SameCommands p') :
    ofProgram? p = ofProgram? p' := by
  rw [ofProgram?, ofProgram?, h.size_eq, build_congr h.opcodes]

/-- The codes of two programs with the same commands have the same jumps. -/
theorem Code.ofProgram_displaced {p p' : Program} (h : p.SameCommands p') :
    (∃ code code', ofProgram p = .ok code ∧ ofProgram p' = .ok code' ∧ code.program = p ∧
        code'.program = p' ∧ code.jumps = code'.jumps) ∨
      ∃ e e', ofProgram p = .error e ∧ ofProgram p' = .error e' ∧ Error.Displaced p p' e e' := by
  unfold ofProgram
  rcases Program.check_displaced h with ⟨hok, hok'⟩ | ⟨e, e', he, he', hdisplaced⟩
  · rw [hok, hok', ← JumpTable.ofProgram?_congr h]
    exact .inl ⟨_, _, rfl, rfl, rfl, rfl, rfl⟩
  · rw [he, he']
    exact .inr ⟨e, e', rfl, rfl, hdisplaced⟩

theorem Program.SameCommands.fetch? {code code' : Code}
    (h : code.program.SameCommands code'.program) (pc : Int) :
    Option.Rel (code.program.Aligned code'.program) (code.fetch? pc) (code'.fetch? pc) := by
  cases pc with
  | ofNat i => exact h.getElem? i
  | negSucc k =>
    rw [Code.fetch?, Code.fetch?, ← h.size_eq]
    split
    · exact h.getElem? _
    · exact .none

/-! ### Steps -/

/-- The faults differ only in what an error is blamed on, which are aligned instructions. -/
inductive Fault.Displaced (p p' : Program) : Fault → Fault → Prop where
  | error {e e' : Error} (h : Error.Displaced p p' e e') (cause : Option Failure) :
      Displaced p p' (.error e cause) (.error e' cause)
  | failure (f : Failure) : Displaced p p' (.failure f) (.failure f)
  | operand (e : OperandError) : Displaced p p' (.operand e) (.operand e)
  | noInstruction (pc : Int) : Displaced p p' (.noInstruction pc) (.noInstruction pc)
  | noTarget (pc : Int) : Displaced p p' (.noTarget pc) (.noTarget pc)

/-- If the fault is an error, its place is not known yet. -/
def Fault.Unplaced (f : Fault) : Prop :=
  ∀ e cause, f = .error e cause → ∃ problem, e = .unplaced problem

theorem Fault.unplaced_ofProblem (problem : Problem) : (ofProblem problem).Unplaced := by
  rintro e cause ⟨⟩
  exact ⟨problem, rfl⟩

theorem Fault.unplaced_ofFailure (problem : Value → Problem) (f : Failure) :
    (ofFailure problem f).Unplaced := by
  intro e cause h
  unfold ofFailure at h
  split at h
  · cases h
    exact ⟨_, rfl⟩
  · cases h

theorem Fault.unplaced_of_capFault? {k : Int} {problem : Limit → Problem} {cap : Option Limit}
    {f : Fault} (h : capFault? k problem cap = some f) : f.Unplaced := by
  rintro e cause rfl
  obtain ⟨l, rfl⟩ := eq_unplaced_of_capFault? h
  exact ⟨_, rfl⟩

/-- Executing a command does not place its error. -/
theorem Snapshot.Executes.unplaced {jumps : JumpTable} {cap : Option Limit} {s t : Snapshot}
    {op : Opcode} {f : Option Fault} (h : Executes jumps cap s op f t) : ∀ φ ∈ f, φ.Unplaced := by
  rintro φ hφ
  cases h with
  | leftEdge | rightEdge | readEnd =>
    cases hφ
    exact Fault.unplaced_ofProblem _
  | readFails | writeFails | flushFails =>
    cases hφ
    exact Fault.unplaced_ofFailure _ _
  | capped hc =>
    cases hφ
    exact Fault.unplaced_of_capFault? hc
  | openAlone | closeAlone =>
    cases hφ
    rintro e cause ⟨⟩
  | _ => cases hφ

/-- Blaming a fault on aligned instructions displaces it. -/
theorem Fault.Unplaced.locate {p p' : Program} {f : Fault} (hf : f.Unplaced) {ins ins' : Instruction}
    (h : p.Aligned p' ins ins') (source : Option String) :
    Displaced p p' (f.locate source ins) (f.locate source ins') := by
  cases f with
  | error e cause =>
    obtain ⟨problem, rfl⟩ := hf e cause rfl
    exact .error (.mk problem _ h) cause
  | failure f => exact .failure f
  | operand e => exact .operand e
  | noInstruction pc => exact .noInstruction pc
  | noTarget pc => exact .noTarget pc

/-- **A step does the same in both programs**, but for what an error is blamed on. -/
theorem Program.SameCommands.inStep {code code' : Code}
    (h : code.program.SameCommands code'.program) (hjumps : code.jumps = code'.jumps)
    (caps : Caps) :
    InStep code code' caps Eq (Fault.Displaced code.program code'.program) (fun _ => False) := by
  have hfinished : ∀ s : Snapshot, s.Finished code ↔ s.Finished code' := by
    intro s
    rw [Finished, Finished, Code.finished, Code.finished, h.size_eq]
  refine ⟨?_, ?_⟩
  · rintro s _ rfl
    exact hfinished s
  · rintro s _ rfl -
    have hst := stepped code caps s
    generalize (s.step code caps).1 = f at hst ⊢
    generalize (s.step code caps).2 = t at hst ⊢
    suffices hstep : ∃ f', Stepped code' caps s f' t ∧
        Option.Rel (Fault.Displaced code.program code'.program) f f' by
      obtain ⟨f', hst', hrel⟩ := hstep
      rw [hst'.eq]
      exact ⟨hrel, rfl⟩
    have hfetch := h.fetch? s.machine.pc
    cases hst with
    | finished hr => exact ⟨none, .finished ((hfinished s).1 hr), .none⟩
    | noInstruction hr hi =>
      rw [hi] at hfetch
      exact ⟨_, .noInstruction (mt (hfinished s).2 hr) (eq_none_of_rel_none hfetch),
        .some (.noInstruction _)⟩
    | @capped ins f hr hi hc =>
      rw [hi] at hfetch
      obtain ⟨ins', hi', haligned⟩ := exists_of_rel_some hfetch
      refine ⟨_, .capped (mt (hfinished s).2 hr) hi' hc, .some ?_⟩
      rw [← h.source]
      exact (Fault.unplaced_of_capFault? hc).locate haligned _
    | @executed ins f _ hr hi hc he =>
      rw [hi] at hfetch
      obtain ⟨ins', hi', haligned⟩ := exists_of_rel_some hfetch
      have he' : Executes code'.jumps caps.output s ins'.opcode f t := by
        rw [← hjumps, ← haligned.opcode]
        exact he
      refine ⟨_, .executed (mt (hfinished s).2 hr) hi' hc he', ?_⟩
      rw [← h.source]
      cases f with
      | none => exact .none
      | some f => exact .some ((he.unplaced f rfl).locate haligned _)

/-! ### Reports -/

theorem Setup.settings_ne_brackets (s : Setup) (e : Error) : s.settings ≠ .error (.brackets e) := by
  unfold Setup.settings
  split
  · next e' hlength =>
    intro h
    cases h
    exact lengthOf_ne_brackets _ _ _ hlength
  · simp

/-- Setting up a run looks at the program only to check its brackets and to match them. -/
theorem Setup.ofConfig_displaced {p p' : Program} (h : p.SameCommands p') (room : Room) (c : Config) :
    (∃ e, ofConfig room p c = .error e ∧ ofConfig room p' c = .error e ∧ ∀ φ, e ≠ .brackets φ) ∨
      (∃ e e', ofConfig room p c = .error (.brackets e) ∧ ofConfig room p' c = .error (.brackets e') ∧
        Error.Displaced p p' e e') ∨
      ∃ code code' setup settings, ofConfig room p c = .ok (code, setup, settings) ∧
        ofConfig room p' c = .ok (code', setup, settings) ∧ code.program = p ∧ code'.program = p' ∧
        code.jumps = code'.jumps := by
  unfold ofConfig
  cases hlength : checkLength c.cells with
  | error e =>
    exact .inl ⟨e, rfl, rfl, fun φ hφ => checkLength_ne_brackets _ φ (hφ ▸ hlength)⟩
  | ok _ =>
    rcases Code.ofProgram_displaced h with ⟨code, code', hcode, hcode', hp, hp', hjumps⟩ |
      ⟨e, e', he, he', hdisplaced⟩
    · rw [hcode, hcode']
      dsimp only
      cases hwidth : widthOf c.cellBits with
      | error e => exact .inl ⟨e, rfl, rfl, fun φ hφ => widthOf_ne_brackets _ φ (hφ ▸ hwidth)⟩
      | ok kind =>
        dsimp only
        generalize Setup.mk room c.cells c.extensible kind _ = setup
        cases hsettings : setup.settings with
        | error e =>
          exact .inl ⟨e, rfl, rfl, fun φ hφ => setup.settings_ne_brackets φ (hφ ▸ hsettings)⟩
        | ok settings =>
          exact .inr (.inr ⟨code, code', setup, settings, rfl, rfl, hp, hp', hjumps⟩)
    · rw [he, he']
      exact .inr (.inl ⟨e, e', rfl, rfl, hdisplaced⟩)

/-- The reports differ in the place of their error only. -/
structure Report.Relaid (p p' : Program) (r r' : Report) : Prop where
  output : r.output = r'.output
  outputBytes : r.outputBytes = r'.outputBytes
  steps : r.steps = r'.steps
  error : Option.Rel (Error.Displaced p p') r.error r'.error

namespace Evaluation

/-- Both texts have a report, or neither has one, for the same reason. -/
inductive Relaid (p p' : Program) : Except Abort Report → Except Abort Report → Prop where
  | abort (a : Abort) : Relaid p p' (.error a) (.error a)
  | report {r r' : Report} (h : r.Relaid p p' r') : Relaid p p' (.ok r) (.ok r')

theorem relaid_reportOn {p p' : Program} (output : Sink) (steps : Int) {e e' : Option Error}
    (h : Option.Rel (Error.Displaced p p') e e') :
    Relaid p p' (.ok (reportOn output steps e)) (.ok (reportOn output steps e')) :=
  .report ⟨rfl, rfl, rfl, h⟩

theorem ofRun_relaid {p p' : Program} {r r' : Run}
    (hending : Ending.Related (Fault.Displaced p p') r.ending r'.ending)
    (hlast : r.snapshot = r'.snapshot) : Relaid p p' (ofRun r) (ofRun r') := by
  have hmachine : r.machine = r'.machine := congrArg Snapshot.machine hlast
  have houtput : r.output = r'.output := congrArg Snapshot.output hlast
  unfold ofRun
  rw [hmachine, houtput]
  generalize r.ending = x at hending ⊢
  generalize r'.ending = y at hending ⊢
  cases hending with
  | finished => exact relaid_reportOn _ _ .none
  | unfinished => exact .abort _
  | failed h =>
    cases h with
    | @error e e' h cause =>
      -- the problem is the same, so both can be put into words or neither can
      have hproblem : e.problem = e'.problem := by
        cases h
        rfl
      rw [Ending.verdict, Ending.verdict, hproblem]
      by_cases hwritable : e'.problem.isWritable = true
      · rw [if_pos hwritable, if_pos hwritable]
        exact relaid_reportOn _ _ (.some h)
      · rw [if_neg hwritable, if_neg hwritable]
        exact .abort _
    | _ => exact .abort _

/-- **Whole runs** of two texts with the same commands. -/
theorem run_relaid (source : Option String) {text text' : String}
    (h : Text.commands text.toList = Text.commands text'.toList) (room : Room) (patience : Nat)
    (input : List UInt8) (settings : Value) :
    Relaid (.ofText source text) (.ofText source text') (run room patience source text input settings)
      (run room patience source text' input settings) := by
  have hsame := Program.sameCommands_ofText source h
  unfold run
  cases Config.ofSettings settings with
  | error e => exact .abort _
  | ok config =>
    rcases Setup.ofConfig_displaced hsame room config with ⟨e, he, he', hbrackets⟩ |
      ⟨e, e', he, he', hdisplaced⟩ | ⟨code, code', setup, s, hok, hok', hp, hp', hjumps⟩
    · simp only [he, he']
      cases e with
      | brackets φ => exact absurd rfl (hbrackets φ)
      | _ => exact .abort _
    · simp only [he, he']
      exact relaid_reportOn _ _ (.some hdisplaced)
    · simp only [hok, hok']
      rw [← hp, ← hp'] at hsame ⊢
      obtain ⟨hending, hlast⟩ := (hsame.inStep hjumps s.caps).interpret .failure
        (fun h => congrArg Snapshot.output h) (fun k h => by rw [h]) rfl rfl
        (fun _ _ _ _ => not_false)
      exact ofRun_relaid hending hlast

end Evaluation

/-! ### Places and indices -/

/-- The index of the instruction that an error is blamed on. -/
def Program.blamed? (p : Program) (e : Error) : Option Nat :=
  p.instructions.findIdx? fun i => some i.place = e.place

/-- No place is that of two instructions. -/
theorem Program.blamed?_ofText {source : Option String} {text : String} {e : Error} {i : Nat}
    {ins : Instruction} (hi : (ofText source text).instructions[i]? = some ins)
    (he : e.place = some ins.place) : (ofText source text).blamed? e = some i := by
  have horder := pairwise_precedes_parse text.toList
  rw [List.pairwise_iff_getElem] at horder
  rw [blamed?, Array.findIdx?_eq_some_iff_getElem]
  obtain ⟨hlt, hget⟩ := Array.getElem?_eq_some_iff.1 hi
  refine ⟨hlt, by simp [hget, he], fun j hj hplace => ?_⟩
  rw [he, decide_eq_true_eq, Option.some.injEq] at hplace
  have hsame := Instruction.place_injective hplace
  exact (horder j i _ hlt hj).ne (hsame.trans hget.symm)

/-- A problem in words has the location in it once, and nothing else depends on that. -/
theorem Problem.exists_describe (problem : Problem) :
    ∃ before after, ∀ location, problem.describe location = before ++ location ++ after := by
  have hfront : ∀ words reason : String, ∃ before after, ∀ location : String,
      location ++ words ++ reason = before ++ location ++ after :=
    fun words reason => ⟨"", words ++ reason, fun location => by simp [String.append_assoc]⟩
  cases problem with
  | general | bracket | runtime | stepLimit | outputLimit =>
    exact ⟨_, "", fun _ => String.append_empty.symm⟩
  | unmatchedOpen | unmatchedClose | pointerUnderflow | pointerOverflow =>
    exact ⟨_, _, fun _ => rfl⟩
  | stream r | read r | write r => exact hfront _ r.shown

/-- The errors have the same code, command, source and reason, refer to instructions with the same index,
and differ in their lines, their columns and the locations inside their messages only. -/
structure Error.SameUpToPlace (p p' : Program) (e e' : Error) : Prop where
  fields : ∀ name ∉ ["message", "line", "column"], e.details.field? name = e'.details.field? name
  message : ∃ before after, e.message = before ++ e.location ++ after ∧
    e'.message = before ++ e'.location ++ after
  index : ∃ i, p.blamed? e = some i ∧ p'.blamed? e' = some i

theorem Error.Displaced.sameUpToPlace {source : Option String} {text text' : String} {e e' : Error}
    (h : Displaced (.ofText source text) (.ofText source text') e e') :
    e.SameUpToPlace (.ofText source text) (.ofText source text') e' := by
  cases h with
  | @mk problem _ ins ins' haligned =>
    refine ⟨fun name hname => ?_, ?_, ?_⟩
    · simp only [List.mem_cons, List.not_mem_nil, or_false, not_or] at hname
      obtain ⟨hmessage, hline, hcolumn⟩ := hname
      simp only [details, Value.field?, List.cons_append, List.lookup_cons,
        beq_false_of_ne hmessage, beq_false_of_ne hline, beq_false_of_ne hcolumn, code,
        Option.map_some, Instruction.place, haligned.opcode]
    · obtain ⟨before, after, h⟩ := problem.exists_describe
      exact ⟨before, after, h _, h _⟩
    · obtain ⟨i, hi, hi'⟩ := haligned.index
      exact ⟨i, Program.blamed?_ofText hi rfl, Program.blamed?_ofText hi' rfl⟩

/-- **Commentary and layout are inert.** Two texts with the same commands are run alike, from the same
source, on the same input and with the same settings. If the settings can be used and the runs end, both
have reports with the same output and the same number of steps, and either both reports have an error or
neither has one. The errors have the same code, command, source and reason and are blamed on instructions
with the same index; only the lines and columns may differ, and the locations inside the messages. -/
theorem layout_inert (room : Room) (patience : Nat) (source : Option String) (text text' : String)
    (input : List UInt8) (settings : Value)
    (h : Text.commands text.toList = Text.commands text'.toList) :
    (∃ a, Evaluation.run room patience source text input settings = .error a ∧
        Evaluation.run room patience source text' input settings = .error a) ∨
      ∃ r r', Evaluation.run room patience source text input settings = .ok r ∧
        Evaluation.run room patience source text' input settings = .ok r' ∧
        r.output = r'.output ∧ r.outputBytes = r'.outputBytes ∧ r.steps = r'.steps ∧
        Option.Rel (Error.SameUpToPlace (.ofText source text) (.ofText source text'))
          r.error r'.error := by
  have hrelaid := Evaluation.run_relaid source h room patience input settings
  generalize Evaluation.run room patience source text input settings = x at hrelaid ⊢
  generalize Evaluation.run room patience source text' input settings = y at hrelaid ⊢
  cases hrelaid with
  | abort a => exact .inl ⟨a, rfl, rfl⟩
  | @report r r' hr =>
    exact .inr ⟨r, r', rfl, rfl, hr.output, hr.outputBytes, hr.steps,
      rel_mono (fun _ _ he => he.sameUpToPlace) hr.error⟩

/-- The program `+.<` in one line, and in three with a word of commentary. Both print a byte and blame the
instruction at index two, which stands in different lines. -/
theorem layout_inert_underflow :
    ∃ r r' e e', Evaluation.run .usual 9 (some "p") "+.<" [] (.table []) = .ok r ∧
      Evaluation.run .usual 9 (some "p") "+\nprint .\n<" [] (.table []) = .ok r' ∧
      r.error = some e ∧ r'.error = some e' ∧ r.output = r'.output ∧ r.steps = 2 ∧ r'.steps = 2 ∧
      e.details.field? "line" = some (.int 1) ∧ e'.details.field? "line" = some (.int 3) ∧
      (Program.ofText (some "p") "+.<").blamed? e = some 2 ∧
      (Program.ofText (some "p") "+\nprint .\n<").blamed? e' = some 2 ∧
      e.details.field? "code" = e'.details.field? "code" := by
  have hcommands : Text.commands "+.<".toList = Text.commands "+\nprint .\n<".toList := by decide
  rcases layout_inert .usual 9 (some "p") "+.<" "+\nprint .\n<" [] (.table []) hcommands with
    ⟨a, ha, -⟩ | ⟨r, r', hr, hr', houtput, -, -, herror⟩
  · cases ha
  · cases hr
    cases hr'
    cases herror with
    | some h =>
      exact ⟨_, _, _, _, rfl, rfl, rfl, rfl, houtput, rfl, rfl, rfl, rfl, Program.blamed?_ofText (i := 2) rfl rfl,
        Program.blamed?_ofText (i := 2) rfl rfl, h.fields "code" (by decide)⟩

end TapeMachine
