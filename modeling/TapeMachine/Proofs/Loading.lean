import Mathlib
import TapeMachine.Program.Load
import TapeMachine.Proofs.Layout
import TapeMachine.Proofs.Utf8

/-!
# Programs from files and programs from texts

A program in a file is decoded, all its line breaks become line feeds, and then it is read. A program in a
text is read as it is: there a carriage return is a character like any other, which takes a column of its
row. So the two ways of reading may count rows and columns differently, and here it is said how far they
agree.

* `Text.lineFeeds_eq_withLineFeeds`: the line breaks are translated in one pass, and this is to replace
  all pairs first and then every carriage return that is left.
* `Program.load_encode`: what is loaded from a file that holds an encoded text.
* `Program.readFrom_lineFeeds`: where a carriage return only stands before a line feed, it moves no
  instruction.
* `load_agrees`: the commands, the bracket check and the jumps are always the same, and then the places
  are the same too.
-/

namespace TapeMachine

/-! ### Line breaks -/

namespace Text

/-- Every pair of a carriage return and a line feed as a line feed. -/
def joinPairs : List Char → List Char
  | [] => []
  | '\r' :: '\n' :: cs => '\n' :: joinPairs cs
  | c :: cs => c :: joinPairs cs

/-- Every pair as a line feed, and then every carriage return that is left. -/
def withLineFeeds (cs : List Char) : List Char :=
  (joinPairs cs).map fun c => if c = '\r' then '\n' else c

/-- One pass over a text does what two replacements do. -/
theorem lineFeeds_eq_withLineFeeds (cs : List Char) : lineFeeds cs = withLineFeeds cs := by
  unfold withLineFeeds
  fun_induction lineFeeds cs with
  | case1 => rfl
  | case2 cs ih => rw [joinPairs, List.map_cons, if_neg (by decide), ih]
  | case3 cs hlone ih => rw [joinPairs.eq_3 _ _ fun _ _ => hlone _, List.map_cons, if_pos rfl, ih]
  | case4 c cs _ hreturn ih =>
    have hc : c ≠ '\r' := fun h => hreturn h
    rw [joinPairs.eq_3 _ _ fun _ h _ => hc h, List.map_cons, if_neg hc, ih]

theorem commands_lineFeeds (cs : List Char) : commands (lineFeeds cs) = commands cs := by
  have hreturn : (Opcode.ofChar? '\r').isSome = false := rfl
  have hfeed : (Opcode.ofChar? '\n').isSome = false := rfl
  unfold commands
  fun_induction lineFeeds cs with
  | case1 => rfl
  | case2 cs ih => simp [hreturn, hfeed, ih]
  | case3 cs _ ih => simp [hreturn, hfeed, ih]
  | case4 c cs _ _ ih => rw [List.filter_cons, List.filter_cons, ih]

/-- Every carriage return has a line feed right after it. -/
def Paired (cs : List Char) : Prop := ∀ i : Nat, cs[i]? = some '\r' → cs[i + 1]? = some '\n'

theorem Paired.tail {c : Char} {cs : List Char} (h : Paired (c :: cs)) : Paired cs :=
  fun i hi => h (i + 1) hi

end Text

namespace Program

/-- A carriage return before a line feed moves no instruction: the column that it takes is given up at
the line feed. -/
theorem readFrom_lineFeeds {cs : List Char} (h : Text.Paired cs) (row col : Nat) :
    readFrom row col (Text.lineFeeds cs) = readFrom row col cs := by
  fun_induction Text.lineFeeds cs generalizing row col with
  | case1 => rfl
  | case2 cs ih =>
    have hpair : readFrom row col ('\r' :: '\n' :: cs) = readFrom (row + 1) 1 cs := rfl
    rw [hpair, readFrom, if_pos rfl, ih h.tail.tail]
  | case3 cs hlone ih =>
    -- a carriage return on its own is ruled out
    have hnext : cs[0]? = some '\n' := h 0 rfl
    cases cs with
    | nil => cases hnext
    | cons c cs =>
      cases hnext
      exact absurd rfl (hlone cs)
  | case4 c cs _ _ ih => rw [readFrom, readFrom, ih h.tail, ih h.tail]

theorem load_encode {files : FileTree} {path text : String}
    (hread : files.read (.ofText path) = .ok (Text.Utf8.encode text)) :
    load files path = .ok (.ofText (some path) (.ofList (Text.lineFeeds text.toList))) := by
  unfold load
  rw [hread]
  dsimp only
  rw [ofBytes, Text.Utf8.decode_encode]
  dsimp only
  rw [ofText, String.toList_ofList]

/-! ### Verdicts -/

/-- What the bracket check finds in a program: nothing, or a problem and the index of the bracket that is
blamed for it. -/
def verdict? (p : Program) : Option (Problem × Option Nat) :=
  match p.check with
  | .ok _ => none
  | .error e => some (e.problem, p.blamed? e)

theorem verdict?_source (source source' : Option String) (instructions : Array Instruction) :
    verdict? ⟨source, instructions⟩ = verdict? ⟨source', instructions⟩ := by
  unfold verdict? check
  dsimp only
  cases bracketFault? [] instructions.toList <;> rfl

theorem verdict?_of_commands (source : Option String) {text text' : String}
    (h : Text.commands text.toList = Text.commands text'.toList) :
    (ofText source text).verdict? = (ofText source text').verdict? := by
  unfold verdict?
  rcases check_displaced (sameCommands_ofText source h) with ⟨hok, hok'⟩ |
    ⟨e, e', he, he', hdisplaced⟩
  · rw [hok, hok']
  · obtain ⟨i, hi, hi'⟩ := hdisplaced.sameUpToPlace.index
    have hproblem : e.problem = e'.problem := by
      cases hdisplaced
      rfl
    simp only [he, he', hi, hi', hproblem]

end Program

/-- **Loading a file agrees with reading a text.** A file that holds an encoded text gives the program of
the text in which every pair of a carriage return and a line feed, and then every carriage return that is
left, has become a line feed. Compared with the program of the text as it is, from any source, this one
has the same commands, the same verdict of the bracket check and the same jumps. If every carriage return
has a line feed right after it, it has the same instructions, with their rows and columns. -/
theorem load_agrees {files : FileTree} {path text : String}
    (hread : files.read (.ofText path) = .ok (Text.Utf8.encode text)) :
    ∃ p, Program.load files path = .ok p ∧
      p = .ofText (some path) (.ofList (Text.withLineFeeds text.toList)) ∧
      ∀ source q, q = Program.ofText source text →
        p.instructions.toList.map (·.opcode) = q.instructions.toList.map (·.opcode) ∧
        p.verdict? = q.verdict? ∧ JumpTable.ofProgram? p = JumpTable.ofProgram? q ∧
        ((∀ i : Nat, text.toList[i]? = some '\r' → text.toList[i + 1]? = some '\n') →
          p.instructions = q.instructions) := by
  have hcommands : Text.commands (String.ofList (Text.lineFeeds text.toList)).toList =
      Text.commands text.toList := by
    rw [String.toList_ofList, Text.commands_lineFeeds]
  have hsame := Program.sameCommands_ofText (some path) hcommands
  refine ⟨_, Program.load_encode hread, by rw [Text.lineFeeds_eq_withLineFeeds], ?_⟩
  rintro source _ rfl
  refine ⟨hsame.opcodes, ?_, (JumpTable.ofProgram?_congr hsame :), fun hpaired => ?_⟩
  · rw [Program.verdict?_of_commands (some path) hcommands]
    exact Program.verdict?_source (some path) source _
  · apply Array.toList_inj.1
    rw [Program.ofText, Program.ofText, Program.toList_parse, Program.toList_parse,
      String.toList_ofList, Program.readFrom_lineFeeds hpaired]

/-- Two lines that end in pairs, with a character of several bytes and a bracket that is not closed. -/
theorem load_agrees_pairs :
    let files : FileTree := ⟨[], [(["p.bf"], Text.Utf8.encode "é+\r\n[-\r\n")]⟩
    files.read (.ofText "p.bf") = .ok (Text.Utf8.encode "é+\r\n[-\r\n") ∧
      ∃ p, Program.load files "p.bf" = .ok p ∧
        p.instructions = #[⟨1, 2, .increment⟩, ⟨2, 1, .beginLoop⟩, ⟨2, 2, .decrement⟩] ∧
        p.instructions = (Program.ofText none "é+\r\n[-\r\n").instructions ∧
        p.verdict? = some (.unmatchedOpen, some 1) := by
  intro files
  have hread : files.read (.ofText "p.bf") = .ok (Text.Utf8.encode "é+\r\n[-\r\n") := rfl
  have hpaired : ∀ i : Nat, "é+\r\n[-\r\n".toList[i]? = some '\r' →
      "é+\r\n[-\r\n".toList[i + 1]? = some '\n' := by
    intro i hi
    obtain ⟨hlt, -⟩ := List.getElem?_eq_some_iff.1 hi
    have hlt : i < 8 := hlt
    interval_cases i <;> revert hi <;> decide
  have hblamed : (Program.ofText none "é+\r\n[-\r\n").verdict? = some (.unmatchedOpen, some 1) :=
    congrArg (fun i => some (Problem.unmatchedOpen, i)) (Program.blamed?_ofText (i := 1) rfl rfl)
  obtain ⟨p, hload, -, hagrees⟩ := load_agrees hread
  obtain ⟨-, hverdict, -, hplaces⟩ := hagrees none _ rfl
  have hinstructions := hplaces hpaired
  exact ⟨hread, p, hload, hinstructions.trans (by decide), hinstructions, hverdict.trans hblamed⟩

/-- A file with a carriage return on its own, one before a pair and one within a pair. The first two are
rows of their own in the file and columns in the text, so the places differ, and the commands do not. -/
example : Text.withLineFeeds "+\r[\r\r\n-]".toList = "+\n[\n\n-]".toList ∧
    Program.parse "+\n[\n\n-]".toList =
      #[⟨1, 1, .increment⟩, ⟨2, 1, .beginLoop⟩, ⟨4, 1, .decrement⟩, ⟨4, 2, .endLoop⟩] ∧
    Program.parse "+\r[\r\r\n-]".toList =
      #[⟨1, 1, .increment⟩, ⟨1, 3, .beginLoop⟩, ⟨2, 1, .decrement⟩, ⟨2, 2, .endLoop⟩] := by decide

end TapeMachine
