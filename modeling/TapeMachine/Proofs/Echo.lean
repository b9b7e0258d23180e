import Mathlib
import TapeMachine.Evaluation
import TapeMachine.Proofs.Printing
import TapeMachine.Proofs.Utf8

/-!
# Echoing text

The program `,[.,]` copies its input until it reads a zero or finds nothing to read. Run on the bytes of a
text, it gives the text back up to its first NUL character, with the last line ended.

## The model

The program is run as a forest (`echo`), so that its loop is a loop of the meaning and not one of the
machine. `untilNul` and `lineEnded` say on texts what is expected of the output.

## What is proved

* `interpret_of_eval`: a run ends as the forest does, after as many steps, and adds what the forest has
  written.
* `eval_rounds`: rounds of the loop, by induction on the bytes that are not zero. Each of them takes three
  steps. `eval_rounds_done` and `eval_rounds_failed` are the two ways to go on from there.
* `eval_echo_done`, `eval_echo_failed`: the whole program on bytes.
* `lineEnd_encode`, `exists_encode_eq`: what zeros and line feeds among the bytes mean in the text.
* `echo_returns_text`: all of it, for texts and reports.
-/

namespace TapeMachine

open Snapshot

/-! ### Whole runs of forests -/

namespace Outcome

/-- The world that is left. -/
def world : Outcome → World
  | .done w => w
  | .failed _ _ w => w

/-- How a run ends that comes to the outcome. -/
def ending (code : Code) : Outcome → Ending
  | .done _ => .finished
  | .failed e i _ => .failed (code.faultAt i e)

end Outcome

section Runs

variable {code : Code} {shape : Shape} {old : List UInt8} {f : Forest} {r : Outcome} {n : Nat}

/-- Where a forest has an outcome, the counted run ends with it. -/
theorem Begins.exists_ending {s : Snapshot} {w : World} (h : Begins code shape old f s w)
    (hr : Eval shape (.row f) 0 w r n) :
    ∃ t, s.after code .none n = some t ∧ t.ending? code .none = some (r.ending code) ∧
      t.output.bytes = old ++ r.world.output := by
  have hfollows := h.follows hr
  cases r with
  | done v =>
    obtain ⟨t, ht, hshows, hpc⟩ := hfollows
    exact ⟨t, ht, if_pos (h.finished_of_pc hpc), hshows.output⟩
  | failed e i v =>
    obtain ⟨t, ht, hshows, hpc, ins, hins, hfault⟩ := hfollows
    refine ⟨t, ht, ?_, hshows.output⟩
    rw [ending?, if_neg (not_finished_of_fetch hpc hins), hfault, Outcome.ending, Code.faultAt, hins]
    rfl

/-- On streams that never fail, `interpret` adds what was written, with the last line ended. -/
theorem bytes_interpret_of_ending? {settings : Settings} {input : Reader} {output : Sink}
    (hinput : input.Healthy) (houtput : output.Healthy) {k fuel : Nat} {t : Snapshot} {e : Ending}
    (ht : (start settings input output).after code settings.caps k = some t)
    (he : t.ending? code settings.caps = some e) (hfuel : k < fuel) {added : List UInt8}
    (hadded : t.output.bytes = output.bytes ++ added) :
    (interpret fuel code settings input output).output.bytes =
      output.bytes ++ (added ++ lineEnd none added) := by
  have hended : (interpret fuel code settings input output).ending ≠ .unfinished := by
    rw [(interpret_of_ending? hinput houtput ht he hfuel).1]
    rintro rfl
    exact ending?_ne_unfinished t he
  obtain ⟨k', t', ht', he', -, hbytes⟩ := interpret_of_healthy hinput houtput hended
  obtain ⟨rfl, rfl⟩ := stop_unique ht (after_one_of_ending? he) ht' (after_one_of_ending? he')
  obtain rfl : added = (start settings input output).printed code settings.caps k :=
    List.append_cancel_left (hadded.symm.trans (bytes_after ht).1)
  exact hbytes

/-- **A run ends as its forest does**, after as many steps, and adds what the forest has written, with the
last line ended. -/
theorem interpret_of_eval {settings : Settings} {input : Reader} {output : Sink}
    (hinput : input.Healthy) (houtput : output.Healthy) (hcaps : settings.caps = .none)
    (h : Begins code settings.shape output.bytes f (start settings input output)
      (.initial settings.cells input.rest))
    (hr : Eval settings.shape (.row f) 0 (.initial settings.cells input.rest) r n) {fuel : Nat}
    (hfuel : n < fuel) :
    (interpret fuel code settings input output).ending = r.ending code ∧
      (interpret fuel code settings input output).machine.steps = n ∧
      (interpret fuel code settings input output).output.bytes =
        output.bytes ++ (r.world.output ++ lineEnd none r.world.output) := by
  obtain ⟨t, ht, he, hbytes⟩ := h.exists_ending hr
  rw [← hcaps] at ht he
  obtain ⟨hending, hmachine⟩ := interpret_of_ending? hinput houtput ht he hfuel
  refine ⟨hending, ?_, bytes_interpret_of_ending? hinput houtput ht he hfuel hbytes⟩
  rw [hmachine, steps_after ht]
  exact Int.zero_add _

end Runs

/-! ### The program -/

/-- The body of the loop of `,[.,]`. -/
def echoBody : Forest := .command ⟨1, 3⟩ .output (.command ⟨1, 4⟩ .input .nil)

/-- The program `,[.,]`. -/
def echo : Forest := .command ⟨1, 1⟩ .input (.loop ⟨1, 2⟩ echoBody ⟨1, 5⟩ .nil)

/-- A byte is in the current cell. -/
structure World.Carries (w : World) (b : UInt8) : Prop where
  pointer_lt : w.pointer < w.cells.length
  current : w.current = b.toNat

/-- The world after a byte was read. -/
def World.fed (w : World) (b : UInt8) (rest : List UInt8) : World :=
  { w.put b.toNat with input := rest }

/-- The world after the current cell was written. -/
def World.told (w : World) : World := { w with output := w.output ++ [UInt8.ofInt w.current] }

section Eval

variable {shape : Shape} {w : World} {b c : UInt8} {u rest : List UInt8}

theorem World.pointer_initial_lt {cells : Nat} (h : 0 < cells) (input : List UInt8) :
    (World.initial cells input).pointer < (World.initial cells input).cells.length := by
  simpa [World.initial] using h

theorem World.output_initial (cells : Nat) (input : List UInt8) :
    (World.initial cells input).output = [] := rfl

theorem World.carries_fed (h : w.pointer < w.cells.length) (b : UInt8) (rest : List UInt8) :
    (w.fed b rest).Carries b where
  pointer_lt := by simpa [World.fed, World.put] using h
  current := by simp [World.fed, World.put, World.current, h]

theorem World.Carries.output_told (h : w.Carries b) : w.told.output = w.output ++ [b] := by
  have hmod : (b.toNat : Int) % 2 ^ 8 = b.toNat := Int.emod_eq_of_lt (by omega) (by exact_mod_cast b.toNat_lt)
  have hb : UInt8.ofInt b.toNat = b := by rw [UInt8.ofInt, hmod, Int.toNat_natCast, UInt8.ofNat_toNat]
  rw [World.told, h.current, hb]

theorem World.Carries.current_ne_zero (h : w.Carries b) (hb : b ≠ 0) : w.current ≠ 0 := by
  rw [h.current]
  intro hzero
  exact hb (UInt8.toNat_inj.1 (by simpa using hzero))

theorem apply_input (h : w.input = b :: rest) : Command.input.apply shape w = .ok (w.fed b rest) := by
  simp only [Command.apply, h, World.fed]

theorem apply_input_nil (h : w.input = []) :
    Command.input.apply shape w = .error (.read (.text "unexpected end of input")) := by
  simp only [Command.apply, h]

/-- One round of the loop writes a byte and reads the next. -/
theorem eval_round (hw : w.Carries b) (hb : b ≠ 0) (hinput : w.input = c :: rest) {r : Outcome} {n : Nat}
    (h : Eval shape (.repeated echoBody) 2 (w.told.fed c rest) r n) :
    Eval shape (.repeated echoBody) 2 w r (n + 3) := by
  rw [Nat.add_comm n 3, Nat.add_right_comm 2 1 n]
  exact .again (hw.current_ne_zero hb) (.command rfl (.command (apply_input hinput) .nil)) h

/-- **A round for each byte before the rest**, where no byte is zero. The last of them is in the current cell
then, and what came before it has been written. -/
theorem eval_rounds (hu : 0 ∉ u) (hw : w.Carries b) (hb : b ≠ 0) (hinput : w.input = u ++ rest) :
    ∃ v x, v.Carries x ∧ x ≠ 0 ∧ v.input = rest ∧ v.output ++ [x] = w.output ++ b :: u ∧
      ∀ r n, Eval shape (.repeated echoBody) 2 v r n →
        Eval shape (.repeated echoBody) 2 w r (n + 3 * u.length) := by
  induction u generalizing w b with
  | nil => exact ⟨w, b, hw, hb, hinput, rfl, fun r n h => h⟩
  | cons c u ih =>
    obtain ⟨hc, hu⟩ := not_or.1 (mt List.mem_cons.2 hu)
    obtain ⟨v, x, hv, hx, hrest, houtput, hlater⟩ :=
      ih hu (World.carries_fed (w := w.told) hw.pointer_lt c _) (Ne.symm hc) rfl
    refine ⟨v, x, hv, hx, hrest, ?_, fun r n h => ?_⟩
    · rw [houtput]
      show w.told.output ++ c :: u = _
      rw [hw.output_told, List.append_assoc, List.singleton_append]
    · rw [List.length_cons, Nat.mul_succ, ← Nat.add_assoc]
      exact eval_round hw hb hinput (hlater r n h)

/-- **The loop up to a zero** writes the byte that it starts with and all that it reads before the zero. -/
theorem eval_rounds_done (hu : 0 ∉ u) (hw : w.Carries b) (hb : b ≠ 0)
    (hinput : w.input = u ++ 0 :: rest) :
    ∃ v, Eval shape (.repeated echoBody) 2 w (.done v) (3 + 3 * u.length) ∧
      v.output = w.output ++ b :: u := by
  obtain ⟨v, x, hv, hx, hrest, houtput, hlater⟩ := eval_rounds hu hw hb hinput
  have hnext : (v.told.fed 0 rest).current = 0 := (World.carries_fed hv.pointer_lt 0 rest).current
  exact ⟨_, hlater _ _ (eval_round hv hx hrest (.stop hnext)), hv.output_told.trans houtput⟩

/-- **The loop without a zero** writes the byte that it starts with and all that it reads, and then has
nothing to read. -/
theorem eval_rounds_failed (hu : 0 ∉ u) (hw : w.Carries b) (hb : b ≠ 0) (hinput : w.input = u) :
    ∃ v, Eval shape (.repeated echoBody) 2 w
        (.failed (.read (.text "unexpected end of input")) 3 v) (1 + 3 * u.length) ∧
      v.output = w.output ++ b :: u := by
  obtain ⟨v, x, hv, hx, hrest, houtput, hlater⟩ :=
    eval_rounds hu hw hb (hinput.trans (List.append_nil u).symm)
  refine ⟨_, hlater _ _ (.againFault (hv.current_ne_zero hx) ?_), hv.output_told.trans houtput⟩
  exact .command rfl (.fault (apply_input_nil hrest))

/-- **The program on bytes with a zero** finishes and has written what stands before the zero. -/
theorem eval_echo_done (shape : Shape) (hu : 0 ∉ u) (hw : w.pointer < w.cells.length)
    (hinput : w.input = u ++ 0 :: rest) :
    ∃ v, Eval shape (.row echo) 0 w (.done v) (2 + 3 * u.length) ∧ v.output = w.output ++ u := by
  cases u with
  | nil =>
    have hnext : (w.fed 0 rest).current = 0 := (World.carries_fed hw 0 rest).current
    exact ⟨_, .command (apply_input hinput) (.loop (.stop hnext) .nil), (List.append_nil _).symm⟩
  | cons b u =>
    obtain ⟨hb, hu⟩ := not_or.1 (mt List.mem_cons.2 hu)
    obtain ⟨v, hv, houtput⟩ :=
      eval_rounds_done hu (World.carries_fed hw b _) (Ne.symm hb) rfl
    refine ⟨v, ?_, houtput⟩
    have hcount : 2 + 3 * (b :: u).length = 3 + 3 * u.length + 0 + 1 + 1 := by
      rw [List.length_cons]
      omega
    rw [hcount]
    exact .command (apply_input hinput) (.loop (n := 0) hv .nil)

/-- **The program on bytes without a zero** has written all of them when it finds nothing to read. -/
theorem eval_echo_failed (shape : Shape) (hu : 0 ∉ u) (hw : w.pointer < w.cells.length)
    (hinput : w.input = u) :
    ∃ v, Eval shape (.row echo) 0 w (.failed (.read (.text "unexpected end of input"))
        (if u = [] then 0 else 3) v) (3 * u.length) ∧
      v.output = w.output ++ u := by
  cases u with
  | nil => exact ⟨w, .fault (apply_input_nil hinput), (List.append_nil _).symm⟩
  | cons b u =>
    obtain ⟨hb, hu⟩ := not_or.1 (mt List.mem_cons.2 hu)
    obtain ⟨v, hv, houtput⟩ :=
      eval_rounds_failed hu (World.carries_fed hw b _) (Ne.symm hb) rfl
    refine ⟨v, ?_, houtput⟩
    have hcount : 3 * (b :: u).length = 1 + 3 * u.length + 1 + 1 := by
      rw [List.length_cons]
      omega
    rw [if_neg (List.cons_ne_nil b u), hcount]
    exact .command (apply_input hinput) (.loopFault hv)

end Eval

/-! ### Texts -/

namespace Text

/-- The text before its first NUL character, or all of it. -/
def untilNul (s : String) : String := String.ofList (s.toList.takeWhile (· ≠ '\x00'))

/-- The text with its last line ended. -/
def lineEnded (s : String) : String := if s.toList.getLast? = some '\n' then s else s ++ "\n"

end Text

open Text

/-- The line feed that is missing in the bytes is the one that is missing in the text. -/
theorem lineEnd_encode (s : String) :
    Utf8.encode s ++ lineEnd none (Utf8.encode s) = Utf8.encode (lineEnded s) := by
  have hlast : (Utf8.encode s).getLast? = some LineWriter.newline ↔ s.toList.getLast? = some '\n' :=
    Utf8.getLast?_encode_iff (d := '\n') (by decide)
  by_cases h : s.toList.getLast? = some '\n'
  · rw [lineEnd, if_neg fun hne => hne.1 (hlast.2 h), lineEnded, if_pos h, List.append_nil]
  · rw [lineEnd, if_pos ⟨mt hlast.1 h, rfl⟩, lineEnded, if_neg h, Utf8.encode_append]
    rfl

theorem zero_notMem_encode {s : String} (h : '\x00' ∉ s.toList) : 0 ∉ Utf8.encode s :=
  mt (Utf8.mem_encode_iff (d := '\x00') (by decide)).1 h

theorem encode_eq_nil_iff {s : String} : Utf8.encode s = [] ↔ s = "" := by
  rw [← List.length_eq_zero_iff, Utf8.length_encode, String.utf8ByteSize_eq_zero_iff]

theorem nul_notMem_untilNul (s : String) : '\x00' ∉ (untilNul s).toList := by
  rw [untilNul, String.toList_ofList]
  intro h
  simpa using List.mem_takeWhile_imp h

theorem untilNul_of_notMem {s : String} (h : '\x00' ∉ s.toList) : untilNul s = s := by
  rw [untilNul, List.takeWhile_eq_self_iff.2, String.ofList_toList]
  intro c hc
  simpa using fun heq : c = '\x00' => h (heq ▸ hc)

theorem exists_encode_eq {s : String} (h : '\x00' ∈ s.toList) :
    ∃ rest, Utf8.encode s = Utf8.encode (untilNul s) ++ 0 :: rest := by
  obtain ⟨before, after, hs, hbefore⟩ := List.eq_append_cons_of_mem h
  have huntil : (untilNul s).toList = before := by
    rw [untilNul, String.toList_ofList, hs, List.takeWhile_append_of_pos,
      List.takeWhile_cons_of_neg (by simp), List.append_nil]
    intro c hc
    simpa using fun heq : c = '\x00' => hbefore (heq ▸ hc)
  refine ⟨after.flatMap String.utf8EncodeChar, ?_⟩
  rw [Utf8.encode, Utf8.encode, huntil, hs, List.flatMap_append, List.flatMap_cons]
  rfl

/-! ### Reports -/

/-- The settings of a run that asks for none. -/
def Settings.standard : Settings := ⟨30000, by decide, false, .u8, .none, "False"⟩

/-- Running the program is interpreting its code, which holds the forest. -/
theorem run_echo (room : Room) (source : Option String) (patience : Nat) (input : List UInt8) :
    ∃ code, code.program.source = source ∧ code.fetch? 0 = some ⟨1, 1, .input⟩ ∧
      code.fetch? 3 = some ⟨1, 4, .input⟩ ∧
      Begins code Settings.standard.shape [] echo (start .standard (.ofBytes input) .healthy)
        (.initial 30000 input) ∧
      Evaluation.run room patience source ",[.,]" input .null =
        Evaluation.ofRun (interpret patience code .standard (.ofBytes input) .healthy) := by
  have hflatten : echo.flatten = (Program.ofText source ",[.,]").instructions.toList := rfl
  obtain ⟨code, hcode, hprogram⟩ := Code.exists_ofProgram (p := Program.ofText source ",[.,]") rfl
  refine ⟨code, by rw [hprogram]; rfl, ?_, ?_, ?_, ?_⟩
  · simp only [Code.fetch?, hprogram]; rfl
  · simp only [Code.fetch?, hprogram]; rfl
  · exact ⟨by decide, Forest.placed_of_flatten hcode hflatten, by rw [hprogram]; rfl,
      shows_start .standard (Reader.healthy_ofBytes input) Sink.healthy_healthy, rfl⟩
  · have hlength : lengthOf room (.int 30000) = .ok ⟨30000, by decide⟩ :=
      lengthOfInt_of_le (by decide) (by have := room.le_cells; omega)
    have hsettings : Setup.settings ⟨room, .int 30000, .bool false, .u8, .none⟩ = .ok .standard :=
      Setup.settings_of_lengthOf (n := ⟨30000, by decide⟩) hlength
    have hsetup : Setup.ofConfig room (.ofText source ",[.,]") {} = .ok (code, _, .standard) :=
      Setup.ofConfig_eq_ok rfl hcode rfl hsettings
    exact Evaluation.run_of_setup rfl hsetup patience input

theorem Sink.bytes_healthy : Sink.healthy.bytes = [] := rfl

theorem reportOn_of_bytes {output : Sink} {t : String} (h : output.bytes = Utf8.encode t) (steps : Int)
    (error : Option Error) :
    Evaluation.reportOn output steps error = ⟨t, t.utf8ByteSize, steps, error⟩ := by
  rw [Evaluation.reportOn, h, Utf8.decodeLossy_encode, Utf8.length_encode]

theorem run_echo_of_mem (room : Room) (source : Option String) {s : String} (h : '\x00' ∈ s.toList) {patience : Nat}
    (hpatience : 2 + 3 * (untilNul s).utf8ByteSize < patience) :
    Evaluation.run room patience source ",[.,]" (Utf8.encode s) .null =
      .ok ⟨lineEnded (untilNul s), (lineEnded (untilNul s)).utf8ByteSize,
        2 + 3 * (untilNul s).utf8ByteSize, none⟩ := by
  obtain ⟨rest, hrest⟩ := exists_encode_eq h
  obtain ⟨code, -, -, -, hbegins, hrun⟩ := run_echo room source patience (Utf8.encode s)
  obtain ⟨v, hv, houtput⟩ := eval_echo_done Settings.standard.shape
    (w := .initial 30000 (Utf8.encode s)) (zero_notMem_encode (nul_notMem_untilNul s))
    (World.pointer_initial_lt (by decide) _) hrest
  rw [Utf8.length_encode] at hv
  obtain ⟨hending, hsteps, hbytes⟩ :=
    interpret_of_eval (Reader.healthy_ofBytes _) Sink.healthy_healthy rfl hbegins hv hpatience
  rw [Outcome.world, houtput, World.output_initial, List.nil_append, lineEnd_encode, Sink.bytes_healthy,
    List.nil_append] at hbytes
  rw [hrun, Evaluation.ofRun, hending, hsteps]
  exact congrArg Except.ok (reportOn_of_bytes hbytes _ _)

theorem run_echo_of_notMem (room : Room) (source : Option String) {s : String} (h : '\x00' ∉ s.toList) {patience : Nat}
    (hpatience : 3 * s.utf8ByteSize < patience) :
    Evaluation.run room patience source ",[.,]" (Utf8.encode s) .null =
      .ok ⟨lineEnded s, (lineEnded s).utf8ByteSize, 3 * s.utf8ByteSize,
        some ⟨.read (.text "unexpected end of input"), source,
          some ⟨1, if s = "" then 1 else 4, .input⟩⟩⟩ := by
  obtain ⟨code, hsource, hfirst, hsecond, hbegins, hrun⟩ := run_echo room source patience (Utf8.encode s)
  obtain ⟨v, hv, houtput⟩ := eval_echo_failed Settings.standard.shape
    (w := .initial 30000 (Utf8.encode s)) (zero_notMem_encode h)
    (World.pointer_initial_lt (by decide) _) rfl
  rw [Utf8.length_encode] at hv
  obtain ⟨hending, hsteps, hbytes⟩ :=
    interpret_of_eval (Reader.healthy_ofBytes _) Sink.healthy_healthy rfl hbegins hv hpatience
  rw [Outcome.world, houtput, World.output_initial, List.nil_append, lineEnd_encode, Sink.bytes_healthy,
    List.nil_append] at hbytes
  have hplace : (code.fetch? (if Utf8.encode s = [] then 0 else 3 : Nat)).map Instruction.place =
      some ⟨1, if s = "" then 1 else 4, .input⟩ := by
    by_cases hs : s = ""
    · rw [if_pos (hs ▸ rfl), if_pos hs, Nat.cast_zero, hfirst]
      rfl
    · rw [if_neg (mt encode_eq_nil_iff.1 hs), if_neg hs, Nat.cast_ofNat, hsecond]
      rfl
  rw [hrun, Evaluation.ofRun, hending, hsteps, Outcome.ending, Code.faultAt, hsource, hplace]
  exact congrArg Except.ok (reportOn_of_bytes hbytes _ _)

theorem details_read (reason : Value) (source : Option String) (place : Place) :
    (⟨.read reason, source, some place⟩ : Error).details = .table [
      ("code", .text "READ_ERROR"),
      ("message", .text (⟨.read reason, source, some place⟩ : Error).message),
      ("source", (source.map Value.text).getD .null),
      ("line", .int place.row),
      ("column", .int place.col),
      ("opcode", .text place.opcode.symbol.toString),
      ("reason", reason)] := rfl

/-- **Echoing text gives it back.** On the bytes of any text, with the standard settings, `,[.,]` reports
the text before the first NUL character with its last line ended. With a NUL character the run is
successful and takes two steps and three for each byte. Without one it takes three for each byte, and the
error is that there is nothing left to read, at the second `,` or, on the empty text, at the first. -/
theorem echo_returns_text (room : Room) (source : Option String) (s : String) {patience : Nat}
    (hpatience : 2 + 3 * (untilNul s).utf8ByteSize < patience) :
    ∃ report, Evaluation.run room patience source ",[.,]" (Utf8.encode s) .null = .ok report ∧
      report.output = lineEnded (untilNul s) ∧
      report.outputBytes = (lineEnded (untilNul s)).utf8ByteSize ∧
      ('\x00' ∈ s.toList →
        report.error = none ∧ report.steps = 2 + 3 * (untilNul s).utf8ByteSize) ∧
      ('\x00' ∉ s.toList →
        report.steps = 3 * (untilNul s).utf8ByteSize ∧
        ∃ e, report.error = some e ∧ e.details = .table [
          ("code", .text "READ_ERROR"),
          ("message", .text e.message),
          ("source", (source.map Value.text).getD .null),
          ("line", .int 1),
          ("column", .int (if s = "" then 1 else 4)),
          ("opcode", .text ","),
          ("reason", .text "unexpected end of input")]) := by
  by_cases h : '\x00' ∈ s.toList
  · refine ⟨_, run_echo_of_mem room source h hpatience, ?_⟩
    dsimp only
    exact ⟨rfl, rfl, fun _ => ⟨rfl, rfl⟩, fun hno => absurd h hno⟩
  · rw [untilNul_of_notMem h] at hpatience ⊢
    refine ⟨_, run_echo_of_notMem room source h (by omega), ?_⟩
    dsimp only
    exact ⟨rfl, rfl, fun hyes => absurd hyes h, fun _ => ⟨rfl, _, rfl, details_read _ source _⟩⟩

/-- The first text is cut at the NUL character and ended already; the second is neither. -/
theorem echo_returns_text_accented :
    (∃ report, Evaluation.run .usual 15 none ",[.,]" (Utf8.encode "hé\n\x00no") .null = .ok report ∧
      report.output = "hé\n" ∧ report.outputBytes = 4 ∧ report.error = none ∧ report.steps = 14) ∧
    ∃ report, Evaluation.run .usual 9 none ",[.,]" (Utf8.encode "é") .null = .ok report ∧
      report.output = "é\n" ∧ report.outputBytes = 3 ∧ report.error.isSome ∧ report.steps = 6 := by
  constructor
  · have huntil : untilNul "hé\n\x00no" = "hé\n" := by decide +kernel
    have hended : lineEnded "hé\n" = "hé\n" := by decide +kernel
    obtain ⟨report, hrun, houtput, hbytes, hnul, -⟩ :=
      echo_returns_text .usual none "hé\n\x00no" (show _ < 15 by rw [huntil]; decide)
    rw [huntil, hended] at houtput hbytes
    rw [huntil] at hnul
    exact ⟨report, hrun, houtput, hbytes, hnul (by decide)⟩
  · have huntil : untilNul "é" = "é" := by decide +kernel
    have hended : lineEnded "é" = "é\n" := by decide +kernel
    obtain ⟨report, hrun, houtput, hbytes, -, hno⟩ :=
      echo_returns_text .usual none "é" (show _ < 9 by rw [huntil]; decide)
    rw [huntil, hended] at houtput hbytes
    rw [huntil] at hno
    obtain ⟨hsteps, e, herror, -⟩ := hno (by decide)
    exact ⟨report, hrun, houtput, hbytes, by rw [herror]; rfl, hsteps⟩

end TapeMachine
