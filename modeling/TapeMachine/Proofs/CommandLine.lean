import Mathlib
import TapeMachine.CommandLine.Outcome
import TapeMachine.Proofs.Loading
import TapeMachine.Proofs.Patience
import TapeMachine.Proofs.Precedence

/-!
# The command does what evaluation does

The command takes a file and options, evaluation a text and settings. Both set up a run from the same
configuration and start the same run on a sink that never fails; they differ in what they tell of it. So
they agree as soon as the arguments are understood and the file is read as the text.

## The model

A `Clause` is an option together with its value, or the program. Arguments are those of some clauses in
any order.

## What is proved

* `Text.readInteger_toString`: a written number is read as it was, unless it has too many digits.
* `Options.ofArguments_clauses`: clauses are understood, in whichever order they are given.
* `Program.load_eq`: a file that holds a text gives the program of the text.
* `isWarning_of_mem_interpret`: a run on a sink that never fails gives no warning.
* `command_agrees`: the command leaves behind what the report on the text tells.
* `command_refuses_numeral`: a tape length of 4301 digits is not understood. Evaluation has no such limit.
-/

namespace TapeMachine

/-! ### Numerals -/

namespace Text

theorem digitValue?_of_isDigit {c : Char} (h : c.isDigit = true) :
    digitValue? c = some (c.toNat - '0'.toNat) := by
  simp only [Char.isDigit, Bool.and_eq_true, decide_eq_true_eq] at h
  exact if_pos ⟨h.1, h.2⟩

theorem isBlank_of_isDigit {c : Char} (h : c.isDigit = true) : isBlank c = false := by
  have hrange : 48 ≤ c.toNat ∧ c.toNat ≤ 57 := by
    simpa [Char.isDigit, UInt32.le_iff_toNat_le] using h
  simp only [isBlank, Bool.or_eq_false_iff, Bool.and_eq_false_imp, decide_eq_true_eq,
    decide_eq_false_iff_not, beq_eq_false_iff_ne]
  omega

theorem readSign_of_isDigit {c : Char} (h : c.isDigit = true) (cs : List Char) :
    readSign (c :: cs) = (false, c :: cs) := by
  unfold readSign
  split
  · next heq =>
    cases heq
    cases h
  · next heq =>
    cases heq
    cases h
  · rfl

/-- Digits are read to their end. -/
theorem readDigits_of_isDigit {cs : List Char} (h : ∀ c ∈ cs, c.isDigit = true) (v n : Nat)
    (afterDigit : Bool) (hsome : cs ≠ [] ∨ afterDigit = true) :
    readDigits cs v n afterDigit = some (Nat.ofDigitChars 10 cs v, n + cs.length, []) := by
  induction cs generalizing v n afterDigit with
  | nil =>
    have hafter : afterDigit = true := by simpa using hsome
    rw [readDigits, hafter]
    simp
  | cons c cs ih =>
    rw [readDigits, digitValue?_of_isDigit (h c List.mem_cons_self)]
    dsimp only
    rw [ih (fun d hd => h d (List.mem_cons_of_mem c hd)) _ _ true (.inr rfl), Nat.ofDigitChars_cons,
      List.length_cons, Nat.add_assoc, Nat.add_comm 1]

/-- **A written number is read as it was**, unless it has too many digits. -/
theorem readInteger_toString (n : Nat) :
    readInteger (toString n) =
      if n < 10 ^ maxLiteralDigits then .ok n else .error (.tooLong (Nat.toDigits 10 n).length) := by
  have hdigits : ∀ c ∈ Nat.toDigits 10 n, c.isDigit = true :=
    fun c hc => Nat.isDigit_of_mem_toDigits (by decide) (by decide) hc
  obtain ⟨c, cs, hcs⟩ := List.exists_cons_of_ne_nil (Nat.toDigits_ne_nil (n := n) (b := 10))
  have hc : c.isDigit = true := hdigits c (by rw [hcs]; exact List.mem_cons_self)
  have hlist : (toString n).toList = Nat.toDigits 10 n := by simp
  have hlength : (Nat.toDigits 10 n).length ≤ maxLiteralDigits ↔ n < 10 ^ maxLiteralDigits :=
    Nat.length_toDigits_le_iff (by decide) (by decide)
  have hread := readDigits_of_isDigit hdigits 0 0 false (.inl Nat.toDigits_ne_nil)
  rw [Nat.ofDigitChars_ten_toDigits, Nat.zero_add] at hread
  unfold readInteger
  rw [hlist, hcs, List.dropWhile_cons_of_neg (by simp [isBlank_of_isDigit hc]),
    readSign_of_isDigit hc, ← hcs]
  simp only [hread]
  by_cases hn : n < 10 ^ maxLiteralDigits
  · rw [if_neg (Nat.not_lt.2 (hlength.2 hn)), if_pos hn]
    rfl
  · rw [if_pos (Nat.lt_of_not_le (mt hlength.1 hn)), if_neg hn]

theorem head?_toString (n : Nat) : (toString n).toList.head? ≠ some '-' := by
  have hlist : (toString n).toList = Nat.toDigits 10 n := by simp
  rw [hlist]
  intro h
  have hdigit : '-'.isDigit = true :=
    Nat.isDigit_of_mem_toDigits (by decide) (by decide) (List.mem_of_head? h)
  cases hdigit

end Text

namespace CommandLine

/-! ### Arguments -/

/-- The program, or an option with its value. -/
inductive Clause where
  | program (path : String)
  | cells (n : Nat)
  | extensible
  | cellBits (bits : Nat)
  deriving DecidableEq

namespace Clause

/-- How a clause is written. -/
def arguments : Clause → List String
  | .program path => [path]
  | .cells n => ["-c", toString n]
  | .extensible => ["-e"]
  | .cellBits bits => ["--cell-bits", toString bits]

/-- How a clause is understood. -/
def tokens : Clause → List Token
  | .program path => [.value path]
  | .cells n => [.option .cells true none, .value (toString n)]
  | .extensible => [.option .extensible true none]
  | .cellBits bits => [.option .cellBits false none, .value (toString bits)]

/-- The program that a clause names. -/
def program? : Clause → Option String
  | .program path => some path
  | _ => none

/-- What a clause asks for. -/
def apply (g : Gathered) : Clause → Gathered
  | .program path => { g with program := some path }
  | .cells n => { g with cells := .int n }
  | .extensible => { g with extensible := true }
  | .cellBits bits => { g with cellBits := .int bits }

/-- A clause that can be acted on: its path cannot be taken for an option, and its numbers are in
range. -/
def Sound : Clause → Prop
  | .program path => path.toList.head? ≠ some '-'
  | .cells n => 1 ≤ n ∧ n < 10 ^ Text.maxLiteralDigits
  | .extensible => True
  | .cellBits bits => (CellKind.ofBits? bits).isSome = true

end Clause

/-- An argument that does not start with a dash is a value. -/
theorem Token.ofText_of_head? {a : String} (h : a.toList.head? ≠ some '-') :
    a ≠ "--" ∧ ofText a = .ok (.value a) := by
  refine ⟨?_, ?_⟩
  · rintro rfl
    exact h (by decide)
  · unfold ofText
    split
    · next heq => exact absurd (by rw [heq]; rfl) h
    · next heq => exact absurd (by rw [heq]; rfl) h
    · rfl

theorem Token.ofArguments_cons {a : String} {t : Token} (h : a ≠ "--" ∧ ofText a = .ok t)
    {rest : List String} {ts : List Token} (hrest : ofArguments rest = .ok ts) :
    ofArguments (a :: rest) = .ok (t :: ts) := by
  rw [ofArguments, if_neg h.1, h.2]
  dsimp only
  rw [hrest]

theorem Token.ofArguments_clauses {l : List Clause}
    (h : ∀ path, .program path ∈ l → path.toList.head? ≠ some '-') :
    ofArguments (l.flatMap Clause.arguments) = .ok (l.flatMap Clause.tokens) := by
  induction l with
  | nil => rfl
  | cons c l ih =>
    have hrest := ih fun path hpath => h path (List.mem_cons_of_mem c hpath)
    rw [List.flatMap_cons, List.flatMap_cons]
    cases c with
    | program path => exact ofArguments_cons (ofText_of_head? (h path List.mem_cons_self)) hrest
    | cells n =>
      exact ofArguments_cons ⟨by decide, by decide⟩
        (ofArguments_cons (ofText_of_head? (Text.head?_toString n)) hrest)
    | extensible => exact ofArguments_cons ⟨by decide, by decide⟩ hrest
    | cellBits bits =>
      exact ofArguments_cons ⟨by decide, by decide⟩
        (ofArguments_cons (ofText_of_head? (Text.head?_toString bits)) hrest)

namespace Gathered

theorem readCells_toString {n : Nat} (hn : 1 ≤ n) (hlt : n < 10 ^ Text.maxLiteralDigits) :
    readCells (toString n) = .ok n := by
  rw [readCells, Text.readInteger_toString, if_pos hlt]
  exact if_neg (by omega)

theorem readBits_toString {bits : Nat} (h : (CellKind.ofBits? bits).isSome = true) :
    readBits (toString bits) = .ok bits := by
  obtain ⟨k, hk, hbits⟩ := List.find?_isSome.1 h
  have hsmall : ∀ k ∈ CellKind.supported, k.bits < 10 ^ 2 := by decide
  have hlt : bits < 10 ^ Text.maxLiteralDigits := by
    have hle : 10 ^ 2 ≤ 10 ^ Text.maxLiteralDigits := Nat.pow_le_pow_right (by decide) (by decide)
    have heq : k.bits = bits := by simpa using hbits
    exact heq ▸ Nat.lt_of_lt_of_le (hsmall k hk) hle
  rw [readBits, Text.readInteger_toString, if_pos hlt]
  exact if_pos h

theorem readValue_toString {read : String → Except UsageError Int} {n : Nat}
    (h : read (toString n) = .ok n) : readValue read (toString n) = .ok (.int n) := by
  rw [readValue, if_neg (Token.ofText_of_head? (Text.head?_toString n)).1, h]

/-- The first value is the program, unless a marker follows. -/
theorem takeTokens_value {g : Gathered} (hg : g.program = none) (text : String) {rest : List Token}
    (hrest : rest.head? ≠ some .marker) :
    g.takeTokens (.value text :: rest) = { g with program := some text }.takeTokens rest := by
  rw [takeTokens, hg]
  · rfl
  · rintro rest' rfl
    exact hrest rfl

/-- An option that takes a value takes the one that follows. -/
theorem takeTokens_valued (g : Gathered) {f : Flag} (hf : f.takesValue = true) (short : Bool)
    (text : String) (rest : List Token) :
    g.takeTokens (.option f short none :: .value text :: rest) =
      match g.setValued f text with
      | .error s => .error s
      | .ok g => g.takeTokens rest := by
  rw [takeTokens, Cluster.ofToken, Cluster.ofLetters, if_pos hf]
  cases hset : g.setValued f text with
  | error _ | ok _ => simp only [setCluster, setPlain, hset]

theorem head?_flatMap_tokens (l : List Clause) : (l.flatMap Clause.tokens).head? ≠ some .marker := by
  cases l with
  | nil => simp
  | cons c l => cases c <;> simp [Clause.tokens]

/-- Clauses are taken one after the other, if they name one program between them. -/
theorem takeTokens_clauses {l : List Clause} {g : Gathered} (h : ∀ c ∈ l, c.Sound)
    (hone : g.program.toList.length + (l.filterMap Clause.program?).length ≤ 1) :
    g.takeTokens (l.flatMap Clause.tokens) = .ok (l.foldl Clause.apply g) := by
  induction l generalizing g with
  | nil => rw [List.flatMap_nil, takeTokens, List.foldl_nil]
  | cons c l ih =>
    have hl : ∀ d ∈ l, d.Sound := fun d hd => h d (List.mem_cons_of_mem c hd)
    have hc := h c List.mem_cons_self
    rw [List.flatMap_cons, List.foldl_cons]
    cases c with
    | program path =>
      simp only [List.filterMap_cons, Clause.program?, List.length_cons] at hone
      have hg : g.program = none := by
        cases hp : g.program with
        | none => rfl
        | some _ =>
          simp only [hp, Option.toList_some, List.length_singleton] at hone
          omega
      rw [Clause.tokens, List.singleton_append, takeTokens_value hg path (head?_flatMap_tokens l)]
      exact ih hl (by simp only [Option.toList_some, List.length_singleton]; omega)
    | cells n =>
      have hset : g.setValued .cells (toString n) = .ok (Clause.apply g (.cells n)) := by
        rw [setValued, readValue_toString (readCells_toString hc.1 hc.2)]
        rfl
      rw [Clause.tokens, List.cons_append, List.singleton_append, takeTokens_valued g rfl, hset]
      exact ih hl hone
    | extensible =>
      rw [Clause.tokens, List.singleton_append, takeTokens]
      exact ih hl hone
    | cellBits bits =>
      have hset : g.setValued .cellBits (toString bits) = .ok (Clause.apply g (.cellBits bits)) := by
        rw [setValued, readValue_toString (readBits_toString hc)]
        rfl
      rw [Clause.tokens, List.cons_append, List.singleton_append, takeTokens_valued g rfl, hset]
      exact ih hl hone

end Gathered

/-- The clauses that ask for a run of a program. -/
def Clause.all (path : String) (cells : Nat) (extensible : Bool) (bits : Nat) : List Clause :=
  .program path :: .cells cells :: .cellBits bits :: if extensible then [.extensible] else []

theorem Clause.mem_all {path : String} {cells bits : Nat} {extensible : Bool} {c : Clause}
    (h : c ∈ all path cells extensible bits) :
    c = .program path ∨ c = .cells cells ∨ c = .cellBits bits ∨ c = .extensible := by
  cases extensible with
  | false =>
    have hthree : c = .program path ∨ c = .cells cells ∨ c = .cellBits bits := by
      simpa [all] using h
    exact hthree.imp_right (.imp_right .inl)
  | true => simpa [all] using h

/-- The options that these clauses ask for. -/
def Options.plain (path : String) (cells : Nat) (extensible : Bool) (bits : Nat) : Options :=
  ⟨path, .int cells, extensible, .int bits, false, false⟩

/-- **Clauses are understood in whichever order they are given.** -/
theorem Options.ofArguments_clauses {path : String} {cells bits : Nat} {extensible : Bool}
    (hpath : path.toList.head? ≠ some '-') (hcells : 1 ≤ cells)
    (hshort : cells < 10 ^ Text.maxLiteralDigits) (hbits : (CellKind.ofBits? bits).isSome = true)
    {clauses : List Clause} (hclauses : clauses.Perm (Clause.all path cells extensible bits)) :
    ofArguments (clauses.flatMap Clause.arguments) = .ok (plain path cells extensible bits) := by
  have hsound : ∀ c ∈ clauses, c.Sound := by
    intro c hc
    rcases Clause.mem_all (hclauses.mem_iff.1 hc) with rfl | rfl | rfl | rfl
    exacts [hpath, ⟨hcells, hshort⟩, hbits, trivial]
  have hone : (clauses.filterMap Clause.program?).length ≤ 1 := by
    rw [(hclauses.filterMap Clause.program?).length_eq]
    cases extensible <;> exact Nat.le_refl 1
  -- no two of the clauses set one option to different values
  have hfold : clauses.foldl Clause.apply {} =
      (Clause.all path cells extensible bits).foldl Clause.apply {} := by
    refine hclauses.foldl_eq' ?_ ({} : Gathered)
    intro c hc d hd g
    rcases Clause.mem_all (hclauses.mem_iff.1 hc) with rfl | rfl | rfl | rfl <;>
      rcases Clause.mem_all (hclauses.mem_iff.1 hd) with rfl | rfl | rfl | rfl <;> rfl
  have htake := Gathered.takeTokens_clauses (g := {}) hsound (by simpa using hone)
  rw [ofArguments, Token.ofArguments_clauses fun path hmem => hsound (.program path) hmem]
  dsimp only
  rw [htake, hfold]
  cases extensible <;> rfl

end CommandLine

/-! ### Loading -/

theorem Text.lineFeeds_eq_self {cs : List Char} (h : '\r' ∉ cs) : lineFeeds cs = cs := by
  fun_induction lineFeeds cs with
  | case1 => rfl
  | case2 | case3 => exact absurd List.mem_cons_self h
  | case4 c cs _ _ ih => rw [ih fun hcs => h (List.mem_cons_of_mem c hcs)]

/-- **A file that holds a text gives the program of the text.** -/
theorem Program.load_eq {files : FileTree} {path text : String}
    (hread : files.read (.ofText path) = .ok (Text.Utf8.encode text))
    (hreturn : '\r' ∉ text.toList) : load files path = .ok (.ofText (some path) text) := by
  rw [load_encode hread, Text.lineFeeds_eq_self hreturn, String.ofList_toList]

/-! ### The log -/

/-- **A run on streams that never fail gives no warning.** -/
theorem isWarning_of_mem_interpret {fuel : Nat} {code : Code} {settings : Settings} {input : Reader}
    {output : Sink} (hinput : input.Healthy) (houtput : output.Healthy) {e : Event}
    (he : e ∈ (interpret fuel code settings input output).log) : e.isWarning = false := by
  unfold interpret at he
  have hlog : ∀ e ∈ (runFor code settings.caps fuel (.initial settings)
      ⟨input, .onto output, [settings.started code.program]⟩).2.2.log, e.isWarning = false :=
    fun _ => isWarning_of_mem_started
  have hhealthy := (Snapshot.runFor_spec code settings.caps fuel (.initial settings)
    ⟨input, .onto output, [settings.started code.program]⟩).keeps
      (fun _ _ _ hst hs => hst.healthy hs) rfl (Nat.zero_le fuel) ⟨hinput, houtput⟩
  generalize runFor code settings.caps fuel _ _ = run at he hlog hhealthy
  obtain ⟨ending, m, io⟩ := run
  have hsink : io.output.sink.Healthy := hhealthy.2
  cases ending with
  | finished =>
    obtain ⟨w, hw⟩ := LineWriter.exit_of_healthy hsink false
    simp only [Run.close, hw, List.mem_reverse, List.mem_cons] at he
    rcases he with rfl | he
    · rfl
    · exact hlog e he
  | failed f =>
    obtain ⟨w, hw⟩ := LineWriter.exit_of_healthy hsink true
    simp only [Run.close, hw, List.append_nil, List.mem_reverse] at he
    exact hlog e he
  | unfinished => exact hlog e (List.mem_reverse.1 he)

namespace CommandLine

/-- Nothing is told of events that are no warnings, unless details are asked for. -/
theorem told_eq_empty {events : List Event} (h : ∀ e ∈ events, e.isWarning = false) :
    told false events = "" := by
  have hnone : events.filter (fun e => false || e.isWarning) = [] :=
    List.filter_eq_nil_iff.2 fun e he => by simp [h e he]
  rw [told, hnone]
  rfl

/-! ### The command and the report -/

/-- The settings that ask for a run without caps. -/
def plainSettings (cells : Nat) (extensible : Bool) (bits : Nat) : Value :=
  .table [("cells", .int cells), ("extensible", .bool extensible), ("cell_bits", .int bits)]

/-- An outcome tells what a report says: the status whether there was an error, standard output the
output, and the error stream the message of the error. -/
structure Outcome.Tells (o : Outcome) (r : Report) : Prop where
  status : o.status = if r.error.isSome then 1 else 0
  outputBytes : o.output.length = r.outputBytes
  output : Text.Utf8.decodeLossy o.output = r.output
  silent : r.error = none → o.errors = ""
  errors : ∀ e, r.error = some e → ∃ message, e.details.field? "message" = some (.text message) ∧
    o.errors = "error: " ++ message ++ "\n"

theorem ofSettings_plainSettings (path : String) (cells : Nat) (extensible : Bool) (bits : Nat) :
    Config.ofSettings (plainSettings cells extensible bits) =
      .ok (Options.plain path cells extensible bits).config := rfl

theorem tells_failed (output : Sink) {events : List Event} (h : ∀ e ∈ events, e.isWarning = false)
    (steps : Int) (e : Error) :
    (failed false output.bytes events e).Tells (Evaluation.reportOn output steps (some e)) where
  status := rfl
  outputBytes := rfl
  output := rfl
  silent hnone := nomatch hnone
  errors e' he := by
    cases he
    have htold : told false (events ++ [.runFailed e.code]) = "" := by
      refine told_eq_empty fun d hd => ?_
      rcases List.mem_append.1 hd with hd | hd
      · exact h d hd
      · rw [List.mem_singleton.1 hd]
        rfl
    refine ⟨e.message, rfl, ?_⟩
    simp only [failed, htold, String.empty_append]

theorem ended_of_ofRun {run : Run} (hlog : ∀ e ∈ run.log, e.isWarning = false) {report : Report}
    (h : Evaluation.ofRun run = .ok report) :
    ∃ outcome, ended false run = .ok outcome ∧ outcome.Tells report := by
  obtain ⟨error, hverdict, rfl⟩ := Evaluation.ofRun_eq_ok h
  unfold ended
  rw [hverdict]
  cases error with
  | none =>
    refine ⟨_, rfl, rfl, rfl, rfl, fun _ => told_eq_empty hlog, ?_⟩
    intro e he
    cases he
  | some e => exact ⟨_, rfl, tells_failed run.output hlog _ e⟩

/-- A run without caps tells what its report says, however patient it is beyond that. -/
theorem perform_of_run {room : Room} {patience : Nat} {path text : String} {input : List UInt8}
    {cells bits : Nat} {extensible : Bool} {report : Report}
    (h : Evaluation.run room patience (some path) text input (plainSettings cells extensible bits) =
      .ok report) :
    ∃ outcome, (∀ patience', patience ≤ patience' →
      perform room patience' (.plain path cells extensible bits) (.ofText (some path) text) input =
        .ok outcome) ∧ outcome.Tells report := by
  unfold Evaluation.run at h
  rw [ofSettings_plainSettings path] at h
  dsimp only at h
  split at h
  · next e hsetup =>
    cases h
    refine ⟨failed false [] [] e, fun patience' _ => ?_, tells_failed .healthy (by simp) 0 e⟩
    rw [perform, hsetup]
    rfl
  · cases h
  · next code setup s hsetup =>
    have hfuel : s.caps.fuel patience = patience := by
      rw [Setup.caps_of_ofConfig hsetup]
      rfl
    rw [hfuel] at h
    obtain ⟨outcome, hended, htells⟩ := ended_of_ofRun (fun e he => isWarning_of_mem_interpret
      (Reader.healthy_ofBytes input) Sink.healthy_healthy he) h
    refine ⟨outcome, fun patience' hle => ?_, htells⟩
    have hends : (interpret patience code s (.ofBytes input) .healthy).ending ≠ .unfinished := by
      intro hunfinished
      rw [Evaluation.ofRun, hunfinished] at h
      cases h
    rw [perform, hsetup]
    dsimp only [Options.plain]
    rw [interpret_of_le hle hends]
    exact hended

/-- **The command agrees with evaluation.** If a text has a report, then the command, given a file
that holds the text and the same settings in any order, ends and tells what the report says. -/
theorem command_agrees {room : Room} {patience : Nat} {files : FileTree} {path text : String}
    {input : List UInt8} {cells bits : Nat} {extensible : Bool} {report : Report}
    (hread : files.read (.ofText path) = .ok (Text.Utf8.encode text))
    (hreturn : '\r' ∉ text.toList) (hpath : path.toList.head? ≠ some '-') (hcells : 1 ≤ cells)
    (hshort : cells < 10 ^ Text.maxLiteralDigits) (hbits : (CellKind.ofBits? bits).isSome = true)
    {clauses : List Clause} (hclauses : clauses.Perm (Clause.all path cells extensible bits))
    (hrun : Evaluation.run room patience (some path) text input (plainSettings cells extensible bits) =
      .ok report) :
    ∃ outcome, (∀ patience', patience ≤ patience' →
      respond room patience' files (clauses.flatMap Clause.arguments) input = .ok outcome) ∧
      outcome.Tells report := by
  obtain ⟨outcome, hperform, htells⟩ := perform_of_run hrun
  refine ⟨outcome, fun patience' hle => ?_, htells⟩
  rw [respond, Options.ofArguments_clauses hpath hcells hshort hbits hclauses]
  dsimp only
  rw [show (Options.plain path cells extensible bits).program = path from rfl,
    Program.load_eq hread hreturn]
  exact hperform patience' hle

/-- A byte is echoed before the pointer falls off the tape, and the arguments are in another order. -/
theorem command_agrees_partial :
    let files : FileTree := ⟨[], [(["p.bf"], Text.Utf8.encode ",.\n<é")]⟩
    let clauses : List Clause := [.extensible, .cells 5, .program "p.bf", .cellBits 16]
    files.read (.ofText "p.bf") = .ok (Text.Utf8.encode ",.\n<é") ∧
      clauses.flatMap Clause.arguments = ["-e", "-c", "5", "p.bf", "--cell-bits", "16"] ∧
      ∃ report, Evaluation.run .usual 9 (some "p.bf") ",.\n<é" [65] (plainSettings 5 true 16) = .ok report ∧
        report.error.isSome = true ∧ ∃ outcome, (∀ patience, 9 ≤ patience →
          respond .usual patience files (clauses.flatMap Clause.arguments) [65] = .ok outcome) ∧
          outcome.Tells report := by
  have hread : (⟨[], [(["p.bf"], Text.Utf8.encode ",.\n<é")]⟩ : FileTree).read (.ofText "p.bf") =
      .ok (Text.Utf8.encode ",.\n<é") := rfl
  have hrun : ∃ report, Evaluation.run .usual 9 (some "p.bf") ",.\n<é" [65]
      (plainSettings 5 true 16) = .ok report ∧ report.error.isSome = true := ⟨_, rfl, rfl⟩
  obtain ⟨report, hreport, herror⟩ := hrun
  refine ⟨hread, by cbv, report, hreport, herror, ?_⟩
  exact command_agrees hread (by decide) (by decide) (by decide)
    (Nat.lt_of_lt_of_le (by decide : 5 < 10 ^ 1) (Nat.pow_le_pow_right (by decide) (by decide)))
    (by decide) (by decide) hreport

/-! ### Numerals that are too long -/

/-- A tape length with too many digits is a usage error. -/
theorem Options.ofArguments_of_long {path : String} {cells : Nat} (bits : Nat)
    (hpath : path.toList.head? ≠ some '-') (hlong : 10 ^ Text.maxLiteralDigits ≤ cells) :
    ofArguments ((Clause.all path cells false bits).flatMap Clause.arguments) =
      .error (.usage (.badCells (toString cells))) := by
  have hset : ∀ g : Gathered, g.setValued .cells (toString cells) =
      .error (.usage (.badCells (toString cells))) := by
    intro g
    rw [Gathered.setValued, Gathered.readValue,
      if_neg (Token.ofText_of_head? (Text.head?_toString cells)).1, Gathered.readCells,
      Text.readInteger_toString, if_neg (Nat.not_lt.2 hlong)]
    rfl
  have htokens := Token.ofArguments_clauses (l := Clause.all path cells false bits) (by
    intro path' hmem
    rcases Clause.mem_all hmem with h | h | h | h <;> cases h
    exact hpath)
  rw [ofArguments, htokens]
  simp only [Clause.all, Clause.tokens, Bool.false_eq_true, if_false, List.append_nil,
    List.flatMap_cons, List.flatMap_nil, List.cons_append, List.nil_append]
  rw [Gathered.takeTokens_value rfl path (by simp), Gathered.takeTokens_valued _ rfl, hset]

theorem checkLength_of_pos {n : Nat} (h : 1 ≤ n) : checkLength (.int n) = .ok () := by
  rw [checkLength, if_neg (by omega)]

/-- **The command does not agree on every tape length.** With one of 4301 digits evaluation reports an
unmatched bracket, and the command a usage error. -/
theorem command_refuses_numeral :
    let files : FileTree := ⟨[], [(["p.bf"], Text.Utf8.encode "]")]⟩
    let cells : Nat := 10 ^ Text.maxLiteralDigits
    files.read (.ofText "p.bf") = .ok (Text.Utf8.encode "]") ∧ 1 ≤ cells ∧
      ∃ report, (∀ room, Evaluation.run room 0 (some "p.bf") "]" [] (plainSettings cells false 8) =
          .ok report) ∧
        ∃ outcome, (∀ room patience, respond room patience files
          ((Clause.all "p.bf" cells false 8).flatMap Clause.arguments) [] = .ok outcome) ∧
          outcome.status = 2 ∧ ¬ outcome.Tells report := by
  have hread : (⟨[], [(["p.bf"], Text.Utf8.encode "]")]⟩ : FileTree).read (.ofText "p.bf") =
      .ok (Text.Utf8.encode "]") := rfl
  have hcode : ∃ e, Code.ofProgram (.ofText (some "p.bf") "]") = .error e := ⟨_, rfl⟩
  obtain ⟨e, hcode⟩ := hcode
  have hpos : 1 ≤ 10 ^ Text.maxLiteralDigits := Nat.one_le_pow _ _ (by decide)
  have hlong : 10 ^ Text.maxLiteralDigits ≤ 10 ^ Text.maxLiteralDigits := Nat.le_refl _
  -- the length is not looked at, only that it is long
  intro files cells
  change 1 ≤ cells at hpos
  change _ ≤ cells at hlong
  clear_value cells
  refine ⟨hread, hpos, Evaluation.reportOn .healthy 0 (some e), fun room => ?_, ?_⟩
  · rw [Evaluation.run, ofSettings_plainSettings "p.bf"]
    dsimp only [Options.config, Options.plain]
    rw [Setup.ofConfig]
    dsimp only
    rw [checkLength_of_pos hpos]
    dsimp only
    rw [hcode]
  · refine ⟨(Stop.usage (.badCells (toString cells))).outcome, fun room patience => ?_, rfl, ?_⟩
    · rw [respond, Options.ofArguments_of_long 8 (by decide) hlong]
    · intro h
      exact absurd h.status (by decide : (2 : Nat) ≠ 1)

end CommandLine

end TapeMachine
