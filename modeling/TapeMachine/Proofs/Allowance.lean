import Mathlib
import TapeMachine.Proofs.History

/-!
# What the service allows

A request asks for settings in loosely typed values. The service converts and clamps them, and runs the
text under the allowance that comes out. So an allowance has to be within the ceilings, whatever was asked
for, and a run under it has to give a report, whatever the text and the input are.

## The model

`Allowance.Within` says that an allowance is within the ceilings. `Allowance.Within.settings` are the
settings of the machine that such an allowance stands for.

## What is proved

* `Allowance.ofSettings_eq_ok_iff`: when there is an allowance, and which one.
* `Allowance.Within.run_eq`: running a text under an allowance sets up the machine with these settings;
  nothing but the brackets is left to check.
* `Evaluation.exists_report`: a run of checked code under integer caps, on streams that never fail, has a
  report.
* `clamping_sound`: allowances are within the ceilings and never fail a run.
* `allowed_width`: the width of the cells is the one asked for if it can be used, else the default. An
  infinite number for a width fails the request (`infinite_width_refused`).
-/

namespace TapeMachine

/-! ### Runs that have a report -/

theorem Text.isWritable_of_natAbs_lt {n : Int} {k : Nat} (h : n.natAbs < 10 ^ k)
    (hk : k ≤ maxLiteralDigits) : isWritable n = true :=
  decide_eq_true ((Nat.length_toDigits_le_iff (by decide) (by decide)).2
    (h.trans_le (Nat.pow_le_pow_right (by decide) hk)))

/-- The fault is no failure of a stream, and can be put into words if it is an error. -/
def Fault.Tellable : Fault → Prop
  | .error e _ => e.problem.isWritable = true
  | .failure _ => False
  | .operand _ | .noInstruction _ | .noTarget _ => True

theorem Fault.tellable_locate {φ : Fault} (h : φ.Tellable) (source : Option String) (ins : Instruction) :
    (φ.locate source ins).Tellable := by
  cases φ with
  | error e cause => exact h
  | failure f => exact h.elim
  | operand _ | noInstruction _ | noTarget _ => exact h

theorem tellable_of_capFault? {k : Int} {problem : Limit → Problem} {cap : Option Limit} {φ : Fault}
    (hcap : ∀ l ∈ cap, (problem l).isWritable = true) (h : capFault? k problem cap = some φ) :
    φ.Tellable := by
  unfold capFault? at h
  split at h
  · cases h
  · next l =>
    split at h <;> cases h
    · trivial
    · exact hcap l rfl

namespace Snapshot

variable {s t : Snapshot} {raised : Option Fault}

/-- On streams that never fail a command raises what can be told, if the cap can be written. -/
theorem Executes.tellable {jumps : JumpTable} {cap : Option Limit} {op : Opcode}
    (h : Executes jumps cap s op raised t) (hs : s.Healthy) (hcap : ∀ l ∈ cap, l.isWritable = true) :
    ∀ φ ∈ raised, φ.Tellable := by
  intro φ hφ
  cases h with
  | readFails hfault =>
    rw [hs.1] at hfault
    cases hfault
  | writeFails _ hfault =>
    rw [hs.2.1] at hfault
    cases hfault
  | flushFails _ _ hfault =>
    rw [hs.2.2] at hfault
    cases hfault
  | capped hc =>
    cases hφ
    exact tellable_of_capFault? hcap hc
  | leftEdge _ | rightEdge _ | readEnd _ _ =>
    cases hφ
    rfl
  | openAlone _ _ | closeAlone _ _ =>
    cases hφ
    trivial
  | _ => cases hφ

theorem Stepped.tellable {code : Code} {caps : Caps} (h : Stepped code caps s raised t)
    (hs : s.Healthy) (hsteps : ∀ l ∈ caps.steps, l.isWritable = true)
    (houtput : ∀ l ∈ caps.output, l.isWritable = true) : ∀ φ ∈ raised, φ.Tellable := by
  intro φ hφ
  cases h with
  | finished => cases hφ
  | noInstruction =>
    cases hφ
    trivial
  | capped _ _ hc =>
    cases hφ
    exact Fault.tellable_locate (tellable_of_capFault? hsteps hc) _ _
  | executed _ _ _ he =>
    obtain ⟨ψ, hψ, rfl⟩ := Option.map_eq_some_iff.1 hφ
    exact Fault.tellable_locate (he.tellable hs houtput ψ hψ) _ _

end Snapshot

namespace Evaluation

/-- **A run of checked code has a report**, if it has integers that can be written for caps and streams that
never fail. -/
theorem exists_report {code : Code} {settings : Settings} {maxSteps maxOutput : Int}
    (hcode : code.Complete) (hbits : 8 ≤ settings.kind.bits)
    (hcaps : settings.caps = .ofInts (some maxSteps) (some maxOutput))
    (hsteps : Text.isWritable maxSteps = true) (houtput : Text.isWritable maxOutput = true) {fuel : Nat}
    (hfuel : maxSteps.toNat < fuel) (input : List UInt8) :
    ∃ report, ofRun (interpret fuel code settings (.ofBytes input) .healthy) = .ok report := by
  have hcount : settings.caps.steps = some (.count maxSteps) := by rw [hcaps]; rfl
  obtain ⟨k, t, e, hk, ht, he⟩ : ∃ (k : Nat) (t : Snapshot) (e : Ending), (k : Int) ≤ max 0 maxSteps ∧
      (Snapshot.start settings (.ofBytes input) .healthy).after code settings.caps k = some t ∧
      t.ending? code settings.caps = some e := Snapshot.exists_ending?_of_count hcount rfl
  have hhealthy : t.Healthy :=
    Snapshot.healthy_after ht ⟨Reader.healthy_ofBytes input, Sink.healthy_healthy⟩
  have hending := (interpret_of_ending? (Reader.healthy_ofBytes input) Sink.healthy_healthy ht he
    (show k < fuel by omega)).1
  rw [ofRun, hending]
  by_cases hfin : t.Finished code
  · rw [Snapshot.ending?, if_pos hfin] at he
    cases he
    exact ⟨_, rfl⟩
  · rw [Snapshot.ending?, if_neg hfin] at he
    obtain ⟨φ, hφ, rfl⟩ := Option.map_eq_some_iff.1 he
    have hst := Snapshot.stepped code settings.caps t
    have hkept : Kept code settings (some maxSteps) (some maxOutput) t.machine :=
      (Kept.initial code settings (some maxSteps) (some maxOutput)).after hcode hbits (hcaps ▸ ht)
    have hexpected : φ.Expected := (hkept.stepped hcode hbits (hcaps ▸ hst)).2 φ (hcaps ▸ hφ)
    have htellable : φ.Tellable := by
      refine hst.tellable hhealthy ?_ ?_ φ hφ
      · rw [hcaps]
        rintro l ⟨⟩
        exact hsteps
      · rw [hcaps]
        rintro l ⟨⟩
        exact houtput
    cases φ with
    | error error cause =>
      have hwritable : error.problem.isWritable = true := htellable
      rw [Ending.verdict, if_pos hwritable]
      exact ⟨_, rfl⟩
    | failure failure => exact htellable.elim
    | operand _ | noInstruction _ | noTarget _ => exact hexpected.elim

end Evaluation

namespace Service

/-! ### Allowances -/

theorem clampTo_mem {ceiling : Int} (h : 1 ≤ ceiling) (n : Int) :
    1 ≤ clampTo ceiling n ∧ clampTo ceiling n ≤ ceiling := by
  unfold clampTo
  omega

theorem clampTo_le (ceiling n : Int) : clampTo ceiling n ≤ max 1 n := by
  unfold clampTo
  omega

theorem clampTo_eq_self {ceiling n : Int} (h : 1 ≤ n ∧ n ≤ ceiling) : clampTo ceiling n = n := by
  unfold clampTo
  omega

theorem clampField_eq_ok_iff {settings : Value} {name : String} {default ceiling n : Int} :
    clampField settings name default ceiling = .ok n ↔
      ∃ k, (settings.fieldD name (.int default)).toInt = .ok k ∧ n = clampTo ceiling k := by
  unfold clampField
  cases (settings.fieldD name (.int default)).toInt with
  | error e => simp
  | ok k => simp [eq_comm]

theorem exists_clampField {settings : Value} {name : String}
    (h : ∀ v, settings.field? name = some v → ∃ k, v.toInt = .ok k) (default ceiling : Int) :
    ∃ n, clampField settings name default ceiling = .ok n := by
  suffices hk : ∃ k, (settings.fieldD name (.int default)).toInt = .ok k by
    obtain ⟨k, hk⟩ := hk
    exact ⟨_, clampField_eq_ok_iff.2 ⟨k, hk, rfl⟩⟩
  rw [Value.fieldD]
  cases hfield : settings.field? name with
  | none => exact ⟨default, rfl⟩
  | some v => exact h v hfield

theorem le_of_clampField {settings v : Value} {name : String} {default ceiling n : Int}
    (h : clampField settings name default ceiling = .ok n) (hfield : settings.field? name = some v) :
    ∃ k, v.toInt = .ok k ∧ n ≤ max 1 k := by
  obtain ⟨k, hk, rfl⟩ := clampField_eq_ok_iff.1 h
  rw [Value.fieldD, hfield] at hk
  exact ⟨k, hk, clampTo_le ceiling k⟩

theorem clampField_mem {settings : Value} {name : String} {default ceiling n : Int} (h : 1 ≤ ceiling)
    (hn : clampField settings name default ceiling = .ok n) : 1 ≤ n ∧ n ≤ ceiling := by
  obtain ⟨k, -, rfl⟩ := clampField_eq_ok_iff.1 hn
  exact clampTo_mem h k

theorem isSome_ofBits?_iff {n : Int} :
    (CellKind.ofBits? n).isSome = true ↔ n = 8 ∨ n = 16 ∨ n = 32 ∨ n = 64 := by
  simp only [CellKind.ofBits?, List.find?_isSome, decide_eq_true_eq, CellKind.supported, List.mem_cons,
    List.not_mem_nil, or_false, exists_eq_or_imp, exists_eq_left, CellKind.u8, CellKind.u16,
    CellKind.u32, CellKind.u64]
  omega

theorem isSome_of_allowedBits {settings : Value} {n : Int} (h : allowedBits settings = .ok n) :
    (CellKind.ofBits? n).isSome = true := by
  unfold allowedBits at h
  split at h
  · next k _ =>
    by_cases hk : (CellKind.ofBits? k).isSome = true
    · rw [if_pos hk] at h
      cases h
      exact hk
    · rw [if_neg hk] at h
      cases h
      decide
  · cases h
  · cases h
    decide

namespace Allowance

/-- When there is an allowance, and which one. Settings that are no table must count as no. -/
theorem ofSettings_eq_ok_iff {settings : Value} {a : Allowance} :
    ofSettings settings = .ok a ↔
      (settings.truth = true → settings.isTable = true) ∧
      clampField settings "cells" defaultCells cellCeiling = .ok a.cells ∧
      clampField settings "max_steps" stepCeiling stepCeiling = .ok a.maxSteps ∧
      clampField settings "max_output_bytes" outputCeiling outputCeiling = .ok a.maxOutput ∧
      allowedBits settings = .ok a.cellBits ∧
      a.extensible = (settings.fieldD "extensible" (.bool false)).truth := by
  have htable : (settings.truth && !settings.isTable) = true ↔
      ¬ (settings.truth = true → settings.isTable = true) := by simp
  unfold ofSettings Value.toSettings
  by_cases hfields : settings.truth = true → settings.isTable = true
  · rw [if_neg fun h => htable.1 h hfields]
    dsimp only
    constructor
    · intro h
      unfold ofFields at h
      split at h
      · cases h
      · next hcells =>
        split at h
        · cases h
        · next hsteps =>
          split at h
          · cases h
          · next houtput =>
            split at h <;> cases h
            next hbits => exact ⟨hfields, hcells, hsteps, houtput, hbits, rfl⟩
    · rintro ⟨-, hcells, hsteps, houtput, hbits, hextensible⟩
      simp only [ofFields, hcells, hsteps, houtput, hbits, ← hextensible]
  · rw [if_pos (htable.2 hfields)]
    dsimp only
    exact ⟨fun h => (nomatch h), fun h => absurd h.1 hfields⟩

/-- An allowance within the ceilings. -/
structure Within (a : Allowance) : Prop where
  cells : 1 ≤ a.cells ∧ a.cells ≤ cellCeiling
  maxSteps : 1 ≤ a.maxSteps ∧ a.maxSteps ≤ stepCeiling
  maxOutput : 1 ≤ a.maxOutput ∧ a.maxOutput ≤ outputCeiling
  cellBits : (CellKind.ofBits? a.cellBits).isSome = true

variable {a : Allowance}

/-- Whatever is asked for, the allowance is within the ceilings. -/
theorem within_of_ofSettings {settings : Value} (h : ofSettings settings = .ok a) : a.Within := by
  obtain ⟨-, hcells, hsteps, houtput, hbits, -⟩ := ofSettings_eq_ok_iff.1 h
  exact ⟨clampField_mem (by decide) hcells, clampField_mem (by decide) hsteps,
    clampField_mem (by decide) houtput, isSome_of_allowedBits hbits⟩

namespace Within

theorem ofSettings_toValue (h : a.Within) : ofSettings a.toValue = .ok a := by
  refine ofSettings_eq_ok_iff.2 ⟨fun _ => rfl, ?_, ?_, ?_, ?_, rfl⟩
  · exact congrArg Except.ok (clampTo_eq_self h.cells)
  · exact congrArg Except.ok (clampTo_eq_self h.maxSteps)
  · exact congrArg Except.ok (clampTo_eq_self h.maxOutput)
  · exact congrArg Except.ok (if_pos h.cellBits)

/-- The settings of the machine that an allowance stands for. -/
def settings (h : a.Within) : Settings where
  cells := a.cells.toNat
  cells_pos := by
    have := h.cells
    omega
  extensible := a.extensible
  kind := (CellKind.ofBits? a.cellBits).get h.cellBits
  caps := .ofInts (some a.maxSteps) (some a.maxOutput)

theorem kind_mem (h : a.Within) : h.settings.kind ∈ CellKind.supported :=
  List.mem_of_find?_eq_some (Option.some_get h.cellBits).symm

theorem lengthOf_cells (h : a.Within) (room : Room) :
    lengthOf room (.int a.cells) = .ok ⟨h.settings.cells, h.settings.cells_pos⟩ := by
  have hcells : 1 ≤ a.cells ∧ a.cells ≤ 65536 := h.cells
  have hroom := room.le_cells
  exact lengthOfInt_of_le (by omega) (by omega)

/-- The configuration that an allowance stands for sets up a machine with these settings, once the
brackets match. -/
theorem ofConfig_eq (h : a.Within) {config : Config} (hconfig : Config.ofSettings a.toValue = .ok config)
    (room : Room) (p : Program) :
    Setup.ofConfig room p config =
      match Code.ofProgram p with
      | .error e => .error (.brackets e)
      | .ok code => .ok (code,
          ⟨room, .int a.cells, .bool a.extensible, h.settings.kind, h.settings.caps⟩, h.settings) := by
  have hpos : ¬ a.cells < 1 := by
    have := h.cells
    omega
  have hlength : checkLength (.int a.cells) = .ok () := by rw [checkLength, if_neg hpos]
  have hwidth : widthOf (.int a.cellBits) = .ok h.settings.kind := by
    simp only [widthOf, Value.toInt]
    rw [← Option.some_get h.cellBits]
    rfl
  have hsettings : Setup.settings ⟨room, .int a.cells, .bool a.extensible, h.settings.kind,
      h.settings.caps⟩ = .ok h.settings := by
    rw [Setup.settings_of_lengthOf (h.lengthOf_cells room)]
    rfl
  cases hconfig
  cases hcode : Code.ofProgram p with
  | error e => simp only [Setup.ofConfig, hlength, hcode]
  | ok code => exact Setup.ofConfig_eq_ok hlength hcode hwidth hsettings

/-- **Running a text under an allowance** checks its brackets, and then runs it with these settings and
enough steps to reach the cap. -/
theorem run_eq (h : a.Within) (room : Room) (patience : Nat) (source : Option String) (text : String)
    (input : List UInt8) :
    Evaluation.run room patience source text input a.toValue =
      match Code.ofProgram (.ofText source text) with
      | .error e => .ok (Evaluation.reportOn .healthy 0 (some e))
      | .ok code => Evaluation.ofRun
          (interpret (a.maxSteps.toNat + 1) code h.settings (.ofBytes input) .healthy) := by
  obtain ⟨config, hconfig, -⟩ := Service.ofSettings_toValue a
  rw [Evaluation.run, hconfig]
  dsimp only
  rw [h.ofConfig_eq hconfig]
  cases Code.ofProgram (.ofText source text) <;> rfl

theorem isWritable_caps (h : a.Within) :
    Text.isWritable a.maxSteps = true ∧ Text.isWritable a.maxOutput = true := by
  have hsteps : 1 ≤ a.maxSteps ∧ a.maxSteps ≤ 1000000 := h.maxSteps
  have houtput : 1 ≤ a.maxOutput ∧ a.maxOutput ≤ 5000 := h.maxOutput
  exact ⟨Text.isWritable_of_natAbs_lt (k := 7) (by omega) (by decide),
    Text.isWritable_of_natAbs_lt (k := 4) (by omega) (by decide)⟩

theorem exists_run (h : a.Within) (room : Room) (patience : Nat) (source : Option String) (text : String)
    (input : List UInt8) :
    ∃ report, Evaluation.run room patience source text input a.toValue = .ok report := by
  rw [h.run_eq]
  cases hcode : Code.ofProgram (.ofText source text) with
  | error e => exact ⟨_, rfl⟩
  | ok code =>
    have hcheck : (Program.ofText source text).check = .ok () := by
      unfold Code.ofProgram at hcode
      split at hcode
      · cases hcode
      · next hcheck => exact hcheck
    exact Evaluation.exists_report
      (Code.complete_of_check hcheck hcode (Code.program_of_ofProgram hcode))
      (CellKind.eight_le_bits h.kind_mem) rfl h.isWritable_caps.1 h.isWritable_caps.2
      (Nat.lt_succ_self _) input

end Within

end Allowance

/-! ### Server errors -/

/-- The answer says that the service itself has failed. -/
def Answer.IsServerError (x : Answer) : Prop :=
  ∃ body errors, x = .reply 200 body ∧ body.field? "errors" = some errors ∧
    errors.field? "code" = some (.text "SERVER_ERROR")

theorem code_ne_serverError (e : Error) : e.code ≠ "SERVER_ERROR" := by
  unfold Error.code
  cases e.problem.kind <;> decide

theorem isServerError_serverError (message : String) (durationMs : Int) :
    (Answer.reply 200 (serverError message durationMs)).IsServerError :=
  ⟨_, _, rfl, rfl, rfl⟩

theorem not_isServerError_reportBody (report : Report) (durationMs : Int) (warnings : List String) :
    ¬ (Answer.reply 200 (reportBody report durationMs warnings)).IsServerError := by
  rintro ⟨body, errors, hbody, herrors, hcode⟩
  cases hbody
  rw [field?_reportBody _ _ _ (by simp)] at herrors
  cases hreport : report.error with
  | none =>
    simp [Report.fields, Value.field?, List.lookup, hreport] at herrors
    subst herrors
    cases hcode
  | some e =>
    simp [Report.fields, Value.field?, List.lookup, hreport] at herrors
    subst herrors
    exact code_ne_serverError e (by simpa [Error.details, Value.field?, List.lookup] using hcode)

/-- A run is evaluated if there is an allowance, and only then. -/
theorem evaluate_cases (room : Room) (r : RunRequest) :
    (∃ e, Allowance.ofSettings r.settings = .error e ∧ evaluate room r = .error e.message) ∨
      ∃ a report, Allowance.ofSettings r.settings = .ok a ∧ evaluate room r = .ok report ∧
        Evaluation.run room 0 (some requestSource) r.code (Text.Utf8.encode r.input) a.toValue =
          .ok report := by
  unfold evaluate
  cases hallowance : Allowance.ofSettings r.settings with
  | error e => exact .inl ⟨e, rfl, rfl⟩
  | ok a =>
    obtain ⟨report, hreport⟩ := (Allowance.within_of_ofSettings hallowance).exists_run room 0
      (some requestSource) r.code (Text.Utf8.encode r.input)
    exact .inr ⟨a, report, rfl, by simp only [hreport], hreport⟩

/-- **Clamping is sound.** If settings of any kind give an allowance, then its numbers are from one to their
ceilings and at most what was asked for, or one; its width is one of the four; asking for it gives it once
more; and under it every text has a report on every input. So a request to run a text is answered with a
server error if and only if its settings give no allowance. -/
theorem clamping_sound :
    (∀ (settings : Value) (a : Allowance), Allowance.ofSettings settings = .ok a →
      (1 ≤ a.cells ∧ a.cells ≤ 65536) ∧ (1 ≤ a.maxSteps ∧ a.maxSteps ≤ 1000000) ∧
      (1 ≤ a.maxOutput ∧ a.maxOutput ≤ 5000) ∧
      (a.cellBits = 8 ∨ a.cellBits = 16 ∨ a.cellBits = 32 ∨ a.cellBits = 64) ∧
      (∀ cap ∈ [("cells", a.cells), ("max_steps", a.maxSteps), ("max_output_bytes", a.maxOutput)],
        ∀ v, settings.field? cap.1 = some v → ∃ n, v.toInt = .ok n ∧ cap.2 ≤ max 1 n) ∧
      Allowance.ofSettings a.toValue = .ok a ∧
      ∀ room patience source text input, ∃ report,
        Evaluation.run room patience source text input a.toValue = .ok report) ∧
    ∀ (host : Host) (r : Request) (body : RunRequest), host.read r = .ok (.run body) →
      ∀ now durationMs store, (handle host now durationMs store r).1.IsServerError ↔
        ∃ e, Allowance.ofSettings body.settings = .error e := by
  refine ⟨fun settings a h => ?_, fun host r body hread now durationMs store => ?_⟩
  · have hwithin := Allowance.within_of_ofSettings h
    obtain ⟨-, hcells, hsteps, houtput, -, -⟩ := Allowance.ofSettings_eq_ok_iff.1 h
    refine ⟨hwithin.cells, hwithin.maxSteps, hwithin.maxOutput, isSome_ofBits?_iff.1 hwithin.cellBits, ?_,
      hwithin.ofSettings_toValue, hwithin.exists_run⟩
    intro cap hcap v hv
    simp only [List.mem_cons, List.not_mem_nil, or_false] at hcap
    rcases hcap with rfl | rfl | rfl
    · exact le_of_clampField hcells hv
    · exact le_of_clampField hsteps hv
    · exact le_of_clampField houtput hv
  · rw [handle_of_read hread, serve, runText]
    rcases evaluate_cases host.room body with ⟨e, hallowance, heval⟩ | ⟨a, report, hallowance, heval, -⟩
    · rw [heval]
      exact ⟨fun _ => ⟨e, hallowance⟩, fun _ => isServerError_serverError _ _⟩
    · rw [heval, hallowance]
      constructor
      · intro h
        exact absurd h (not_isServerError_reportBody _ _ _)
      · rintro ⟨_, h⟩
        cases h

/-- Numbers out of range are clamped, a text is read, and a width that is missing is the default. A number of
cells that is no number makes a server error. -/
theorem clamping_sound_loose :
    let settings : Value := .table [("cells", .text " 70_000 "), ("max_steps", .int (-5)),
      ("max_output_bytes", .bool true), ("cell_bits", .null)]
    let a : Allowance := ⟨65536, false, 1, 1, 8⟩
    Allowance.ofSettings settings = .ok a ∧ Allowance.ofSettings a.toValue = .ok a ∧
      (∃ report, Evaluation.run .usual 0 none "+[.>]" [] a.toValue = .ok report) ∧
      ∀ now durationMs store, (handle .usual now durationMs store ⟨"POST", "/run", "", some (.table [
        ("code", .text "+"), ("settings", .table [("cells", .text "many")])])⟩).1.IsServerError := by
  intro settings a
  have ha : Allowance.ofSettings settings = .ok a := rfl
  obtain ⟨-, -, -, -, -, hagain, hruns⟩ := clamping_sound.1 settings a ha
  refine ⟨ha, hagain, hruns .usual 0 none "+[.>]" [], fun now durationMs store => ?_⟩
  exact (clamping_sound.2 .usual _ _ (read_usual_of_ofBody rfl) now durationMs store).2 ⟨_, rfl⟩

/-! ### Widths -/

theorem toInt_eq_infinite_iff {v : Value} :
    v.toInt = .error .infinite ↔ ∃ negative, v = .real (.infinite negative) := by
  constructor
  · intro h
    cases v with
    | real x =>
      cases x with
      | infinite negative => exact ⟨negative, rfl⟩
      | nan | finite _ _ _ => cases h
    | text s =>
      rw [Value.toInt] at h
      split at h <;> cases h
    | null | bool _ | int _ | list _ | table _ => cases h
  · rintro ⟨negative, rfl⟩
    rfl

/-- The width is the one that is asked for if it can be converted and used. Otherwise it is the default,
unless an infinite number is asked for. -/
theorem allowedBits_cases (settings : Value) :
    let v := settings.fieldD "cell_bits" (.int defaultBits)
    (∃ n, v.toInt = .ok n ∧ (CellKind.ofBits? n).isSome = true ∧ allowedBits settings = .ok n) ∨
      ((∀ n, v.toInt = .ok n → ¬ (CellKind.ofBits? n).isSome = true) ∧
        v.toInt ≠ .error .infinite ∧ allowedBits settings = .ok defaultBits) ∨
      v.toInt = .error .infinite ∧ allowedBits settings = .error .infinite := by
  intro v
  cases hv : v.toInt with
  | ok n =>
    have hbits : allowedBits settings = .ok (if (CellKind.ofBits? n).isSome then n else defaultBits) := by
      rw [allowedBits, hv]
    by_cases hn : (CellKind.ofBits? n).isSome = true
    · exact .inl ⟨n, rfl, hn, hbits.trans (congrArg Except.ok (if_pos hn))⟩
    · refine .inr (.inl ⟨?_, by simp, hbits.trans (congrArg Except.ok (if_neg hn))⟩)
      intro k hk
      cases hk
      exact hn
  | error e =>
    cases e with
    | infinite => exact .inr (.inr ⟨rfl, by rw [allowedBits, hv]⟩)
    | _ => exact .inr (.inl ⟨by simp, by simp, by rw [allowedBits, hv]⟩)

/-- **A width that cannot be used becomes the default**, unless it is an infinite number. Let the other
numbers of some settings be missing, or such that they can be converted, and let anything be asked for as
the width. If that is not an infinite number there is an allowance: its width is the one asked for if this
can be converted and is supported, and eight in all other cases. With an infinite number there is none. -/
theorem allowed_width (fields : List (String × Value))
    (hnumbers : ∀ name ∈ ["cells", "max_steps", "max_output_bytes"], ∀ v, fields.lookup name = some v →
      ∃ n, v.toInt = .ok n) :
    ((∀ negative, fields.lookup "cell_bits" ≠ some (.real (.infinite negative))) →
      ∃ a, Allowance.ofSettings (.table fields) = .ok a ∧
        (∀ v n, fields.lookup "cell_bits" = some v → v.toInt = .ok n → n ∈ [8, 16, 32, 64] →
          a.cellBits = n) ∧
        ((∀ v n, fields.lookup "cell_bits" = some v → v.toInt = .ok n → n ∉ [8, 16, 32, 64]) →
          a.cellBits = 8)) ∧
    ∀ negative, fields.lookup "cell_bits" = some (.real (.infinite negative)) →
      Allowance.ofSettings (.table fields) = .error .infinite := by
  have hclamp : ∀ name ∈ ["cells", "max_steps", "max_output_bytes"], ∀ default ceiling,
      ∃ n, clampField (.table fields) name default ceiling = .ok n :=
    fun name hname => exists_clampField (hnumbers name hname)
  obtain ⟨cells, hcells⟩ := hclamp "cells" (by simp) defaultCells cellCeiling
  obtain ⟨steps, hsteps⟩ := hclamp "max_steps" (by simp) stepCeiling stepCeiling
  obtain ⟨output, houtput⟩ := hclamp "max_output_bytes" (by simp) outputCeiling outputCeiling
  have hallowed : ∀ bits, allowedBits (.table fields) = .ok bits →
      ∃ a, Allowance.ofSettings (.table fields) = .ok a ∧ a.cellBits = bits := fun bits hbits =>
    ⟨⟨cells, _, steps, output, bits⟩, Allowance.ofSettings_eq_ok_iff.2
      ⟨fun _ => rfl, hcells, hsteps, houtput, hbits, rfl⟩, rfl⟩
  have hasked : ∀ v, fields.lookup "cell_bits" = some v →
      Value.fieldD (.table fields) "cell_bits" (.int defaultBits) = v := by
    intro v hv
    rw [Value.fieldD, Value.field?, hv]
    rfl
  have hlist : ∀ n : Int, n ∈ [8, 16, 32, 64] ↔ (CellKind.ofBits? n).isSome = true := by
    intro n
    rw [isSome_ofBits?_iff]
    simp
  refine ⟨fun hfinite => ?_, fun negative hinfinite => ?_⟩
  · rcases allowedBits_cases (.table fields) with ⟨n, hn, hused, hbits⟩ | ⟨hunused, -, hbits⟩ | ⟨hn, -⟩
    · obtain ⟨a, ha, rfl⟩ := hallowed n hbits
      refine ⟨a, ha, fun v k hv hk _ => ?_, fun hnone => ?_⟩
      · rw [hasked v hv, hk] at hn
        exact (Except.ok.inj hn).symm
      · -- nothing was asked for
        cases hv : fields.lookup "cell_bits" with
        | none =>
          rw [Value.fieldD, Value.field?, hv] at hn
          exact (Except.ok.inj hn).symm
        | some v => exact absurd ((hlist _).2 hused) (hnone v _ hv (hasked v hv ▸ hn))
    · obtain ⟨a, ha, hdefault⟩ := hallowed defaultBits hbits
      refine ⟨a, ha, fun v k hv hk hmem => ?_, fun _ => hdefault⟩
      exact absurd ((hlist k).1 hmem) (hunused k (by rw [hasked v hv, hk]))
    · obtain ⟨negative, hinfinite⟩ := toInt_eq_infinite_iff.1 hn
      cases hv : fields.lookup "cell_bits" with
      | none =>
        rw [Value.fieldD, Value.field?, hv] at hinfinite
        cases hinfinite
      | some v =>
        rw [hasked v hv] at hinfinite
        exact absurd (hinfinite ▸ hv) (hfinite negative)
  · have hbits : allowedBits (.table fields) = .error .infinite := by
      rw [allowedBits, hasked _ hinfinite]
      rfl
    simp only [Allowance.ofSettings, Value.toSettings, Value.isTable, Bool.not_true, Bool.and_false,
      Bool.false_eq_true, if_false, Allowance.ofFields, hcells, hsteps, houtput, hbits]

/-- A width that is spelled is read; one that is not a number, or not supported, becomes the default; and
an infinite one is refused. -/
theorem allowed_width_loose :
    (∃ a, Allowance.ofSettings (.table [("cells", .text "12"), ("cell_bits", .text " 16 ")]) = .ok a ∧
      a.cellBits = 16) ∧
    (∃ a, Allowance.ofSettings (.table [("max_steps", .bool true), ("cell_bits", .real .nan)]) = .ok a ∧
      a.cellBits = 8) ∧
    Allowance.ofSettings (.table [("cell_bits", .real (.infinite true))]) = .error .infinite := by
  refine ⟨?_, ?_, ?_⟩
  · have htwelve : ∃ n, (Value.text "12").toInt = .ok n := ⟨12, rfl⟩
    obtain ⟨a, ha, hused, -⟩ := (allowed_width [("cells", .text "12"), ("cell_bits", .text " 16 ")]
      (by simpa [List.lookup] using htwelve)).1 (by simp [List.lookup])
    exact ⟨a, ha, hused _ 16 rfl rfl (by decide)⟩
  · obtain ⟨a, ha, -, hdefault⟩ := (allowed_width [("max_steps", .bool true), ("cell_bits", .real .nan)]
      (by simp [List.lookup, Value.toInt])).1 (by simp [List.lookup])
    refine ⟨a, ha, hdefault fun v n hv hn => ?_⟩
    cases hv
    cases hn
  · exact (allowed_width [("cell_bits", .real (.infinite true))] (by simp [List.lookup])).2 true rfl

/-- **An infinite number for a width fails the request**, though nothing else is asked for. -/
theorem infinite_width_refused :
    let settings : Value := .table [("cell_bits", .real (.infinite false))]
    (∀ name ∈ ["cells", "max_steps", "max_output_bytes"], settings.field? name = none) ∧
      ¬ (∃ a, Allowance.ofSettings settings = .ok a) ∧
      ∀ now durationMs store, (handle .usual now durationMs store ⟨"POST", "/run", "", some (.table [
        ("code", .text "+"), ("settings", settings)])⟩) =
        (.reply 200 (serverError "cannot convert float infinity to integer" durationMs), store) := by
  intro settings
  refine ⟨by simp [settings, Value.field?, List.lookup], fun ⟨a, ha⟩ => (nomatch ha), ?_⟩
  intro now durationMs store
  rw [handle_of_read (read_usual_of_ofBody rfl)]
  rfl

end Service

end TapeMachine
