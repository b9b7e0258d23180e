import Mathlib
import TapeMachine.Proofs.Allowance

/-!
# The shape of an answer

Who asks for a run reads the answer by its keys. An answer is made in one of two places: from the report of
a run, with a warning if it could not be recorded, or where the service itself has failed. So the keys have
to be compared over every text, input, settings and store.

## The model

`runKeys` are the keys of an answer that is made from a report. `RunAnswer` says what stands under the keys
that are there.

## What is proved

* `runAnswer_reportBody`, `runAnswer_serverError`: both kinds of answers hold values of the same sorts.
* `answer_keys`: the keys are `runKeys` if the settings give an allowance, whatever came of the run and of
  its record. If they give none, the number of bytes is missing.
* `refused_settings_lack_bytes`: there are such settings.
-/

namespace TapeMachine.Service

/-- The keys of the table that an answer holds. -/
def Answer.keys : Answer → List String
  | .reply _ (.table fields) => fields.map Prod.fst
  | _ => []

/-- The keys of an answer that is made from a report. -/
def runKeys : List String := ["output", "output_bytes", "steps", "errors", "duration_ms", "warnings"]

/-- No error, or one with a code and a message. -/
def IsErrors (v : Value) : Prop :=
  v = .null ∨ ∃ code message, v.field? "code" = some (.text code) ∧ v.field? "message" = some (.text message)

/-- What stands under the keys of an answer to a run. -/
structure RunAnswer (durationMs : Int) (body : Value) : Prop where
  output : ∃ s, body.field? "output" = some (.text s)
  outputBytes : ∀ v, body.field? "output_bytes" = some v → ∃ n : Nat, v = .int n
  steps : ∃ n, body.field? "steps" = some (.int n)
  errors : ∃ v, body.field? "errors" = some v ∧ IsErrors v
  duration : body.field? "duration_ms" = some (.int durationMs)
  warnings : ∃ ws : List String, body.field? "warnings" = some (.list (ws.map .text))

/-- The details of an error have a code and a message. -/
theorem isErrors_details (e : Option Error) : IsErrors ((e.map Error.details).getD .null) := by
  cases e with
  | none => exact .inl rfl
  | some e => exact .inr ⟨e.code, e.message, rfl, rfl⟩

theorem runAnswer_reportBody (report : Report) (durationMs : Int) (warnings : List String) :
    RunAnswer durationMs (reportBody report durationMs warnings) where
  output := ⟨report.output, rfl⟩
  outputBytes := by
    intro v hv
    exact ⟨report.outputBytes, (Option.some.inj hv).symm⟩
  steps := ⟨report.steps, rfl⟩
  errors := ⟨_, rfl, isErrors_details report.error⟩
  duration := rfl
  warnings := ⟨warnings, rfl⟩

theorem runAnswer_serverError (message : String) (durationMs : Int) :
    RunAnswer durationMs (serverError message durationMs) where
  output := ⟨"", rfl⟩
  outputBytes := by
    intro v hv
    cases hv
  steps := ⟨0, rfl⟩
  errors := ⟨_, rfl, .inr ⟨"SERVER_ERROR", message, rfl, rfl⟩⟩
  duration := rfl
  warnings := ⟨[], rfl⟩

theorem keys_reportBody (report : Report) (durationMs : Int) (warnings : List String) :
    (Answer.reply 200 (reportBody report durationMs warnings)).keys.Perm runKeys :=
  .refl _

theorem keys_serverError (message : String) (durationMs : Int) :
    (Answer.reply 200 (serverError message durationMs)).keys.Perm (runKeys.erase "output_bytes") := by
  have hkeys : (Answer.reply 200 (serverError message durationMs)).keys =
      ["output", "steps", "warnings", "duration_ms", "errors"] := rfl
  rw [hkeys]
  decide

section Answers

variable {host : Host} {r : Request} {body : RunRequest}

/-- Under an allowance the answer is made from a report. -/
theorem exists_handle_eq_reportBody (h : host.read r = .ok (.run body)) {a : Allowance}
    (ha : Allowance.ofSettings body.settings = .ok a) (now : String) (durationMs : Int) (store : Store) :
    ∃ report warnings,
      (handle host now durationMs store r).1 = .reply 200 (reportBody report durationMs warnings) := by
  rw [handle_of_read h, serve, runText]
  rcases evaluate_cases host.room body with ⟨e, he, -⟩ | ⟨-, report, -, heval, -⟩
  · cases ha.symm.trans he
  · rw [heval]
    exact ⟨report, _, rfl⟩

/-- Without an allowance the answer is a server error, and nothing is recorded. -/
theorem handle_eq_serverError (h : host.read r = .ok (.run body)) {e : ConversionError}
    (he : Allowance.ofSettings body.settings = .error e) (now : String) (durationMs : Int)
    (store : Store) :
    handle host now durationMs store r = (.reply 200 (serverError e.message durationMs), store) := by
  rw [handle_of_read h, serve, runText, evaluate, he]
  rfl

/-- **The keys of an answer.** A request to run a text is always answered with a table, and what stands under
a key is of the same sort in every answer. If the settings give an allowance then the keys are `runKeys`,
whatever the text, the input and the script are, whether the run was successful, and whether the store could
record it. If they give none then `output_bytes` is missing, and the answer is a server error. -/
theorem answer_keys (h : host.read r = .ok (.run body)) (now : String) (durationMs : Int)
    (store : Store) :
    (∃ fields, (handle host now durationMs store r).1 = .reply 200 (.table fields) ∧
      RunAnswer durationMs (.table fields)) ∧
    ((∃ a, Allowance.ofSettings body.settings = .ok a) →
      (handle host now durationMs store r).1.keys.Perm runKeys ∧
        ¬ (handle host now durationMs store r).1.IsServerError) ∧
    ((∃ e, Allowance.ofSettings body.settings = .error e) →
      (handle host now durationMs store r).1.keys.Perm (runKeys.erase "output_bytes") ∧
        (handle host now durationMs store r).1.IsServerError) := by
  cases hallowance : Allowance.ofSettings body.settings with
  | error e =>
    rw [handle_eq_serverError h hallowance]
    refine ⟨⟨_, rfl, runAnswer_serverError _ _⟩, ?_, fun _ => ?_⟩
    · rintro ⟨_, hok⟩
      cases hok
    · exact ⟨keys_serverError _ _, isServerError_serverError _ _⟩
  | ok a =>
    obtain ⟨report, warnings, hbody⟩ := exists_handle_eq_reportBody h hallowance now durationMs store
    rw [hbody]
    refine ⟨⟨_, rfl, runAnswer_reportBody _ _ _⟩, fun _ => ?_, ?_⟩
    · exact ⟨keys_reportBody _ _ _, not_isServerError_reportBody _ _ _⟩
    · rintro ⟨_, herror⟩
      cases herror

end Answers

/-- A run that ends, one of a text with an unmatched bracket and one for a script whose number is too large
to be recorded have the same keys; one with settings that cannot be used has not. -/
theorem answer_keys_four_ways :
    (∀ body ∈ [
        [("code", Value.text "+.")],
        [("code", .text "+]")],
        [("code", .text "+."), ("script_id", .int (2 ^ 63))]],
      ∀ now durationMs store,
        (handle .usual now durationMs store ⟨"POST", "/run", "", some (.table body)⟩).1.keys.Perm
          runKeys) ∧
    ∀ now durationMs store,
      (handle .usual now durationMs store ⟨"POST", "/run", "", some (.table [
        ("code", .text "+."), ("settings", .table [("cells", .text "abc")])])⟩).1.keys.Perm
          (runKeys.erase "output_bytes") := by
  constructor
  · intro body hbody now durationMs store
    simp only [List.mem_cons, List.not_mem_nil, or_false] at hbody
    rcases hbody with rfl | rfl | rfl
    all_goals exact ((answer_keys (read_usual_of_ofBody rfl) now durationMs store).2.1 ⟨_, rfl⟩).1
  · intro now durationMs store
    exact ((answer_keys (read_usual_of_ofBody rfl) now durationMs store).2.2 ⟨_, rfl⟩).1

/-- **Settings that cannot be used cost the answer a key.** -/
theorem refused_settings_lack_bytes :
    let accepted : Request := ⟨"POST", "/run", "", some (.table [("code", .text "")])⟩
    let refused : Request := ⟨"POST", "/run", "", some (.table [
      ("code", .text ""), ("settings", .table [("cells", .text "abc")])])⟩
    (∃ body, Host.usual.read accepted = .ok (.run body)) ∧
      (∃ body, Host.usual.read refused = .ok (.run body)) ∧ ∀ now durationMs store,
      "output_bytes" ∈ (handle .usual now durationMs store accepted).1.keys ∧
      "output_bytes" ∉ (handle .usual now durationMs store refused).1.keys ∧
      handle .usual now durationMs store refused =
        (.reply 200 (serverError "invalid literal for int() with base 10: 'abc'" durationMs), store) := by
  intro accepted refused
  have haccepted : Host.usual.read accepted = .ok (.run _) := read_usual_of_ofBody rfl
  have hrefused : Host.usual.read refused = .ok (.run _) := read_usual_of_ofBody rfl
  refine ⟨⟨_, haccepted⟩, ⟨_, hrefused⟩, fun now durationMs store => ?_⟩
  obtain ⟨report, warnings, hanswer⟩ := exists_handle_eq_reportBody haccepted rfl now durationMs store
  have herror := handle_eq_serverError hrefused rfl now durationMs store
  rw [hanswer, herror, (keys_reportBody _ _ _).mem_iff, (keys_serverError _ _).mem_iff]
  exact ⟨by decide, by decide, rfl⟩

end TapeMachine.Service
