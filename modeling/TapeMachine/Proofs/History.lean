import Mathlib
import TapeMachine.Proofs.Patience
import TapeMachine.Proofs.Recency
import TapeMachine.Proofs.Store
import TapeMachine.Service.Routing

/-!
# The history of runs is exact

The service records a run if it ended without an error, and tells in its answer whether it did. So what
the service lists can be read off its answers: one row for each answer to a run that has neither an error
nor a warning.

## The model

An `Exchange` is a request together with the time at which it came and its answer. `Served` says that a
list of exchanges, the newest first, took place one after the other and led from one store to another.
`rows` reads the history off the exchanges: it looks at the requests and the answers, and not at a store.
How requests are read is left to the host, and all that is said here holds for every host.

## What is proved

* `store_serve`: all that a demand can do to a store.
* `recorded_handle`: what is recorded grows by the row of the exchange, if it has one.
* `Served.chronicle`: hence what is recorded is the history, numbered without gaps and stamped with the
  times of the requests.
* `history_exact`: the service lists the history, the newest first if its clock has never gone back, and
  what it answers to a run is what the run gave, whatever is in the store.
-/

namespace TapeMachine.Service

/-! ### Exchanges -/

/-- A request, the time at which it came, how long a run is said to have taken, and the answer. -/
structure Exchange where
  now : String
  durationMs : Int
  request : Request
  answer : Answer

/-- The exchanges took place one after the other, the newest first, and led from one store to another. -/
inductive Served (host : Host) (s : Store) : List Exchange → Store → Prop where
  | start : Served host s [] s
  | next {log : List Exchange} {t : Store} (h : Served host s log t) (now : String) (durationMs : Int)
      (r : Request) :
      Served host s (⟨now, durationMs, r, (handle host now durationMs t r).1⟩ :: log)
        (handle host now durationMs t r).2

/-- The row of a run, if the body of its answer has neither an error nor a warning. -/
def rowOf? (now : String) (scriptId : Option Int) (id : Nat) (body : Value) : Option Value :=
  match body.field? "errors", body.field? "warnings" with
  | some .null, some (.list []) => some (.table [
      ("run_id", .int id),
      ("script_id", .ofOption scriptId),
      ("steps", body.fieldD "steps" .null),
      ("output_bytes", body.fieldD "output_bytes" .null),
      ("duration_ms", body.fieldD "duration_ms" .null),
      ("created_at", .text now)])
  | _, _ => none

/-- The row of an exchange, if it is a run that was answered with neither an error nor a warning. -/
def Exchange.row? (host : Host) (x : Exchange) (id : Nat) : Option Value :=
  match host.read x.request, x.answer with
  | .ok (.run r), .reply 200 body => rowOf? x.now r.scriptId id body
  | _, _ => none

/-- The rows of a list of exchanges, the newest first, numbered from the oldest. -/
def rows (host : Host) : List Exchange → List Value
  | [] => []
  | x :: log => (x.row? host ((rows host log).length + 1)).toList ++ rows host log

theorem map_runId_rows (host : Host) (log : List Exchange) :
    (rows host log).map (·.field? "run_id") =
      (List.range (rows host log).length).reverse.map fun i => some (.int (i + 1)) := by
  induction log with
  | nil => rfl
  | cons x log ih =>
    rw [rows]
    cases hrow : x.row? host ((rows host log).length + 1) with
    | none => exact ih
    | some row =>
      have hid : row.field? "run_id" = some (.int ((rows host log).length + 1)) := by
        unfold Exchange.row? at hrow
        split at hrow
        · unfold rowOf? at hrow
          split at hrow <;> cases hrow
          rfl
        · cases hrow
      simp [List.range_succ, hid, ih]

/-! ### What a demand does to the store -/

theorem handle_of_read {host : Host} {r : Request} {demand : Demand} (h : host.read r = .ok demand)
    (now : String) (durationMs : Int) (s : Store) :
    handle host now durationMs s r = serve host.room now durationMs s demand := by
  simp only [handle, h]

/-- Running a text leaves the store alone, or calls it to record the run. -/
theorem store_runText (room : Room) (now : String) (durationMs : Int) (s : Store) (r : RunRequest) :
    (runText room now durationMs s r).2 = s ∨
      ∃ scriptId steps bytes duration,
        (runText room now durationMs s r).2 = (s.saveRun now scriptId steps bytes duration).2 := by
  unfold runText
  split
  · exact .inl rfl
  · next report _ =>
    unfold record
    cases report.error with
    | some e => exact .inl rfl
    | none =>
      refine .inr ⟨.ofOption r.scriptId, .int report.steps, .int report.outputBytes, .int durationMs, ?_⟩
      dsimp only
      rcases s.saveRun _ _ _ _ _ with ⟨_ | _, s'⟩ <;> rfl

/-- **All that a demand can do to a store**: nothing, to look at a table, to save a script, or to record
a run. -/
theorem store_serve (room : Room) (now : String) (durationMs : Int) (s : Store) (demand : Demand) :
    (serve room now durationMs s demand).2 = s ∨
      (∃ (α : Type) (t : TableName) (use : Tables → Except StoreError α),
        (serve room now durationMs s demand).2 = (s.look t use).2) ∨
      (∃ title code, (serve room now durationMs s demand).2 = (s.saveScript now title code).2) ∨
      ((∃ r, demand = .run r) ∧ ∃ scriptId steps bytes duration,
        (serve room now durationMs s demand).2 = (s.saveRun now scriptId steps bytes duration).2) := by
  cases demand with
  | run r =>
    rcases store_runText room now durationMs s r with hsame | hsaved
    · exact .inl hsame
    · exact .inr (.inr (.inr ⟨⟨r, rfl⟩, hsaved⟩))
  | validate r => exact .inl rfl
  | save r =>
    refine .inr (.inr (.inl ⟨.text r.title, .text r.code, ?_⟩))
    show (saveText now s r).2 = _
    unfold saveText
    rcases s.saveScript _ _ _ with ⟨_ | _, s'⟩ <;> rfl
  | scripts =>
    refine .inr (.inl ⟨_, .scripts, fun t => .ok t.allScripts, ?_⟩)
    show (listScripts s).2 = s.scripts.2
    unfold listScripts
    rcases s.scripts with ⟨_ | _, s'⟩ <;> rfl
  | script id =>
    refine .inr (.inl ⟨_, .scripts, (·.script? (.int id)), ?_⟩)
    show (showScript s id).2 = (s.script? (.int id)).2
    unfold showScript
    rcases s.script? (.int id) with ⟨_ | _ | _, s'⟩ <;> rfl
  | stats scriptId =>
    refine .inr (.inl ⟨_, .runs, (·.runsOf (.ofOption scriptId)), ?_⟩)
    show (listRuns s scriptId).2 = (s.runs (.ofOption scriptId)).2
    unfold listRuns
    rcases s.runs (.ofOption scriptId) with ⟨_ | _, s'⟩ <;> rfl

/-! ### What is recorded -/

theorem rowOf?_of_errors {now : String} {scriptId : Option Int} {id : Nat} {body : Value}
    (h : body.field? "errors" ≠ some .null) : rowOf? now scriptId id body = none := by
  unfold rowOf?
  split
  · next herrors _ => exact absurd herrors h
  · rfl

theorem rowOf?_of_warnings {now : String} {scriptId : Option Int} {id : Nat} {body : Value}
    (h : body.field? "warnings" ≠ some (.list [])) : rowOf? now scriptId id body = none := by
  unfold rowOf?
  split
  · next _ hwarnings => exact absurd hwarnings h
  · rfl

/-- A row is added to what is recorded, with the next number and the time; or there is none, and nothing is
added. -/
def Adds (now : String) (row? : Option Value) (before after : List Record) : Prop :=
  (row? = none ∧ after = before) ∨
    ∃ record : Record, record.toRow = ⟨before.length + 1, now⟩ ∧ row? = some record.toValue ∧
      after = before ++ [record]

/-- What is recorded grows by the row of the answer, if it has one. -/
theorem recorded_runText (room : Room) (now : String) (durationMs : Int) (s : Store) (r : RunRequest) :
    Adds now (rowOf? now r.scriptId (s.recorded.length + 1) (runText room now durationMs s r).1)
      s.recorded (runText room now durationMs s r).2.recorded := by
  unfold runText
  split
  · exact .inl ⟨rowOf?_of_errors (by simp [serverError, Value.field?, List.lookup]), rfl⟩
  · next report _ =>
    unfold record
    cases herror : report.error with
    | some e =>
      refine .inl ⟨rowOf?_of_errors ?_, rfl⟩
      simp [reportBody, Report.fields, Value.field?, List.lookup, herror, Error.details]
    | none =>
      dsimp only
      rcases s.saveRun_cases now r.scriptId report.steps report.outputBytes durationMs with
        ⟨e, he, hrecorded⟩ | ⟨row, hid, hn, hrecorded, hrow⟩
      · -- the call failed, which is told in a warning
        generalize s.saveRun _ _ _ _ _ = result at he hrecorded ⊢
        obtain ⟨_, s'⟩ := result
        cases he
        refine .inl ⟨rowOf?_of_warnings ?_, hrecorded⟩
        simp [reportBody, Report.fields, Value.field?, List.lookup]
      · generalize s.saveRun _ _ _ _ _ = result at hn hrecorded ⊢
        obtain ⟨_, s'⟩ := result
        cases hn
        refine .inr ⟨row, hid, ?_, hrecorded⟩
        rw [hrow]
        simp [rowOf?, reportBody, Report.fields, Value.field?, Value.fieldD, List.lookup, herror]

/-- **What is recorded grows by the row of the exchange**, if it has one. -/
theorem recorded_handle (host : Host) (now : String) (durationMs : Int) (s : Store) (r : Request) :
    Adds now
      (Exchange.row? host ⟨now, durationMs, r, (handle host now durationMs s r).1⟩ (s.recorded.length + 1))
      s.recorded (handle host now durationMs s r).2.recorded := by
  cases hread : host.read r with
  | error answer =>
    simp only [Exchange.row?, handle, hread]
    exact .inl ⟨rfl, rfl⟩
  | ok demand =>
    simp only [Exchange.row?, handle, hread]
    by_cases hrun : ∃ body, demand = .run body
    · obtain ⟨body, rfl⟩ := hrun
      exact recorded_runText host.room now durationMs s body
    · refine .inl ⟨?_, ?_⟩
      · split
        · next hdemand _ => exact absurd ⟨_, Except.ok.inj hdemand⟩ hrun
        · rfl
      · rcases store_serve host.room now durationMs s demand with h | ⟨α, t, use, h⟩ |
          ⟨title, code, h⟩ | ⟨h, -⟩
        · rw [h]
        · rw [h, Store.recorded_look]
        · rw [h, Store.recorded_saveScript]
        · exact absurd h hrun

/-- What is recorded after some exchanges: their rows, numbered on from one and stamped with the times of
the requests. -/
structure Chronicle (host : Host) (log : List Exchange) (records : List Record) : Prop where
  rows_eq : records.map Record.toValue = (rows host log).reverse
  ids : (records.map fun r => r.toRow.id) = List.range' 1 records.length
  times : (records.map fun r => r.toRow.createdAt).Sublist (log.map Exchange.now).reverse

theorem Chronicle.next {host : Host} {log : List Exchange} {before after : List Record}
    (h : Chronicle host log before) {x : Exchange}
    (hadds : Adds x.now (x.row? host (before.length + 1)) before after) :
    Chronicle host (x :: log) after := by
  have hlength : (rows host log).length = before.length := by
    have := congrArg List.length h.rows_eq
    simpa using this.symm
  rcases hadds with ⟨hrow, rfl⟩ | ⟨record, hrecord, hrow, rfl⟩
  · refine ⟨?_, h.ids, ?_⟩
    · rw [rows, hlength, hrow]
      exact h.rows_eq
    · rw [List.map_cons, List.reverse_cons]
      exact h.times.trans (List.sublist_append_left _ _)
  · refine ⟨?_, ?_, ?_⟩
    · rw [rows, hlength, hrow, List.map_append, h.rows_eq]
      simp
    · rw [List.map_append, h.ids, List.length_append, List.length_singleton, List.range'_concat]
      simp [hrecord, Nat.add_comm]
    · simp only [List.map_append, List.map_cons, List.map_nil, List.reverse_cons, hrecord]
      exact h.times.append (.refl _)

theorem Served.chronicle {host : Host} {s t : Store} {log : List Exchange} (h : Served host s log t)
    (hnew : s.recorded = []) : Chronicle host log t.recorded := by
  induction h with
  | start =>
    rw [hnew]
    exact ⟨rfl, rfl, .slnil⟩
  | next _ now durationMs r ih => exact ih.next (recorded_handle host now durationMs _ r)

theorem Served.isOpen {host : Host} {s t : Store} {log : List Exchange} (h : Served host s log t)
    (hs : s.Open) : t.Open := by
  induction h with
  | start => exact hs
  | @next log t _ now durationMs r ih =>
    cases hread : host.read r with
    | error answer => simpa only [handle, hread] using ih
    | ok demand =>
      rw [handle_of_read hread]
      rcases store_serve host.room now durationMs t demand with h | ⟨α, name, use, h⟩ |
        ⟨title, code, h⟩ | ⟨-, scriptId, steps, bytes, duration, h⟩
      · rwa [h]
      all_goals
        rw [h]
        exact ih.withTables _ _

/-! ### What is listed -/

theorem listRuns_fst (s : Store) (scriptId : Option Int) :
    (listRuns s scriptId).1 =
      match (s.runs (.ofOption scriptId)).1 with
      | .ok rows => .reply 200 (.list (rows.map Record.toValue))
      | .error e => .crashed e := by
  unfold listRuns
  rcases s.runs (.ofOption scriptId) with ⟨_ | _, s'⟩ <;> rfl

/-- A request for all recorded runs lists them, unless the store cannot be used. -/
theorem handle_stats {host : Host} {r : Request} (h : host.read r = .ok (.stats none)) (now : String)
    (durationMs : Int) (s : Store) :
    (handle host now durationMs s r).1 =
        .reply 200 (.list ((newestFirst Record.toRow s.recorded).map Record.toValue)) ∨
      ¬ s.Open ∧ ∃ e, (handle host now durationMs s r).1 = .crashed e := by
  rw [handle_of_read h, serve, listRuns_fst]
  rcases s.withTables_cases .runs fun t => (t.runsOf .null).map (·, t) with
    ⟨e, he, -⟩ | ⟨tables, runs, after, htables, huse, hok, -⟩
  · have hcall : (s.runs (.ofOption none)).1 = .error e := he
    refine .inr ⟨fun hopen => ?_, e, by rw [hcall]⟩
    obtain ⟨tables, htables⟩ := hopen.made
    rw [hopen.withTables_eq htables] at he
    cases he
  · have hcall : (s.runs (.ofOption none)).1 = .ok runs := hok
    cases huse
    rw [hcall, Store.recorded, htables]
    exact .inl rfl

/-- The rows of the exchanges are listed in some order, and the newest first if the clock has never gone
back. -/
theorem Chronicle.listed {host : Host} {log : List Exchange} {records : List Record}
    (h : Chronicle host log records) :
    ((newestFirst Record.toRow records).map Record.toValue).Perm (rows host log) ∧
      ((log.map Exchange.now).Pairwise (fun later earlier => earlier ≤ later) →
        (newestFirst Record.toRow records).map Record.toValue = rows host log) := by
  constructor
  · have hperm := (newestFirst_perm Record.toRow records).map Record.toValue
    rw [h.rows_eq] at hperm
    exact hperm.trans (List.reverse_perm _)
  · intro hclock
    have htimes := (List.pairwise_reverse.2 hclock).sublist h.times
    rw [newestFirst_eq_reverse h.ids htimes, List.map_reverse, h.rows_eq, List.reverse_reverse]

/-! ### What is answered -/

/-- The settings that an allowance stands for have an integer for a cap on the steps. -/
theorem ofSettings_toValue (a : Allowance) :
    ∃ config, Config.ofSettings a.toValue = .ok config ∧ config.maxSteps = .int a.maxSteps :=
  ⟨_, rfl, rfl⟩

theorem evaluate_eq_ok {room : Room} {r : RunRequest} {report : Report}
    (h : evaluate room r = .ok report) :
    ∃ allowance, Allowance.ofSettings r.settings = .ok allowance ∧
      ∀ patience, Evaluation.run room patience (some requestSource) r.code (Text.Utf8.encode r.input)
        allowance.toValue = .ok report := by
  unfold evaluate at h
  split at h
  · cases h
  · next allowance hallowance =>
    refine ⟨allowance, hallowance, fun patience => ?_⟩
    obtain ⟨config, hconfig, hsteps⟩ := ofSettings_toValue allowance
    rw [Evaluation.run_of_counted hconfig hsteps patience 0]
    split at h
    · cases h
    · next report' hrun =>
      cases h
      exact hrun

/-- A run is answered with what it gave, whatever is in the store and whether or not it was recorded. -/
theorem handle_run {host : Host} {r : Request} {body : RunRequest} (h : host.read r = .ok (.run body)) :
    (∃ message, ∀ now durationMs s,
        handle host now durationMs s r = (.reply 200 (serverError message durationMs), s)) ∨
      ∃ report, evaluate host.room body = .ok report ∧ ∀ now durationMs s, ∃ warnings s',
        handle host now durationMs s r = (.reply 200 (reportBody report durationMs warnings), s') := by
  cases heval : evaluate host.room body with
  | error message =>
    refine .inl ⟨message, fun now durationMs s => ?_⟩
    rw [handle_of_read h, serve, runText, heval]
    rfl
  | ok report =>
    refine .inr ⟨report, rfl, fun now durationMs s => ?_⟩
    refine ⟨(record now s body.scriptId report durationMs).1,
      (record now s body.scriptId report durationMs).2, ?_⟩
    rw [handle_of_read h, serve, runText, heval]
    rfl

theorem field?_reportBody (report : Report) (durationMs : Int) (warnings : List String) {name : String}
    (h : name ∈ ["output", "output_bytes", "steps", "errors"]) :
    (reportBody report durationMs warnings).field? name = (Value.table report.fields).field? name := by
  simp only [List.mem_cons, List.not_mem_nil, or_false] at h
  rcases h with rfl | rfl | rfl | rfl <;> rfl

/-- **The history of runs is exact.** Let a store without recorded runs serve any requests, on any host. A
request for all runs then lists one row for each run that was answered with neither an error nor a warning:
numbered without gaps, with the script and the time of the request and with the steps, the bytes of output
and the duration of the answer. If the clock never went back, the newest row comes first. If the store can
be used at first, this never fails. A run is answered with a server error in every store, or in every store
with the output, the steps and the error that its text gives on its input under its allowance. -/
theorem history_exact (host : Host) (s t : Store) (log : List Exchange) (hnew : s.recorded = [])
    (hserved : Served host s log t) :
    (∀ (r : Request), host.read r = .ok (.stats none) → ∀ now durationMs,
      (∃ listed, (handle host now durationMs t r).1 = .reply 200 (.list listed) ∧
        listed.Perm (rows host log) ∧
        ((log.map Exchange.now).Pairwise (fun later earlier => earlier ≤ later) →
          listed = rows host log)) ∨
      ¬ s.Open ∧ ∃ e, (handle host now durationMs t r).1 = .crashed e) ∧
    ((rows host log).map (·.field? "run_id") =
      (List.range (rows host log).length).reverse.map fun i => some (.int (i + 1))) ∧
    ∀ (r : Request) (body : RunRequest), host.read r = .ok (.run body) →
      (∃ message, ∀ now durationMs store,
        handle host now durationMs store r = (.reply 200 (serverError message durationMs), store)) ∨
      ∃ allowance report, Allowance.ofSettings body.settings = .ok allowance ∧
        (∀ patience, Evaluation.run host.room patience (some requestSource) body.code
          (Text.Utf8.encode body.input) allowance.toValue = .ok report) ∧
        ∀ now durationMs store, ∃ answer store',
          handle host now durationMs store r = (.reply 200 answer, store') ∧
          ∀ name ∈ ["output", "output_bytes", "steps", "errors"],
            answer.field? name = (Value.table report.fields).field? name := by
  refine ⟨fun r hread now durationMs => ?_, map_runId_rows host log, fun r body hread => ?_⟩
  · rcases handle_stats hread now durationMs t with hlisted | ⟨hshut, hcrashed⟩
    · exact .inl ⟨_, hlisted, (hserved.chronicle hnew).listed⟩
    · exact .inr ⟨fun hopen => hshut (hserved.isOpen hopen), hcrashed⟩
  · rcases handle_run hread with hmessage | ⟨report, heval, hanswer⟩
    · exact .inl hmessage
    · obtain ⟨allowance, hallowance, hgiven⟩ := evaluate_eq_ok heval
      refine .inr ⟨allowance, report, hallowance, hgiven, fun now durationMs store => ?_⟩
      obtain ⟨warnings, store', hhandle⟩ := hanswer now durationMs store
      exact ⟨_, store', hhandle, fun name hname => field?_reportBody report durationMs warnings hname⟩

theorem read_usual_of_ofBody {body : Option Value} {r : RunRequest} (h : RunRequest.ofBody body = .ok r) :
    Host.usual.read ⟨"POST", "/run", "", body⟩ = .ok (.run r) := by
  have hroute : Route.ofPath? "/run" = some .run := by decide
  simp only [Host.usual, Request.demand, hroute]
  rw [if_pos (by decide), Route.demand, h]
  rfl

theorem read_usual_of_queriedScript {query : String} {scriptId : Option Int}
    (h : queriedScript query = .ok scriptId) (body : Option Value) :
    Host.usual.read ⟨"GET", "/stats", query, body⟩ = .ok (.stats scriptId) := by
  have hroute : Route.ofPath? "/stats" = some .stats := by decide
  simp only [Host.usual, Request.demand, hroute]
  rw [if_pos (by decide), Route.demand, h]
  rfl

/-- The default store, just made, serves four runs at times that never go back. The second fails, and the
third names a script whose number is too large to be recorded; so two rows are listed, the newer one
first. -/
theorem history_exact_four :
    ∃ s t log, (Store.ofPath (.ofText Store.defaultName)).init = (.ok (), s) ∧ s.Open ∧
      s.recorded = [] ∧ Served .usual s log t ∧
      log.map Exchange.now = ["10:04", "10:02", "10:02", "10:01"] ∧
      (handle .usual "10:05" 0 t ⟨"GET", "/stats", "", none⟩).1 = .reply 200 (.list [
        .table [("run_id", .int 2), ("script_id", .int 8), ("steps", .int 2), ("output_bytes", .int 2),
          ("duration_ms", .int 9), ("created_at", .text "10:04")],
        .table [("run_id", .int 1), ("script_id", .int 7), ("steps", .int 2), ("output_bytes", .int 2),
          ("duration_ms", .int 5), ("created_at", .text "10:01")]]) := by
  obtain ⟨s, hinit, hopen, htables⟩ := Store.exists_open_init
  have hnew : s.recorded = [] := by
    rw [Store.recorded, htables]
    rfl
  have hprints : ∃ report, evaluate .usual ⟨"+.", "", .table [("max_steps", .int 9)], none⟩ = .ok report ∧
      report.outputBytes = 2 ∧ report.steps = 2 ∧ report.error = none := ⟨_, rfl, rfl, rfl, rfl⟩
  have hfails : ∃ report e, evaluate .usual ⟨"<", "", .table [("max_steps", .int 9)], none⟩ = .ok report ∧
      report.error = some e := ⟨_, _, rfl, rfl⟩
  obtain ⟨⟨output, _, _, _⟩, hprints, rfl, rfl, rfl⟩ := hprints
  obtain ⟨⟨output', bytes, steps, _⟩, e, hfails, rfl⟩ := hfails
  let settings : Value := .table [("max_steps", .int 9)]
  let run (code : String) (scriptId : Int) : Request := ⟨"POST", "/run", "", some (.table [
    ("code", .text code), ("settings", settings), ("script_id", .int scriptId)])⟩
  have hrun : ∀ code scriptId,
      Host.usual.read (run code scriptId) = .ok (.run ⟨code, "", settings, some scriptId⟩) :=
    fun code scriptId => read_usual_of_ofBody rfl
  have hany : ∀ code scriptId, evaluate .usual ⟨code, "", settings, some scriptId⟩ =
      evaluate .usual ⟨code, "", .table [("max_steps", .int 9)], none⟩ := fun _ _ => rfl
  let one : Tables := ⟨[], [⟨⟨1, "10:01"⟩, .int 7, .int 2, .int 2, .int 5⟩]⟩
  let two : Tables := ⟨[], [⟨⟨1, "10:01"⟩, .int 7, .int 2, .int 2, .int 5⟩,
    ⟨⟨2, "10:04"⟩, .int 8, .int 2, .int 2, .int 9⟩]⟩
  have hfirst : handle .usual "10:01" 5 s (run "+." 7) =
      (.reply 200 (reportBody ⟨output, 2, 2, none⟩ 5 []), { s with tables := some one }) := by
    rw [handle_of_read (hrun _ _), serve, runText, show Host.usual.room = .usual from rfl, hany, hprints]
    dsimp only [record, Store.saveRun]
    rw [hopen.withTables_eq htables]
    rfl
  have hsecond : handle .usual "10:02" 6 { s with tables := some one } (run "<" 7) =
      (.reply 200 (reportBody ⟨output', bytes, steps, some e⟩ 6 []),
        { s with tables := some one }) := by
    rw [handle_of_read (hrun _ _), serve, runText, show Host.usual.room = .usual from rfl, hany, hfails]
    rfl
  have hthird : handle .usual "10:02" 8 { s with tables := some one }
      (run "+." (Number.powerOfTwo 63)) =
      (.reply 200 (reportBody ⟨output, 2, 2, none⟩ 8
        ["Failed to persist run: Python int too large to convert to SQLite INTEGER"]),
        { s with tables := some one }) := by
    rw [handle_of_read (hrun _ _), serve, runText, show Host.usual.room = .usual from rfl, hany, hprints]
    dsimp only [record, Store.saveRun]
    rw [(hopen.replace one).withTables_eq rfl]
    rfl
  have hfourth : handle .usual "10:04" 9 { s with tables := some one } (run "+." 8) =
      (.reply 200 (reportBody ⟨output, 2, 2, none⟩ 9 []), { s with tables := some two }) := by
    rw [handle_of_read (hrun _ _), serve, runText, show Host.usual.room = .usual from rfl, hany, hprints]
    dsimp only [record, Store.saveRun]
    rw [(hopen.replace one).withTables_eq rfl]
    rfl
  have hserved : Served .usual s [] s := .start
  have hserved := hserved.next "10:01" 5 (run "+." 7)
  rw [hfirst] at hserved
  have hserved := hserved.next "10:02" 6 (run "<" 7)
  rw [hsecond] at hserved
  have hserved := hserved.next "10:02" 8 (run "+." (Number.powerOfTwo 63))
  rw [hthird] at hserved
  have hserved := hserved.next "10:04" 9 (run "+." 8)
  rw [hfourth] at hserved
  refine ⟨s, _, _, hinit, hopen, hnew, hserved, rfl, ?_⟩
  obtain ⟨hlists, -, -⟩ := history_exact .usual s _ _ hnew hserved
  have hclock : ["10:04", "10:02", "10:02", "10:01"].Pairwise fun later earlier => earlier ≤ later := by
    decide +kernel
  rcases hlists ⟨"GET", "/stats", "", none⟩ (read_usual_of_queriedScript rfl none) "10:05" 0 with
    ⟨listed, hlisted, -, hrows⟩ | ⟨hshut, -⟩
  · rw [hlisted, hrows hclock]
    simp only [rows, Exchange.row?, hrun]
    rfl
  · exact absurd hopen hshut

end TapeMachine.Service
