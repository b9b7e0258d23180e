import Mathlib
import TapeMachine.Proofs.History
import TapeMachine.Proofs.Query
import TapeMachine.Proofs.Scripts

/-!
# Runs by script

A run is recorded with the number of a script, or with none. The numbers need not be those of saved
scripts. The runs of one script can be asked for from the store or from the service, and both list the
recorded runs with its number, in the order in which all runs are listed. There is one exception: the number
zero counts as no number, so that all runs are listed.

## The model

`Exchange.recorded?` is what an exchange recorded, if it did: the number that was answered, the time, and the
data of the run. `Store.Lists` says which rows a store lists for a script, asked either way.

## What is proved

* `Tables.runs_serve`: the runs that calls record are numbered on, and stand after those that were there.
* `exists_call_of_receipt`: each of them comes from a call, so its script is as the call says.
* `flatMap_filter_append_perm`: rows are parted by their keys.
* `Store.Open.lists`: a store that can be used lists what its tables hold.
* `runs_of_script`: what is listed after any calls, for each script and for none.
* `runs_of_zero`: two runs are listed for the number zero, which only one of them has.
-/

namespace TapeMachine

namespace Store

/-- The datum that a value is in a column of integers, if it can be stored there. -/
def columnInteger? (v : Value) : Option Datum := (Datum.bind 1 v).toOption.map Datum.toInteger

/-- What an exchange recorded: the number that was answered, the time, and the data of the run. -/
def Exchange.recorded? : Exchange → Option (Value × String × List (Option Datum))
  | ⟨now, .saveRun scriptId steps outputBytes durationMs, .ok id⟩ =>
    some (id, now, [scriptId, steps, outputBytes, durationMs].map columnInteger?)
  | _ => none

end Store

open Store

/-- What the exchange shows that recorded a run. -/
def Record.receipt (r : Record) : Value × String × List (Option Datum) :=
  (.int r.id, r.createdAt, [r.scriptId, r.steps, r.outputBytes, r.durationMs].map some)

theorem Record.receipt_injective : Function.Injective Record.receipt := by
  rintro ⟨⟨id, time⟩, a, b, c, d⟩ ⟨⟨id', time'⟩, a', b', c', d'⟩ h
  simp only [receipt, Prod.mk.injEq, Value.int.injEq, Nat.cast_inj, List.map_cons, List.map_nil,
    List.cons.injEq, Option.some.injEq, and_true] at h
  obtain ⟨rfl, rfl, rfl, rfl, rfl, rfl⟩ := h
  rfl

/-! ### Recorded runs -/

theorem columnInteger?_of_bind {v : Value} {d : Datum} {n : Nat} (h : Datum.bind n v = .ok d) :
    columnInteger? v = some d.toInteger := by
  rw [columnInteger?, Tables.bind_eq_ok_of_bind h 1]
  rfl

theorem columnInteger?_ofOption {i : Option Int} {d : Datum} (h : columnInteger? (.ofOption i) = some d) :
    d = .null ∨ ∃ n, d = .int n := by
  obtain ⟨b, hb, rfl⟩ := Option.map_eq_some_iff.1 h
  cases hbind : Datum.bind 1 (.ofOption i) with
  | error e =>
    rw [hbind] at hb
    cases hb
  | ok b' =>
    rw [hbind] at hb
    cases hb
    cases i with
    | none =>
      cases hbind
      exact .inl rfl
    | some n =>
      rw [Datum.eq_of_bind_int hbind]
      exact .inr ⟨n, rfl⟩

namespace Tables

theorem run_cases (t : Tables) (now : String) (c : StoreCall) :
    (Exchange.recorded? ⟨now, c, (t.call now c).1⟩ = none ∧ (t.call now c).2.runs = t.runs) ∨
      ∃ r : Record, r.toRow = ⟨t.runs.length + 1, now⟩ ∧
        Exchange.recorded? ⟨now, c, (t.call now c).1⟩ = some r.receipt ∧
        (t.call now c).2.runs = t.runs ++ [r] := by
  cases c with
  | init | scripts | script _ | runs _ => exact .inl ⟨rfl, rfl⟩
  | saveScript title code => exact .inl ⟨rfl, agree_call (x := .runs) (by simp [StoreCall.table?])⟩
  | saveRun scriptId steps outputBytes durationMs =>
    cases hsave : t.saveRun now scriptId steps outputBytes durationMs with
    | error e =>
      simp only [call, hsave]
      exact .inl ⟨rfl, trivial⟩
    | ok saved =>
      obtain ⟨n, t'⟩ := saved
      obtain ⟨a, b, c, d, ha, hb, hc, hd, rfl, rfl⟩ := saveRun_eq_ok hsave
      simp only [call, hsave]
      refine .inr ⟨_, rfl, ?_, rfl⟩
      simp only [Exchange.recorded?, List.map_cons, List.map_nil, columnInteger?_of_bind ha,
        columnInteger?_of_bind hb, columnInteger?_of_bind hc, columnInteger?_of_bind hd]
      rfl

theorem runs_serve (t : Tables) (calls : List (String × StoreCall)) :
    ∃ added : List Record,
      (Store.serve Tables.call t calls).1.filterMap Exchange.recorded? = added.map Record.receipt ∧
      (added.map fun r => r.id) = List.range' (t.runs.length + 1) added.length ∧
      (added.map fun r => r.createdAt).Sublist (calls.map Prod.fst) ∧
      (Store.serve Tables.call t calls).2.runs = t.runs ++ added :=
  rows_serve run_cases t calls

end Tables

theorem map_call_serve {σ : Type} (call : σ → String → StoreCall → Except StoreError Value × σ) (s : σ)
    (calls : List (String × StoreCall)) :
    (Store.serve call s calls).1.map (fun x => (x.now, x.call)) = calls := by
  induction calls generalizing s with
  | nil => rfl
  | cons c calls ih => rw [Store.serve, List.map_cons, ih]

/-- A run that is shown in the exchanges was recorded by a call that names its script. -/
theorem exists_call_of_receipt {log : List Exchange} {r : Record}
    (h : r.receipt ∈ log.filterMap Exchange.recorded?) :
    ∃ now a b c d, (now, .saveRun a b c d) ∈ log.map (fun x => (x.now, x.call)) ∧
      columnInteger? a = some r.scriptId := by
  obtain ⟨⟨now, c, answer⟩, hmem, hshown⟩ := List.mem_filterMap.1 h
  unfold Exchange.recorded? at hshown
  split at hshown
  · next now a b c d id heq =>
    cases heq
    obtain ⟨-, hrest⟩ := Prod.mk.inj (Option.some.inj hshown)
    obtain ⟨-, hdata⟩ := Prod.mk.inj hrest
    exact ⟨now, a, b, c, d, List.mem_map_of_mem hmem, (List.cons.inj hdata).1⟩
  · cases hshown

/-! ### Rows by their keys -/

/-- Rows are parted by their keys: there are those with each of some keys, and those with none of them. -/
theorem flatMap_filter_append_perm {α β : Type} [DecidableEq β] (key : α → β) (rows : List α)
    {keys : List β} (h : keys.Nodup) :
    ((keys.flatMap fun k => rows.filter (key · = k)) ++ rows.filter (key · ∉ keys)).Perm rows := by
  induction keys with
  | nil => simp
  | cons k keys ih =>
    obtain ⟨hk, hkeys⟩ := List.nodup_cons.1 h
    -- of the rows without one of the other keys, those with this one are split off
    have hthis : (rows.filter (key · ∉ keys)).filter (key · = k) = rows.filter (key · = k) := by
      rw [List.filter_filter]
      refine List.filter_congr fun r _ => ?_
      by_cases hr : key r = k
      · simp [hr, hk]
      · simp [hr]
    have hothers : (rows.filter (key · ∉ keys)).filter (fun r => !decide (key r = k)) =
        rows.filter (key · ∉ k :: keys) := by
      rw [List.filter_filter]
      refine List.filter_congr fun r _ => ?_
      simp
    have hsplit := List.filter_append_perm (fun r => decide (key r = k)) (rows.filter (key · ∉ keys))
    rw [hthis, hothers] at hsplit
    calc ((k :: keys).flatMap fun k => rows.filter (key · = k)) ++ rows.filter (key · ∉ k :: keys)
        = rows.filter (key · = k) ++ ((keys.flatMap fun k => rows.filter (key · = k)) ++
            rows.filter (key · ∉ k :: keys)) := by rw [List.flatMap_cons, List.append_assoc]
      List.Perm _ ((keys.flatMap fun k => rows.filter (key · = k)) ++ (rows.filter (key · = k) ++
          rows.filter (key · ∉ k :: keys))) := List.perm_append_comm_assoc _ _ _
      List.Perm _ ((keys.flatMap fun k => rows.filter (key · = k)) ++ rows.filter (key · ∉ keys)) :=
        hsplit.append_left _
      List.Perm _ rows := ih hkeys

/-- Runs are parted by their scripts: there are those with each of the numbers other than zero that occur,
and those with zero or no number. -/
theorem perm_filter_scriptId {rows : List Record}
    (hrows : ∀ r ∈ rows, r.scriptId = .null ∨ ∃ n, r.scriptId = .int n) {keys : List Int}
    (hnodup : keys.Nodup) (hkeys : ∀ k, k ∈ keys ↔ k ≠ 0 ∧ ∃ r ∈ rows, r.scriptId = .int k) :
    ((keys.flatMap fun k => rows.filter (·.scriptId = .int k)) ++
      rows.filter fun r => r.scriptId = .null ∨ r.scriptId = .int 0).Perm rows := by
  have hperm := flatMap_filter_append_perm Record.scriptId rows (hnodup.map fun _ _ => Datum.int.inj)
  have hrest : rows.filter (·.scriptId ∉ keys.map Datum.int) =
      rows.filter fun r => r.scriptId = .null ∨ r.scriptId = .int 0 := by
    refine List.filter_congr fun r hr => ?_
    rcases hrows r hr with hnull | ⟨n, hn⟩
    · simp [hnull]
    · have hmem : n ∈ keys ↔ n ≠ 0 := by
        rw [hkeys]
        exact ⟨And.left, fun hn0 => ⟨hn0, r, hr, hn⟩⟩
      simp [hn, hmem]
  rw [List.flatMap_map, hrest] at hperm
  exact hperm

/-! ### What is listed -/

namespace Tables

variable {t : Tables}

theorem runsOf_int (hids : (t.runs.map fun r => r.toRow.id).Nodup)
    (hrows : ∀ r ∈ t.runs, r.scriptId = .null ∨ ∃ n, r.scriptId = .int n) {k : Int}
    (hfits : Datum.fits k) (hk : k ≠ 0) :
    t.runsOf (.int k) = .ok ((newestFirst Record.toRow t.runs).filter (·.scriptId = .int k)) := by
  have htruth : (Value.int k).truth = true := by simpa [Value.truth] using hk
  have hsame : t.runs.filter (·.scriptId.same (Datum.int k).toInteger) =
      t.runs.filter (·.scriptId = .int k) := by
    refine List.filter_congr fun r hr => ?_
    rcases hrows r hr with hnull | ⟨n, hn⟩
    · simp [hnull]
    · simp [hn]
  rw [runsOf, if_pos htruth, Datum.bind, if_pos hfits]
  dsimp only
  rw [hsame, newestFirst_filter hids]

end Tables

namespace Store

/-- The rows that a store lists for a script, or for none: a call gives them, and every request for them is
answered with them. -/
structure Lists (s : Store) (scriptId : Option Int) (rows : List Record) : Prop where
  call : ∀ now, (s.call now (.runs (.ofOption scriptId))).1 = .ok (.list (rows.map Record.toValue))
  stats : ∀ (host : Service.Host) now durationMs (r : Service.Request),
    host.read r = .ok (.stats scriptId) →
    (Service.handle host now durationMs s r).1 = .reply 200 (.list (rows.map Record.toValue))

theorem Open.lists {s : Store} {tables : Tables} (h : s.Open) (htables : s.tables = some tables)
    {scriptId : Option Int} {rows : List Record} (hruns : tables.runsOf (.ofOption scriptId) = .ok rows) :
    s.Lists scriptId rows := by
  constructor
  · intro now
    rw [h.call_eq htables now rfl, Tables.call, hruns]
    rfl
  · intro host now durationMs r hr
    rw [Service.handle_of_read hr, Service.serve, Service.listRuns_fst, runs, h.look_eq htables, hruns]

/-- **The runs of a script are listed exactly.** Let a store that can be used, and whose tables are empty,
be asked to save scripts and to record runs, and for what it holds, in any order and at any times; the
scripts of the runs are integers, or not named. The calls that recorded a run gave it the numbers from one
on. All runs are listed, each once: those that were recorded later first, and of those with the same time the
one with the larger number; so from the last to the first if the clock has never gone back. For each integer
of 64 bits other than zero those of them are listed, in the same order, that were recorded with it, also if
the number stands in the query of a request. The number zero lists all. So the lists for the numbers other
than zero that occur, together with the runs with zero or no number, part the list of all. -/
theorem runs_of_script (s t : Store) (calls : List (String × StoreCall)) (log : List Exchange)
    (hopen : s.Open) (hnew : s.tables = some .empty) (hcalls : ∀ c ∈ calls, c.2.table?.isSome)
    (hscripts : ∀ now a b c d, (now, .saveRun a b c d) ∈ calls → ∃ i : Option Int, a = .ofOption i)
    (hserve : serve call s calls = (log, t)) :
    ∃ runs listed : List Record,
      log.filterMap Exchange.recorded? = runs.map Record.receipt ∧
      (runs.map fun r => r.id) = List.range' 1 runs.length ∧
      listed.Perm runs ∧ listed.Pairwise (fun a b => a.toRow.precedes b.toRow) ∧
      ((calls.map Prod.fst).Pairwise (· ≤ ·) → listed = runs.reverse) ∧
      t.Lists none listed ∧
      (∀ k : Int, Datum.fits k → k ≠ 0 →
        t.Lists (some k) (listed.filter (·.scriptId = .int k)) ∧
        ∀ body, Service.Host.usual.read ⟨"GET", "/stats", "script_id=" ++ toString k, body⟩ =
          .ok (.stats (some k))) ∧
      t.Lists (some 0) listed ∧
      ∀ keys : List Int, keys.Nodup →
        (∀ k, k ∈ keys ↔ k ≠ 0 ∧ ∃ r ∈ runs, r.scriptId = .int k) →
        ((keys.flatMap fun k => listed.filter (·.scriptId = .int k)) ++
          listed.filter fun r => r.scriptId = .null ∨ r.scriptId = .int 0).Perm listed := by
  have hserved := hopen.serve_eq hnew hcalls
  rw [hserve] at hserved
  obtain ⟨rfl, rfl⟩ := Prod.mk.inj hserved
  obtain ⟨runs, hrecorded, hids, htimes, hruns⟩ := Tables.runs_serve .empty calls
  have hkind : ∀ r ∈ runs, r.scriptId = .null ∨ ∃ n, r.scriptId = .int n := by
    intro r hr
    have hreceipt : r.receipt ∈ (serve Tables.call .empty calls).1.filterMap Exchange.recorded? := by
      rw [hrecorded]
      exact List.mem_map_of_mem hr
    obtain ⟨now, a, b, c, d, hmem, ha⟩ := exists_call_of_receipt hreceipt
    rw [map_call_serve] at hmem
    obtain ⟨i, rfl⟩ := hscripts now a b c d hmem
    exact columnInteger?_ofOption ha
  generalize (serve Tables.call .empty calls).2 = tables at hruns ⊢
  obtain rfl : tables.runs = runs := hruns
  have hnodup : (tables.runs.map fun r => r.toRow.id).Nodup := by
    rw [hids]
    exact List.nodup_range' 1
  have hperm := newestFirst_perm Record.toRow tables.runs
  have hlists : ∀ {i rows}, tables.runsOf (.ofOption i) = .ok rows →
      { s with tables := some tables }.Lists i rows := (hopen.replace tables).lists rfl
  refine ⟨tables.runs, newestFirst Record.toRow tables.runs, hrecorded, hids, hperm,
    pairwise_newestFirst _ _, fun hclock => newestFirst_eq_reverse hids (hclock.sublist htimes),
    hlists rfl, ?_, hlists rfl, ?_⟩
  · intro k hfits hk
    exact ⟨hlists (Tables.runsOf_int hnodup hkind hfits hk),
      fun body => Service.read_usual_of_queriedScript (Service.queriedScript_toString hfits) body⟩
  · intro keys hkeys hmem
    refine perm_filter_scriptId (fun r hr => hkind r (hperm.mem_iff.1 hr)) hkeys fun k => ?_
    rw [hmem]
    simp only [hperm.mem_iff]

/-- The default store, just made, is asked to record runs with the numbers 7, none, 7 and 0. In between, a
script is saved, and a run with a number that does not fit in 64 bits is refused. -/
theorem runs_of_script_mixed :
    ∃ s t log, (ofPath (.ofText defaultName)).init = (.ok (), s) ∧ s.Open ∧ s.tables = some .empty ∧
      serve call s [("09:00", .saveRun (.int 7) (.int 3) (.int 1) (.int 0)),
        ("09:00", .saveRun .null (.int 4) (.int 0) (.int 0)),
        ("09:00", .saveScript (.text "a") (.text "+.")),
        ("09:00", .saveRun (.int (Number.powerOfTwo 63)) (.int 5) (.int 0) (.int 0)),
        ("09:00", .saveRun (.int 7) (.int 6) (.int 2) (.int 1)),
        ("09:00", .saveRun (.int 0) (.int 8) (.int 0) (.int 0))] = (log, t) ∧
      t.Lists (some 7) [⟨⟨3, "09:00"⟩, .int 7, .int 6, .int 2, .int 1⟩,
        ⟨⟨1, "09:00"⟩, .int 7, .int 3, .int 1, .int 0⟩] ∧
      (Service.handle .usual "09:01" 0 t ⟨"GET", "/stats", "script_id=7", none⟩).1 =
        .reply 200 (.list [Record.toValue ⟨⟨3, "09:00"⟩, .int 7, .int 6, .int 2, .int 1⟩,
          Record.toValue ⟨⟨1, "09:00"⟩, .int 7, .int 3, .int 1, .int 0⟩]) ∧
      t.Lists (some (-5)) [] := by
  obtain ⟨s, hinit, hopen, hnew⟩ := exists_open_init
  generalize hcalls : [("09:00", StoreCall.saveRun (.int 7) (.int 3) (.int 1) (.int 0)),
    ("09:00", .saveRun .null (.int 4) (.int 0) (.int 0)),
    ("09:00", .saveScript (.text "a") (.text "+.")),
    ("09:00", .saveRun (.int (Number.powerOfTwo 63)) (.int 5) (.int 0) (.int 0)),
    ("09:00", .saveRun (.int 7) (.int 6) (.int 2) (.int 1)),
    ("09:00", .saveRun (.int 0) (.int 8) (.int 0) (.int 0))] = calls
  have htables : ∀ c ∈ calls, c.2.table?.isSome := by
    rw [← hcalls]
    simp [StoreCall.table?]
  have hclock : (calls.map Prod.fst).Pairwise (· ≤ ·) := by
    rw [← hcalls]
    simp
  have hscripts : ∀ now a b c d, (now, .saveRun a b c d) ∈ calls → ∃ i : Option Int, a = .ofOption i := by
    intro now a b c d hmem
    rw [← hcalls] at hmem
    simp only [List.mem_cons, Prod.mk.injEq, StoreCall.saveRun.injEq, List.not_mem_nil, or_false,
      reduceCtorEq, and_false, false_or] at hmem
    rcases hmem with ⟨-, rfl, -⟩ | ⟨-, rfl, -⟩ | ⟨-, rfl, -⟩ | ⟨-, rfl, -⟩ | ⟨-, rfl, -⟩
    · exact ⟨some 7, rfl⟩
    · exact ⟨none, rfl⟩
    · exact ⟨some (Number.powerOfTwo 63), rfl⟩
    · exact ⟨some 7, rfl⟩
    · exact ⟨some 0, rfl⟩
  have hserve := hopen.serve_eq hnew htables
  obtain ⟨runs, listed, hrecorded, -, -, -, horder, -, hlists, -, -⟩ :=
    runs_of_script s _ calls _ hopen hnew htables hscripts hserve
  have hlog : (serve Tables.call .empty calls).1.filterMap Exchange.recorded? =
      [⟨⟨1, "09:00"⟩, .int 7, .int 3, .int 1, .int 0⟩, ⟨⟨2, "09:00"⟩, .null, .int 4, .int 0, .int 0⟩,
        ⟨⟨3, "09:00"⟩, .int 7, .int 6, .int 2, .int 1⟩,
        ⟨⟨4, "09:00"⟩, .int 0, .int 8, .int 0, .int 0⟩].map Record.receipt := by
    rw [← hcalls]
    rfl
  obtain rfl := List.map_injective_iff.2 Record.receipt_injective (hrecorded.symm.trans hlog)
  obtain rfl := horder hclock
  obtain ⟨hseven, hreads⟩ := hlists 7 (by decide) (by decide)
  exact ⟨s, _, _, hinit, hopen, hnew, hserve, hseven, hseven.stats .usual _ 0 _ (hreads none),
    (hlists (-5) (by decide) (by decide)).1⟩

/-- The number zero is no filter: both of two runs are listed for it, though the newer one was recorded with
another number. -/
theorem runs_of_zero :
    ∃ s t log, (ofPath (.ofText defaultName)).init = (.ok (), s) ∧
      serve call s [("09:00", .saveRun (.int 0) (.int 1) (.int 1) (.int 1)),
        ("09:01", .saveRun (.int 1) (.int 2) (.int 2) (.int 2))] = (log, t) ∧
      t.Lists (some 0) [⟨⟨2, "09:01"⟩, .int 1, .int 2, .int 2, .int 2⟩,
        ⟨⟨1, "09:00"⟩, .int 0, .int 1, .int 1, .int 1⟩] := by
  obtain ⟨s, hinit, hopen, hnew⟩ := exists_open_init
  generalize hcalls : [("09:00", StoreCall.saveRun (.int 0) (.int 1) (.int 1) (.int 1)),
    ("09:01", .saveRun (.int 1) (.int 2) (.int 2) (.int 2))] = calls
  have htables : ∀ c ∈ calls, c.2.table?.isSome := by
    rw [← hcalls]
    simp [StoreCall.table?]
  have hlisted : newestFirst Record.toRow [⟨⟨1, "09:00"⟩, .int 0, .int 1, .int 1, .int 1⟩,
      ⟨⟨2, "09:01"⟩, .int 1, .int 2, .int 2, .int 2⟩] =
      [⟨⟨2, "09:01"⟩, .int 1, .int 2, .int 2, .int 2⟩,
        ⟨⟨1, "09:00"⟩, .int 0, .int 1, .int 1, .int 1⟩] :=
    newestFirst_eq_reverse rfl (by decide +kernel)
  have hruns : (serve Tables.call .empty calls).2.runsOf (.ofOption (some 0)) =
      .ok [⟨⟨2, "09:01"⟩, .int 1, .int 2, .int 2, .int 2⟩,
        ⟨⟨1, "09:00"⟩, .int 0, .int 1, .int 1, .int 1⟩] := by
    rw [← hcalls, ← hlisted]
    rfl
  exact ⟨s, _, _, hinit, hopen.serve_eq hnew htables, (hopen.replace _).lists rfl hruns⟩

end Store

end TapeMachine
