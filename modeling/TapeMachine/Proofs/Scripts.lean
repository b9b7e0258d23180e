import Mathlib
import TapeMachine.Proofs.Recency
import TapeMachine.Proofs.Store

/-!
# Saved scripts are kept

A store is asked to save scripts and to record runs, and in between for what it holds. Some calls fail.
What it must answer to a call about scripts can be read off the calls before it that saved one, and off the
times at which they were made.

## The model

`serve` makes calls one after the other, each at its time, and gives each with its answer.
`Exchange.saved?` is what an exchange saved, if it did: the number that was answered, the time, and the texts
of the title and the code.

## What is proved

* `Open.serve_eq`: a store that can be used answers as its tables do (`Tables.call`), so the rest is about
  tables.
* `Tables.call_cases`: a call saves no script and leaves the scripts alone, or puts one after them, with the
  next number and the time. Hence `Tables.scripts_serve`, for all calls together, which is the case of
  scripts of `Tables.rows_serve`.
* `Tables.agree_call` and `Tables.Agree.call`: a call looks at one table and changes no other.
* `scripts_exact`: the scripts that were saved are numbered from one, and each is found under its number,
  with its title and code, from then on. They are listed from the last to the first if the clock has not
  gone back.
-/

namespace TapeMachine

/-- The table that a call is about. -/
def StoreCall.table? : StoreCall → Option TableName
  | .init => none
  | .saveScript _ _ | .scripts | .script _ => some .scripts
  | .saveRun _ _ _ _ | .runs _ => some .runs

namespace Store

/-- A call, its time and its answer. -/
structure Exchange where
  now : String
  call : StoreCall
  answer : Except StoreError Value

/-- Make calls one after the other, each at its time. Gives the exchanges, and what is there in the end. -/
def serve {σ : Type} (call : σ → String → StoreCall → Except StoreError Value × σ) (s : σ) :
    List (String × StoreCall) → List Exchange × σ
  | [] => ([], s)
  | (now, c) :: calls =>
    (⟨now, c, (call s now c).1⟩ :: (serve call (call s now c).2 calls).1,
      (serve call (call s now c).2 calls).2)

/-- The text that a value is in a column of texts, if it can be stored there. A text is stored as it is. -/
def columnText? (v : Value) : Option String := (Datum.bind 1 v).toOption.bind Datum.toText?

/-- What an exchange saved: the number that was answered, the time, and the texts of the title and the
code. -/
def Exchange.saved? : Exchange → Option (Value × String × Option String × Option String)
  | ⟨now, .saveScript title code, .ok id⟩ => some (id, now, columnText? title, columnText? code)
  | _ => none

end Store

open Store

/-- What the exchange shows that saved a script. -/
def Script.receipt (r : Script) : Value × String × Option String × Option String :=
  (.int r.id, r.createdAt, some r.title, some r.code)

theorem Script.receipt_injective : Function.Injective Script.receipt := by
  rintro ⟨⟨id, time⟩, title, code⟩ ⟨⟨id', time'⟩, title', code'⟩ h
  simp only [receipt, Prod.mk.injEq, Value.int.injEq, Nat.cast_inj, Option.some.injEq] at h
  obtain ⟨rfl, rfl, rfl, rfl⟩ := h
  rfl

/-! ### Calls to tables -/

/-- What a call does to tables, if nothing keeps it from them. -/
def Tables.call (t : Tables) (now : String) : StoreCall → Except StoreError Value × Tables
  | .init => (.ok .null, t)
  | .saveScript title code =>
    match t.saveScript now title code with
    | .error e => (.error e, t)
    | .ok (n, t') => (.ok (.int n), t')
  | .scripts => (.ok (.list (t.allScripts.map Script.summary)), t)
  | .script id => ((t.script? id).map fun row => (row.map Script.toValue).getD .null, t)
  | .saveRun a b c d =>
    match t.saveRun now a b c d with
    | .error e => (.error e, t)
    | .ok (n, t') => (.ok (.int n), t')
  | .runs id => ((t.runsOf id).map fun rows => .list (rows.map Record.toValue), t)

namespace Store

section Serving

variable {s : Store} {tables : Tables}

theorem replace_self (htables : s.tables = some tables) : { s with tables := some tables } = s := by
  rw [← htables]

theorem Open.look_eq {α : Type} (h : s.Open) (htables : s.tables = some tables) (t : TableName)
    (use : Tables → Except StoreError α) : s.look t use = (use tables, s) := by
  unfold look
  rw [h.withTables_eq htables]
  cases use tables with
  | error e => rfl
  | ok a => exact congrArg (Prod.mk _) (replace_self htables)

/-- A store that can be used does to its tables what the call does to tables. -/
theorem Open.call_eq (h : s.Open) (htables : s.tables = some tables) (now : String) {c : StoreCall}
    (hc : c.table?.isSome) :
    s.call now c = ((tables.call now c).1, { s with tables := some (tables.call now c).2 }) := by
  cases c with
  | init => cases hc
  | saveScript title code =>
    simp only [Store.call, saveScript, Tables.call]
    rw [h.withTables_eq htables]
    cases tables.saveScript now title code with
    | error e => exact congrArg (Prod.mk _) (replace_self htables).symm
    | ok x => rfl
  | scripts =>
    simp only [Store.call, scripts, Tables.call]
    rw [h.look_eq htables, replace_self htables]
    rfl
  | script id =>
    simp only [Store.call, script?, Tables.call]
    rw [h.look_eq htables, replace_self htables]
    rfl
  | saveRun a b c d =>
    simp only [Store.call, saveRun, Tables.call]
    rw [h.withTables_eq htables]
    cases tables.saveRun now a b c d with
    | error e => exact congrArg (Prod.mk _) (replace_self htables).symm
    | ok x => rfl
  | runs id =>
    simp only [Store.call, runs, Tables.call]
    rw [h.look_eq htables, replace_self htables]
    rfl

/-- A store that can be used answers as its tables do, and goes on to hold what they become. -/
theorem Open.serve_eq (h : s.Open) (htables : s.tables = some tables) {calls : List (String × StoreCall)}
    (hcalls : ∀ c ∈ calls, c.2.table?.isSome) :
    serve Store.call s calls = ((serve Tables.call tables calls).1,
      { s with tables := some (serve Tables.call tables calls).2 }) := by
  induction calls generalizing s tables with
  | nil => exact congrArg (Prod.mk _) (replace_self htables).symm
  | cons c calls ih =>
    obtain ⟨now, c⟩ := c
    have hcall := h.call_eq htables now (hcalls (now, c) List.mem_cons_self)
    have hrest := ih (h.replace (tables.call now c).2) rfl
      fun c' hc' => hcalls c' (List.mem_cons_of_mem _ hc')
    simp only [serve, hcall, hrest]

end Serving

end Store

namespace Tables

/-! ### Rows -/

theorem bind_eq_ok_of_bind {v : Value} {d : Datum} {m : Nat} (h : Datum.bind m v = .ok d) (n : Nat) :
    Datum.bind n v = .ok d := by
  cases v with
  | null | bool _ | int _ | text _ => exact h
  | real x => cases x <;> exact h
  | _ => cases h

/-- Whether a script can be saved, and with which texts, is the same for all tables. -/
theorem saveScript_uniform (now : String) (title code : Value) :
    (∃ e, ∀ t : Tables, t.saveScript now title code = .error e) ∨
      ∃ a b, columnText? title = some a ∧ columnText? code = some b ∧ ∀ t : Tables,
        t.saveScript now title code = .ok (t.scripts.length + 1,
          { t with scripts := t.scripts ++ [⟨⟨t.scripts.length + 1, now⟩, a, b⟩] }) := by
  unfold saveScript columnText?
  cases htitle : Datum.bind 1 title with
  | error e => exact .inl ⟨e, fun _ => rfl⟩
  | ok d =>
    cases hcode : Datum.bind 2 code with
    | error e => exact .inl ⟨e, fun _ => rfl⟩
    | ok d' =>
      rw [bind_eq_ok_of_bind hcode 1]
      cases ha : d.toText? with
      | none => exact .inl ⟨.nullTitle, fun _ => by simp only [ha]⟩
      | some a =>
        cases hb : d'.toText? with
        | none => exact .inl ⟨.nullCode, fun _ => by simp only [ha, hb]⟩
        | some b => exact .inr ⟨a, b, ha, hb, fun _ => by simp only [ha, hb]⟩

theorem saveRun_uniform (now : String) (scriptId steps outputBytes durationMs : Value) :
    (∃ e, ∀ t : Tables, t.saveRun now scriptId steps outputBytes durationMs = .error e) ∨
      ∃ row : Nat → Record, ∀ t : Tables, t.saveRun now scriptId steps outputBytes durationMs =
        .ok (t.runs.length + 1, { t with runs := t.runs ++ [row (t.runs.length + 1)] }) := by
  unfold saveRun
  cases Datum.bind 1 scriptId with
  | error e => exact .inl ⟨e, fun _ => rfl⟩
  | ok a =>
    cases Datum.bind 2 steps with
    | error e => exact .inl ⟨e, fun _ => rfl⟩
    | ok b =>
      cases Datum.bind 3 outputBytes with
      | error e => exact .inl ⟨e, fun _ => rfl⟩
      | ok c =>
        cases Datum.bind 4 durationMs with
        | error e => exact .inl ⟨e, fun _ => rfl⟩
        | ok d =>
          exact .inr ⟨fun n => ⟨⟨n, now⟩, a.toInteger, b.toInteger, c.toInteger, d.toInteger⟩,
            fun _ => rfl⟩

/-- If each call shows no new row and leaves the rows of a table alone, or shows one and puts it after
them with the next number and the time, then all calls together number the new rows on, stamp them in the
order of the calls, and put them after those that were there. -/
theorem rows_serve {ρ γ : Type} {rows : Tables → List ρ} {row : ρ → Row} {shown? : Exchange → Option γ}
    {receipt : ρ → γ}
    (hcases : ∀ (t : Tables) (now : String) (c : StoreCall),
      (shown? ⟨now, c, (t.call now c).1⟩ = none ∧ rows (t.call now c).2 = rows t) ∨
        ∃ r, row r = ⟨(rows t).length + 1, now⟩ ∧
          shown? ⟨now, c, (t.call now c).1⟩ = some (receipt r) ∧ rows (t.call now c).2 = rows t ++ [r])
    (t : Tables) (calls : List (String × StoreCall)) :
    ∃ added : List ρ,
      (serve Tables.call t calls).1.filterMap shown? = added.map receipt ∧
      (added.map fun r => (row r).id) = List.range' ((rows t).length + 1) added.length ∧
      (added.map fun r => (row r).createdAt).Sublist (calls.map Prod.fst) ∧
      rows (serve Tables.call t calls).2 = rows t ++ added := by
  induction calls generalizing t with
  | nil => exact ⟨[], rfl, rfl, .slnil, (List.append_nil _).symm⟩
  | cons c calls ih =>
    obtain ⟨now, c⟩ := c
    obtain ⟨added, hshown, hids, htimes, hrows⟩ := ih (t.call now c).2
    rcases hcases t now c with ⟨hnone, hsame⟩ | ⟨r, hrow, hsome, hmore⟩
    · rw [hsame] at hids hrows
      refine ⟨added, ?_, hids, htimes.cons now, hrows⟩
      simp only [serve]
      rw [List.filterMap_cons_none hnone, hshown]
    · rw [hmore] at hids hrows
      refine ⟨r :: added, ?_, ?_, ?_, ?_⟩
      · simp only [serve]
        rw [List.filterMap_cons_some hsome, hshown, List.map_cons]
      · rw [List.map_cons, hids, hrow, List.length_append, List.length_singleton, List.length_cons,
          List.range'_succ]
      · rw [List.map_cons, hrow]
        exact htimes.cons_cons now
      · simp only [serve]
        rw [hrows, List.append_assoc, List.singleton_append]

/-! ### One table at a time -/

/-- Both have the same rows in a table. -/
def Agree (t t' : Tables) : TableName → Prop
  | .scripts => t.scripts = t'.scripts
  | .runs => t.runs = t'.runs

section Agreeing

variable {t t' : Tables} {x : TableName} {now : String} {c : StoreCall}

theorem agree_call (hc : c.table? ≠ some x) : (t.call now c).2.Agree t x := by
  cases c with
  | init | scripts | script _ | runs _ => cases x <;> rfl
  | saveScript title code =>
    cases x with
    | scripts => exact absurd rfl hc
    | runs =>
      rcases saveScript_uniform now title code with ⟨e, hsave⟩ | ⟨a, b, -, -, hsave⟩
      all_goals
        simp only [call, hsave]
        rfl
  | saveRun a b c d =>
    cases x with
    | runs => exact absurd rfl hc
    | scripts =>
      rcases saveRun_uniform now a b c d with ⟨e, hsave⟩ | ⟨row, hsave⟩
      all_goals
        simp only [call, hsave]
        rfl

/-- What a call answers, and what it does to its table, depends on that table alone. -/
theorem Agree.call (h : t.Agree t' x) (hc : c.table? = some x) :
    (t.call now c).1 = (t'.call now c).1 ∧ (t.call now c).2.Agree (t'.call now c).2 x := by
  cases c with
  | init => cases hc
  | saveScript title code =>
    cases hc
    replace h : t.scripts = t'.scripts := h
    rcases saveScript_uniform now title code with ⟨e, hsave⟩ | ⟨a, b, -, -, hsave⟩
    · simp only [Tables.call, hsave]
      exact ⟨trivial, h⟩
    · simp only [Tables.call, hsave, Agree, h, and_self]
  | scripts =>
    cases hc
    replace h : t.scripts = t'.scripts := h
    simp only [Tables.call, allScripts, Agree, h, and_self]
  | script id =>
    cases hc
    replace h : t.scripts = t'.scripts := h
    simp only [Tables.call, script?, Agree, h, and_self]
  | saveRun a b c d =>
    cases hc
    replace h : t.runs = t'.runs := h
    rcases saveRun_uniform now a b c d with ⟨e, hsave⟩ | ⟨row, hsave⟩
    · simp only [Tables.call, hsave]
      exact ⟨trivial, h⟩
    · simp only [Tables.call, hsave, Agree, h, and_self]
  | runs id =>
    cases hc
    replace h : t.runs = t'.runs := h
    simp only [Tables.call, runsOf, Agree, h, and_self]

/-- The exchanges about one table are those that there would be without the others. -/
theorem Agree.filter_serve (h : t.Agree t' x) (calls : List (String × StoreCall)) :
    (serve Tables.call t calls).1.filter (·.call.table? = some x) =
      (serve Tables.call t' (calls.filter (·.2.table? = some x))).1 := by
  induction calls generalizing t t' with
  | nil => rfl
  | cons c calls ih =>
    obtain ⟨now, c⟩ := c
    by_cases hc : c.table? = some x
    · obtain ⟨hanswer, hafter⟩ := h.call hc
      rw [List.filter_cons_of_pos (by simpa using hc)]
      simp only [serve]
      rw [List.filter_cons_of_pos (by simpa using hc), hanswer, ih hafter]
    · have hkept : (t.call now c).2.Agree t' x := by
        have hsame : (t.call now c).2.Agree t x := agree_call hc
        cases x with
        | scripts | runs => exact Eq.trans hsame h
      rw [List.filter_cons_of_neg (by simpa using hc)]
      simp only [serve]
      rw [List.filter_cons_of_neg (by simpa using hc), ih hkept]

end Agreeing

/-! ### Scripts -/

theorem call_cases (t : Tables) (now : String) (c : StoreCall) :
    (Exchange.saved? ⟨now, c, (t.call now c).1⟩ = none ∧ (t.call now c).2.scripts = t.scripts) ∨
      ∃ r : Script, r.toRow = ⟨t.scripts.length + 1, now⟩ ∧
        Exchange.saved? ⟨now, c, (t.call now c).1⟩ = some r.receipt ∧
        (t.call now c).2.scripts = t.scripts ++ [r] := by
  cases c with
  | init | scripts | script _ | runs _ => exact .inl ⟨rfl, rfl⟩
  | saveScript title code =>
    rcases saveScript_uniform now title code with ⟨e, hsave⟩ | ⟨a, b, ha, hb, hsave⟩
    · simp only [call, hsave]
      exact .inl ⟨rfl, trivial⟩
    · simp only [call, hsave, Exchange.saved?, ha, hb]
      exact .inr ⟨⟨⟨t.scripts.length + 1, now⟩, a, b⟩, rfl, rfl, rfl⟩
  | saveRun a b c d => exact .inl ⟨rfl, agree_call (x := .scripts) (by simp [StoreCall.table?])⟩

theorem scripts_serve (t : Tables) (calls : List (String × StoreCall)) :
    ∃ added : List Script,
      (serve Tables.call t calls).1.filterMap Exchange.saved? = added.map Script.receipt ∧
      (added.map fun r => r.id) = List.range' (t.scripts.length + 1) added.length ∧
      (added.map fun r => r.createdAt).Sublist (calls.map Prod.fst) ∧
      (serve Tables.call t calls).2.scripts = t.scripts ++ added :=
  rows_serve call_cases t calls

theorem script?_int (t : Tables) {i : Int} (hfits : Datum.fits i) :
    t.script? (.int i) = .ok (t.scripts.find? fun r => (r.id : Int) = i) := by
  simp only [script?, Datum.bind, hfits, if_true, Datum.toInteger_int, Datum.int.injEq]

end Tables

/-! ### Finding a script -/

section Numbered

variable {scripts : List Script}

theorem id_of_getElem? (hids : (scripts.map fun r => r.id) = List.range' 1 scripts.length) {k : Nat}
    {r : Script} (hk : scripts[k]? = some r) : r.id = k + 1 := by
  have hid := congrArg (·[k]?) hids
  have hlt := (List.getElem?_eq_some_iff.1 hk).1
  simp only [List.getElem?_map, hk, Option.map_some, List.getElem?_range' hlt] at hid
  have := Option.some.inj hid
  omega

theorem find?_of_getElem? (hids : (scripts.map fun r => r.id) = List.range' 1 scripts.length) {k : Nat}
    {r : Script} (hk : scripts[k]? = some r) :
    scripts.find? (fun r' => (r'.id : Int) = k + 1) = some r := by
  have hid := id_of_getElem? hids hk
  cases hfind : scripts.find? (fun r' => (r'.id : Int) = k + 1) with
  | none =>
    have hno := List.find?_eq_none.1 hfind r (List.mem_of_getElem? hk)
    exact absurd (by rw [hid]; simp) hno
  | some r' =>
    have hid' := List.find?_some hfind
    rw [decide_eq_true_eq] at hid'
    obtain ⟨m, hm⟩ := List.mem_iff_getElem?.1 (List.mem_of_find?_eq_some hfind)
    obtain rfl : m = k := by
      have := id_of_getElem? hids hm
      omega
    exact congrArg some (Option.some.inj (hm.symm.trans hk))

theorem find?_eq_none_of_outside (hids : (scripts.map fun r => r.id) = List.range' 1 scripts.length)
    {i : Int} (hi : ¬ (1 ≤ i ∧ i ≤ scripts.length)) :
    scripts.find? (fun r => (r.id : Int) = i) = none := by
  rw [List.find?_eq_none]
  intro r hr heq
  have hid : r.id ∈ List.range' 1 scripts.length := by
    rw [← hids]
    exact List.mem_map_of_mem hr
  rw [List.mem_range'_1] at hid
  rw [decide_eq_true_eq] at heq
  omega

end Numbered

namespace Store

/-- **Saved scripts are never lost, changed or mixed up.** Let a store that can be used, and whose tables
are empty, be asked to save scripts and to record runs, and for what it holds, with arguments of any kind,
in any order and at any times. The calls that saved a script gave it the numbers from one on, and stored
texts as they were given. Afterwards each script is found under its number with the title and the code that
it was saved with, and no script under another number; another one is saved under the next number; and all
of them are listed, each once: from the largest number down to one if the clock has never gone back. The
calls about one table are answered as if there were no calls about the other. -/
theorem scripts_exact (s t : Store) (calls : List (String × StoreCall)) (log : List Exchange)
    (hopen : s.Open) (hnew : s.tables = some .empty) (hcalls : ∀ c ∈ calls, c.2.table?.isSome)
    (hserve : serve call s calls = (log, t)) :
    (∃ scripts listed : List Script,
      log.filterMap Exchange.saved? = scripts.map Script.receipt ∧
      (∀ text, columnText? (.text text) = some text) ∧
      (scripts.map fun r => r.id) = List.range' 1 scripts.length ∧
      (∀ now (k : Nat) r, scripts[k]? = some r → Datum.fits (k + 1) →
        (t.call now (.script (.int (k + 1)))).1 = .ok r.toValue) ∧
      (∀ now (i : Int), ¬ (1 ≤ i ∧ i ≤ scripts.length) → Datum.fits i →
        (t.call now (.script (.int i))).1 = .ok .null) ∧
      (∀ now, (t.call now .scripts).1 = .ok (.list (listed.map Script.summary))) ∧
      listed.Perm scripts ∧
      ((calls.map Prod.fst).Pairwise (· ≤ ·) → listed = scripts.reverse) ∧
      ∀ now title code, (t.call now (.saveScript (.text title) (.text code))).1 =
        .ok (.int (scripts.length + 1))) ∧
    ∀ x : TableName, log.filter (·.call.table? = some x) =
      (serve call s (calls.filter (·.2.table? = some x))).1 := by
  have hserved := hopen.serve_eq hnew hcalls
  rw [hserve] at hserved
  obtain ⟨rfl, rfl⟩ := Prod.mk.inj hserved
  constructor
  · obtain ⟨scripts, hsaved, hids, htimes, hscripts⟩ := Tables.scripts_serve .empty calls
    generalize (serve Tables.call .empty calls).2 = tables at hscripts ⊢
    replace hscripts : tables.scripts = scripts := hscripts
    have hanswer : ∀ now (c : StoreCall), c.table?.isSome →
        ({ s with tables := some tables }.call now c).1 = (tables.call now c).1 := by
      intro now c hc
      rw [(hopen.replace tables).call_eq rfl now hc]
    refine ⟨scripts, tables.allScripts, hsaved, fun _ => rfl, hids, ?_, ?_, ?_, ?_, ?_, ?_⟩
    · intro now k r hk hfits
      rw [hanswer _ _ rfl]
      rw [Tables.call, Tables.script?_int _ hfits, hscripts, find?_of_getElem? hids hk]
      rfl
    · intro now i hi hfits
      rw [hanswer _ _ rfl]
      rw [Tables.call, Tables.script?_int _ hfits, hscripts, find?_eq_none_of_outside hids hi]
      rfl
    · intro now
      rw [hanswer _ _ rfl, Tables.call]
    · rw [Tables.allScripts, hscripts]
      exact newestFirst_perm _ _
    · intro hclock
      rw [Tables.allScripts, hscripts]
      exact newestFirst_eq_reverse hids (hclock.sublist htimes)
    · intro now title code
      rw [hanswer _ _ rfl]
      simp only [Tables.call, Tables.saveScript, Datum.bind, Datum.toText?, hscripts]
      rfl
  · intro x
    rw [hopen.serve_eq hnew fun c hc => hcalls c (List.mem_of_mem_filter hc)]
    exact Tables.Agree.filter_serve (by cases x <;> rfl) calls

/-- The default store, just made, is asked to save two scripts with one title within a second. In between, a
script without a title is refused, and a run whose steps do not fit in 64 bits. -/
theorem scripts_exact_interleaved :
    ∃ s t log, (ofPath (.ofText defaultName)).init = (.ok (), s) ∧ s.Open ∧ s.tables = some .empty ∧
      serve call s [("09:00:00", .saveScript (.text "a") (.text "+.")),
        ("09:00:00", .saveScript .null (.text "-")),
        ("09:00:00", .saveRun (.int 1) (.int (Number.powerOfTwo 63)) (.int 0) (.int 0)),
        ("09:00:00", .saveRun (.int 1) (.int 2) (.int 1) (.int 0)),
        ("09:00:00", .saveScript (.text "a") (.text ""))] = (log, t) ∧
      log.filterMap Exchange.saved? =
        [(.int 1, "09:00:00", some "a", some "+."), (.int 2, "09:00:00", some "a", some "")] ∧
      (t.call "09:00:01" (.script (.int 2))).1 = .ok (Script.toValue ⟨⟨2, "09:00:00"⟩, "a", ""⟩) ∧
      (t.call "09:00:01" (.script (.int 3))).1 = .ok .null ∧
      (t.call "09:00:01" .scripts).1 = .ok (.list [Script.summary ⟨⟨2, "09:00:00"⟩, "a", ""⟩,
        Script.summary ⟨⟨1, "09:00:00"⟩, "a", "+."⟩]) := by
  obtain ⟨s, hinit, hopen, hnew⟩ := exists_open_init
  generalize hcalls : [("09:00:00", StoreCall.saveScript (.text "a") (.text "+.")),
    ("09:00:00", .saveScript .null (.text "-")),
    ("09:00:00", .saveRun (.int 1) (.int (Number.powerOfTwo 63)) (.int 0) (.int 0)),
    ("09:00:00", .saveRun (.int 1) (.int 2) (.int 1) (.int 0)),
    ("09:00:00", .saveScript (.text "a") (.text ""))] = calls
  have htables : ∀ c ∈ calls, c.2.table?.isSome := by
    rw [← hcalls]
    simp [StoreCall.table?]
  have hclock : (calls.map Prod.fst).Pairwise (· ≤ ·) := by
    rw [← hcalls]
    simp
  have hserve := hopen.serve_eq hnew htables
  have hlog : (serve Tables.call .empty calls).1.filterMap Exchange.saved? =
      [(.int 1, "09:00:00", some "a", some "+."), (.int 2, "09:00:00", some "a", some "")] := by
    rw [← hcalls]
    rfl
  obtain ⟨⟨scripts, listed, hsaved, -, -, hfound, hother, hlists, -, horder, -⟩, -⟩ :=
    scripts_exact s _ calls _ hopen hnew htables hserve
  obtain rfl : scripts = [⟨⟨1, "09:00:00"⟩, "a", "+."⟩, ⟨⟨2, "09:00:00"⟩, "a", ""⟩] :=
    List.map_injective_iff.2 Script.receipt_injective (hsaved.symm.trans hlog)
  rw [horder hclock] at hlists
  exact ⟨s, _, _, hinit, hopen, hnew, hserve, hlog, hfound _ 1 _ rfl (by decide),
    hother _ 3 (by decide) (by decide), hlists _⟩

end Store

end TapeMachine
