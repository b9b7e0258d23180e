import Mathlib
import TapeMachine.Store

/-!
# What a call does to a store

A call opens the store, which may make its file but touches no table, and then uses one table. It either
fails and leaves the tables as they were, or it does what the table's own operation does
(`withTables_cases`). A store is `Open` if it can be used: opening it changes nothing, and its tables are
made. It stays so through all calls (`Open.withTables`), and then only the table's operation can fail
(`Open.withTables_eq`).
-/

namespace TapeMachine

namespace Store

/-- The runs that are recorded in a store, in the order in which they were. -/
def recorded (s : Store) : List Record := (s.tables.getD .empty).runs

/-- The store can be used: opening it changes nothing, and its tables are made. -/
structure Open (s : Store) : Prop where
  enter : ∃ site, s.enter = (.ok site, s)
  made : ∃ tables, s.tables = some tables

/-- Opening looks at the path and at the files, and not at the tables. -/
theorem enter_replace (s : Store) (tables : Option Tables) :
    { s with tables := tables }.enter = (s.enter.1, { s.enter.2 with tables := tables }) := by
  have htouch : ∀ site, { s with tables := tables }.touch site =
      { s.touch site with tables := tables } := by
    intro site
    cases site with
    | passing => rfl
    | file place use =>
      unfold touch
      dsimp only
      split <;> rfl
  have hhindrance : ∀ (t : Store) site, { t with tables := tables }.hindrance? site =
      t.hindrance? site := fun t site => by cases site <;> rfl
  have hsite : { s with tables := tables }.openSite = s.openSite := rfl
  unfold enter
  rw [hsite]
  cases s.openSite with
  | error e => rfl
  | ok site =>
    dsimp only
    rw [htouch, hhindrance]
    cases (s.touch site).hindrance? site <;> rfl

theorem tables_enter (s : Store) : s.enter.2.tables = s.tables := by
  have h := congrArg (fun x => x.2.tables) (enter_replace s s.tables)
  exact h

/-- A call fails and leaves the tables as they were, or it does what the operation on its table does. -/
theorem withTables_cases {α : Type} (s : Store) (t : TableName)
    (use : Tables → Except StoreError (α × Tables)) :
    (∃ e, (s.withTables t use).1 = .error e ∧ (s.withTables t use).2.tables = s.tables) ∨
      ∃ tables a after, s.tables = some tables ∧ use tables = .ok (a, after) ∧
        (s.withTables t use).1 = .ok a ∧ (s.withTables t use).2.tables = some after := by
  have htables := tables_enter s
  unfold withTables
  split
  · next e s' henter =>
    rw [henter] at htables
    exact .inl ⟨e, rfl, htables⟩
  · next site path tree henter =>
    rw [henter] at htables
    exact .inl ⟨_, rfl, htables⟩
  · next site path tree tables henter =>
    rw [henter] at htables
    cases huse : use tables with
    | error e => exact .inl ⟨e, rfl, htables⟩
    | ok x => exact .inr ⟨tables, x.1, x.2, htables.symm, huse, rfl, rfl⟩

/-- In a store that can be used, only the operation on the table can fail. -/
theorem Open.withTables_eq {α : Type} {s : Store} (h : s.Open) {tables : Tables}
    (htables : s.tables = some tables) (t : TableName)
    (use : Tables → Except StoreError (α × Tables)) :
    s.withTables t use =
      match use tables with
      | .error e => (.error e, s)
      | .ok (a, after) => (.ok a, { s with tables := some after }) := by
  obtain ⟨site, henter⟩ := h.enter
  obtain ⟨path, tree, _⟩ := s
  cases htables
  unfold withTables
  cases huse : use tables with
  | error _ | ok _ => simp only [henter, huse]

theorem Open.replace {s : Store} (h : s.Open) (tables : Tables) :
    { s with tables := some tables }.Open := by
  obtain ⟨site, henter⟩ := h.enter
  refine ⟨⟨site, ?_⟩, tables, rfl⟩
  rw [enter_replace, henter]

theorem Open.withTables {α : Type} {s : Store} (h : s.Open) (t : TableName)
    (use : Tables → Except StoreError (α × Tables)) : (s.withTables t use).2.Open := by
  obtain ⟨tables, htables⟩ := h.made
  rw [h.withTables_eq htables]
  split
  · exact h
  · exact h.replace _

end Store

/-! ### Rows -/

theorem Datum.eq_of_bind_int {position : Nat} {n : Int} {d : Datum}
    (h : bind position (.int n) = .ok d) : d = .int n := by
  rw [bind] at h
  by_cases hfits : fits n = true
  · rw [if_pos hfits] at h
    exact (Except.ok.inj h).symm
  · rw [if_neg hfits] at h
    cases h

theorem Datum.toValue_of_bind_ofOption {position : Nat} {n : Option Int} {d : Datum}
    (h : bind position (.ofOption n) = .ok d) : d.toInteger.toValue = .ofOption n := by
  cases n with
  | none =>
    cases h
    rfl
  | some n =>
    rw [eq_of_bind_int h]
    rfl

/-- Recording a run puts one row with the next number and the time after the others. -/
theorem Tables.saveRun_eq_ok {t t' : Tables} {now : String}
    {scriptId steps outputBytes durationMs : Value} {n : Nat}
    (h : t.saveRun now scriptId steps outputBytes durationMs = .ok (n, t')) :
    ∃ a b c d, Datum.bind 1 scriptId = .ok a ∧ Datum.bind 2 steps = .ok b ∧
      Datum.bind 3 outputBytes = .ok c ∧ Datum.bind 4 durationMs = .ok d ∧
      n = t.runs.length + 1 ∧
      t' = { t with
        runs := t.runs ++ [⟨⟨n, now⟩, a.toInteger, b.toInteger, c.toInteger, d.toInteger⟩] } := by
  unfold saveRun at h
  split at h
  · cases h
  · next a ha =>
    split at h
    · cases h
    · next b hb =>
      split at h
      · cases h
      · next c hc =>
        split at h
        · cases h
        · next d hd =>
          cases h
          exact ⟨a, b, c, d, ha, hb, hc, hd, rfl, rfl⟩

theorem Tables.runs_of_saveScript {t t' : Tables} {now : String} {title code : Value} {n : Nat}
    (h : t.saveScript now title code = .ok (n, t')) : t'.runs = t.runs := by
  unfold saveScript at h
  split at h
  · cases h
  · split at h
    · cases h
    · split at h <;> cases h
      rfl

namespace Store

theorem recorded_of_tables {s s' : Store} (h : s'.tables = s.tables) : s'.recorded = s.recorded := by
  rw [recorded, recorded, h]

theorem recorded_look {α : Type} (s : Store) (t : TableName) (use : Tables → Except StoreError α) :
    (s.look t use).2.recorded = s.recorded := by
  unfold look
  rcases withTables_cases s t fun tables => (use tables).map (·, tables) with
    ⟨e, -, htables⟩ | ⟨tables, a, after, htables, huse, -, hafter⟩
  · exact recorded_of_tables htables
  · refine recorded_of_tables (hafter.trans ?_)
    rw [htables]
    cases hlook : use tables with
    | error e =>
      rw [hlook] at huse
      cases huse
    | ok x =>
      rw [hlook] at huse
      cases huse
      rfl

theorem recorded_saveScript (s : Store) (now : String) (title code : Value) :
    (s.saveScript now title code).2.recorded = s.recorded := by
  rcases withTables_cases s .scripts (·.saveScript now title code) with
    ⟨e, -, htables⟩ | ⟨tables, n, after, htables, huse, -, hafter⟩
  · exact recorded_of_tables htables
  · have hruns := Tables.runs_of_saveScript huse
    unfold saveScript
    rw [recorded, recorded, hafter, htables]
    exact hruns

/-- A run is recorded with the next number and the time, after the others; or the call fails, and nothing
changes. -/
theorem saveRun_cases (s : Store) (now : String) (scriptId : Option Int) (steps bytes durationMs : Int) :
    (∃ e, (s.saveRun now (.ofOption scriptId) (.int steps) (.int bytes) (.int durationMs)).1 = .error e ∧
        (s.saveRun now (.ofOption scriptId) (.int steps) (.int bytes) (.int durationMs)).2.recorded =
          s.recorded) ∨
      ∃ record : Record, record.toRow = ⟨s.recorded.length + 1, now⟩ ∧
        (s.saveRun now (.ofOption scriptId) (.int steps) (.int bytes) (.int durationMs)).1 =
          .ok record.id ∧
        (s.saveRun now (.ofOption scriptId) (.int steps) (.int bytes) (.int durationMs)).2.recorded =
          s.recorded ++ [record] ∧
        record.toValue = .table [("run_id", .int (s.recorded.length + 1 : Nat)),
          ("script_id", .ofOption scriptId), ("steps", .int steps), ("output_bytes", .int bytes),
          ("duration_ms", .int durationMs), ("created_at", .text now)] := by
  rcases withTables_cases s .runs
      (·.saveRun now (.ofOption scriptId) (.int steps) (.int bytes) (.int durationMs)) with
    ⟨e, he, htables⟩ | ⟨tables, n, after, htables, huse, hn, hafter⟩
  · exact .inl ⟨e, he, recorded_of_tables htables⟩
  · obtain ⟨a, b, c, d, ha, hb, hc, hd, rfl, rfl⟩ := Tables.saveRun_eq_ok huse
    have hrecorded : s.recorded = tables.runs := by rw [recorded, htables]; rfl
    refine .inr ⟨⟨⟨_, now⟩, a.toInteger, b.toInteger, c.toInteger, d.toInteger⟩, ?_, hn, ?_, ?_⟩
    · rw [hrecorded]
    · rw [hrecorded]
      unfold saveRun
      rw [recorded, hafter]
      rfl
    · rw [Record.toValue, Datum.toValue_of_bind_ofOption ha, Datum.eq_of_bind_int hb,
        Datum.eq_of_bind_int hc, Datum.eq_of_bind_int hd, hrecorded]
      rfl

/-- The store that is used by default can be used once it is made. -/
theorem exists_open_init :
    ∃ s, (ofPath (.ofText defaultName)).init = (.ok (), s) ∧ s.Open ∧ s.tables = some .empty := by
  -- the file is made when the store is opened first, and found from then on
  have henter : ∀ files, files = [] ∨ files = [([defaultName], [])] →
      (Store.mk (.ofText defaultName) ⟨[], files⟩ none).enter =
        (.ok (.file [defaultName] {}), ⟨.ofText defaultName, ⟨[], [([defaultName], [])]⟩, none⟩) := by
    rintro files (rfl | rfl)
    · have hsite : (Store.mk (.ofText defaultName) ⟨[], []⟩ none).openSite =
          .ok (.file [defaultName] {}) := by decide +kernel
      rw [enter, hsite]
      rfl
    · have hsite : (Store.mk (.ofText defaultName) ⟨[], [([defaultName], [])]⟩ none).openSite =
          .ok (.file [defaultName] {}) := by decide +kernel
      rw [enter, hsite]
      rfl
  have hdirectory : (FileTree.mk [] []).ensureDirectories (Path.ofText defaultName).parent =
      (none, ⟨[], []⟩) := rfl
  have hjournal : (Store.mk (.ofText defaultName) ⟨[], [([defaultName], [])]⟩ none).journalBlocked
      [defaultName] = false := by decide +kernel
  refine ⟨⟨.ofText defaultName, ⟨[], [([defaultName], [])]⟩, some .empty⟩, ?_,
    ⟨⟨.file [defaultName] {}, ?_⟩, _, rfl⟩, rfl⟩
  · rw [init, ofPath, hdirectory]
    dsimp only
    rw [henter [] (.inl rfl)]
    simp only [makeTables, hjournal]
    rfl
  · have hreplace := enter_replace ⟨.ofText defaultName, ⟨[], [([defaultName], [])]⟩, none⟩ (some .empty)
    rw [henter _ (.inr rfl)] at hreplace
    exact hreplace

end Store

end TapeMachine
