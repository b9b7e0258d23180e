import Mathlib
import TapeMachine.Proofs.Blame

/-!
# How patient a run has to be

A run is given the most steps that it may try, and a run without a cap may use them up. Patience decides
only whether there is a report and never what the report says: more patience keeps every report
(`Evaluation.run_of_le`), and with an integer for a cap patience is not even asked for
(`Evaluation.run_of_counted`): such a run always comes to an end (`Snapshot.exists_ending?_of_count`).
-/

namespace TapeMachine

/-! ### Runs under a cap -/

theorem lt_of_capFault?_count {k n : Int} {problem : Limit → Problem}
    (h : capFault? k problem (some (.count n)) = none) : k < n := by
  have hcap : capFault? k problem ((some n).map .count) = none := h
  exact capFault?_count_eq_none_iff.1 hcap n rfl

namespace Snapshot

section Counted

variable {code : Code} {caps : Caps} {s t : Snapshot} {n : Int}

theorem Stepped.steps_lt {f : Option Fault} (h : Stepped code caps s f t) (hf : f = none)
    (hr : ¬ s.Finished code) (hcap : caps.steps = some (.count n)) : s.machine.steps < n := by
  cases h with
  | finished hfin => exact absurd hfin hr
  | noInstruction | capped => cases hf
  | executed _ _ hc _ =>
    rw [hcap] at hc
    exact lt_of_capFault?_count hc

/-- A step, also one that fails, keeps the count within the cap. -/
theorem Stepped.steps_le {f : Option Fault} (h : Stepped code caps s f t)
    (hcap : caps.steps = some (.count n)) (hs : s.machine.steps ≤ max 0 n) :
    t.machine.steps ≤ max 0 n := by
  by_cases hfin : s.Finished code
  · rw [h.unique (.finished hfin) |>.2]
    exact hs
  · by_cases hf : f = none
    · have hlt := h.steps_lt hf hfin hcap
      rw [h.steps_eq hf hfin]
      omega
    · rw [h.machine_eq hf]
      exact hs

theorem le_of_after_of_count (hcap : caps.steps = some (.count n)) (hs : s.machine.steps = 0) {k : Nat}
    (h : s.after code caps k = some t) : (k : Int) ≤ max 0 n := by
  have hle : t.machine.steps ≤ max 0 n :=
    after_induction (P := fun v => v.machine.steps ≤ max 0 n)
      (fun _ _ hv _ hst => hst.steps_le hcap hv) h (hs ▸ le_max_left 0 n)
  rwa [steps_after h, hs, zero_add] at hle

/-- **A run under a cap on its steps comes to an end**, after no more steps than the cap allows. -/
theorem exists_ending?_of_count (hcap : caps.steps = some (.count n)) (hs : s.machine.steps = 0) :
    ∃ (k : Nat) (t : Snapshot) (e : Ending), (k : Int) ≤ max 0 n ∧ s.after code caps k = some t ∧
      t.ending? code caps = some e := by
  have hspec : EndsIn code caps (n.toNat + 1) s _ _ :=
    runFor_spec code caps (n.toNat + 1) s.machine s.streams
  obtain ⟨k, -, t, ht, he, -⟩ := hspec.exists_ending? (by
    -- a run that goes on would have one step too many
    intro hunfinished
    rw [hunfinished] at hspec
    have hle := le_of_after_of_count hcap hs hspec.1
    omega)
  exact ⟨k, t, _, le_of_after_of_count hcap hs ht, ht, he⟩

end Counted

end Snapshot

/-! ### Patience -/

theorem runFor_of_le {code : Code} {caps : Caps} {fuel fuel' : Nat} {m : Machine} {io : Streams}
    (hle : fuel ≤ fuel') (h : (runFor code caps fuel m io).1 ≠ .unfinished) :
    runFor code caps fuel' m io = runFor code caps fuel m io := by
  obtain ⟨extra, rfl⟩ := Nat.exists_eq_add_of_le hle
  clear hle
  induction fuel generalizing m io with
  | zero =>
    by_cases hfin : code.finished m.pc = true
    · cases extra <;> simp only [runFor, hfin, if_true]
    · rw [runFor, if_neg hfin] at h
      exact absurd rfl h
  | succ fuel ih =>
    rw [Nat.succ_add]
    rw [runFor] at h ⊢
    rw [runFor]
    split
    · rfl
    · next hfin =>
      rw [if_neg hfin] at h
      split
      · rfl
      · next m' io' hstep =>
        rw [hstep] at h
        exact ih h

theorem interpret_of_le {code : Code} {settings : Settings} {input : Reader} {output : Sink}
    {fuel fuel' : Nat} (hle : fuel ≤ fuel')
    (h : (interpret fuel code settings input output).ending ≠ .unfinished) :
    interpret fuel' code settings input output = interpret fuel code settings input output := by
  unfold interpret at h ⊢
  rw [runFor_of_le hle]
  intro hunfinished
  refine h ?_
  generalize runFor code settings.caps fuel _ _ = run at hunfinished ⊢
  obtain ⟨ending, m, io⟩ := run
  exact (Run.ending_close_eq_unfinished_iff _ _ _ _).2 hunfinished

theorem Setup.caps_of_ofConfig {room : Room} {p : Program} {c : Config} {code : Code} {setup : Setup}
    {settings : Settings} (h : Setup.ofConfig room p c = .ok (code, setup, settings)) :
    settings.caps = ⟨Limit.ofValue c.maxSteps, Limit.ofValue c.maxOutput⟩ := by
  obtain ⟨-, hsettings, hcaps⟩ := Setup.of_ofConfig_eq_ok h
  rw [(Setup.eq_of_settings hsettings).1, hcaps]

/-- Steps enough to reach a cap are enough however patient the run is. -/
theorem Caps.fuel_mono (caps : Caps) {patience patience' : Nat} (hle : patience ≤ patience') :
    caps.fuel patience ≤ caps.fuel patience' := by
  unfold Caps.fuel
  split
  · exact Nat.le_refl _
  · exact hle

namespace Evaluation

/-- **More patience keeps every report.** -/
theorem run_of_le {room : Room} {patience patience' : Nat} (hle : patience ≤ patience')
    {source : Option String} {text : String} {input : List UInt8} {settings : Value} {report : Report}
    (h : run room patience source text input settings = .ok report) :
    run room patience' source text input settings = .ok report := by
  unfold run at h ⊢
  split at h
  · cases h
  · split at h
    · exact h
    · cases h
    · next code setup s hsetup =>
      rw [interpret_of_le (s.caps.fuel_mono hle)]
      · exact h
      · intro hunfinished
        rw [ofRun, hunfinished] at h
        cases h

/-- Patience is not asked for if there is an integer for a cap on the steps. -/
theorem run_of_counted {room : Room} {settings : Value} {config : Config} {n : Int}
    (hconfig : Config.ofSettings settings = .ok config) (hsteps : config.maxSteps = .int n)
    (patience patience' : Nat) (source : Option String) (text : String) (input : List UInt8) :
    run room patience source text input settings = run room patience' source text input settings := by
  unfold run
  rw [hconfig]
  dsimp only
  split
  · rfl
  · rfl
  · next code setup s hsetup =>
    have hcaps := Setup.caps_of_ofConfig hsetup
    rw [hsteps] at hcaps
    rw [Caps.fuel, Caps.fuel, hcaps]
    rfl

end Evaluation

end TapeMachine
