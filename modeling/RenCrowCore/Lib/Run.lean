import RenCrowCore.Lib.Except

/-!
# Runs of a step function

A system that takes one step for each event of a list, or stops when an event is not
possible.

* `run_invariant`: what every step preserves, every run preserves;
* `Every`, `run_invariant_of_every`: the same for runs whose events are all good for the
  states they come in;
* `foldlM_invariant_of_every`: the same for a fold that may fail.
-/

namespace Run

open Fallible

variable {σ ε : Type*}

/-- The state after a list of events. -/
def run (step : σ → ε → Option σ) : σ → List ε → Option σ
  | state, [] => some state
  | state, event :: events => (step state event).bind fun next => run step next events

variable {step : σ → ε → Option σ} {state next final : σ} {event : ε} {events later : List ε}

@[simp] theorem run_nil : run step state [] = some state := rfl

theorem run_cons_eq_some : run step state (event :: events) = some final ↔
    ∃ next, step state event = some next ∧ run step next events = some final :=
  Option.bind_eq_some_iff

theorem run_append_eq_some : run step state (events ++ later) = some final ↔
    ∃ next, run step state events = some next ∧ run step next later = some final := by
  induction events generalizing state with
  | nil => simp
  | cons event events ih =>
    simp only [List.cons_append, run_cons_eq_some, ih]
    constructor
    · rintro ⟨first, hfirst, next, hnext, hfinal⟩
      exact ⟨next, ⟨first, hfirst, hnext⟩, hfinal⟩
    · rintro ⟨next, ⟨first, hfirst, hnext⟩, hfinal⟩
      exact ⟨first, hfirst, next, hnext, hfinal⟩

/-- Every event of a run is good for the state it comes in. -/
def Every (step : σ → ε → Option σ) (good : σ → ε → Prop) : σ → List ε → Prop
  | _, [] => True
  | state, event :: events =>
    good state event ∧ ∀ next ∈ step state event, Every step good next events

instance decidableEvery {good : σ → ε → Prop} [∀ state event, Decidable (good state event)] :
    ∀ (state : σ) (events : List ε), Decidable (Every step good state events)
  | _, [] => isTrue trivial
  | state, event :: events =>
    match hstep : step state event with
    | none => decidable_of_iff (good state event) (by simp [Every, hstep])
    | some next =>
      have : Decidable (Every step good next events) := decidableEvery next events
      decidable_of_iff (good state event ∧ Every step good next events) (by simp [Every, hstep])

/-- What every step of a good event preserves, a run of good events preserves. -/
theorem run_invariant_of_every {invariant : σ → Prop} {good : σ → ε → Prop}
    (hstep : ∀ state event next, invariant state → good state event →
      step state event = some next → invariant next)
    (hrun : run step state events = some final) (hgood : Every step good state events)
    (hstate : invariant state) : invariant final := by
  induction events generalizing state with
  | nil =>
    obtain rfl := Option.some.inj hrun
    exact hstate
  | cons event events ih =>
    obtain ⟨next, hnext, hrun⟩ := run_cons_eq_some.mp hrun
    exact ih hrun (hgood.2 next hnext) (hstep state event next hstate hgood.1 hnext)

theorem every_true : ∀ (state : σ) (events : List ε), Every step (fun _ _ => True) state events
  | _, [] => trivial
  | _, _ :: events => ⟨trivial, fun next _ => every_true next events⟩

/-- **Invariant rule.** -/
theorem run_invariant {invariant : σ → Prop}
    (hstep : ∀ state event next, invariant state → step state event = some next → invariant next)
    (hrun : run step state events = some final) (hstate : invariant state) : invariant final :=
  run_invariant_of_every (fun state event next hinv _ => hstep state event next hinv) hrun
    (every_true state events) hstate

section Folds

variable {ω : Type*} {σ ε : Type} {f : σ → ε → Except ω σ} {invariant : σ → Prop} {state final : σ}
  {events : List ε}

/-- A fold that succeeds is a run of its function. -/
theorem run_of_foldlM (h : events.foldlM f state = .ok final) :
    run (fun state event => (f state event).toOption) state events = some final := by
  induction events generalizing state with
  | nil =>
    cases h
    rfl
  | cons event events ih =>
    rw [List.foldlM_cons] at h
    obtain ⟨next, hnext, h⟩ := bind_eq_ok.mp h
    exact run_cons_eq_some.mpr ⟨next, toOption_eq_some.mpr hnext, ih h⟩

/-- What every step of a good event preserves, a fold over good events preserves. -/
theorem foldlM_invariant_of_every {good : σ → ε → Prop}
    (hstep : ∀ state event next, invariant state → good state event → f state event = .ok next →
      invariant next) (hfold : events.foldlM f state = .ok final)
    (hgood : Every (fun state event => (f state event).toOption) good state events)
    (hstate : invariant state) : invariant final := by
  refine run_invariant_of_every ?_ (run_of_foldlM hfold) hgood hstate
  intro state event next hinv hgood hnext
  exact hstep state event next hinv hgood (toOption_eq_some.mp hnext)

/-- What every step preserves, a fold preserves. -/
theorem foldlM_invariant
    (hstep : ∀ state event next, invariant state → f state event = .ok next → invariant next)
    (hfold : events.foldlM f state = .ok final) (hstate : invariant state) : invariant final :=
  foldlM_invariant_of_every (fun state event next hinv _ => hstep state event next hinv) hfold
    (every_true state events) hstate

end Folds

end Run
