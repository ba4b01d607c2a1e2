import Mathlib.Init

/-! Runs of a system whose steps can be refused. -/

namespace Runs

variable {σ α : Type}

/-- The states that steps meeting a condition lead to. -/
inductive Reaches (step : σ → α → Option σ) (allowed : σ → α → Prop) (start : σ) : σ → Prop
  | start : Reaches step allowed start start
  | step {state after : σ} (h : Reaches step allowed start state) (action : α) (hallowed : allowed state action)
      (hstep : step state action = some after) : Reaches step allowed start after

def run (step : σ → α → Option σ) (allowed : σ → α → Prop) [∀ state action, Decidable (allowed state action)] :
    List α → σ → Option σ
  | [], state => some state
  | action :: rest, state => if allowed state action then (step state action).bind (run step allowed rest) else none

def anyStep (_ : σ) (_ : α) : Prop := True

instance (state : σ) (action : α) : Decidable (anyStep state action) := inferInstanceAs (Decidable True)

variable {step : σ → α → Option σ} {allowed : σ → α → Prop} {start state stop : σ}

/-- What holds at the start and is kept by every allowed step holds at every state reached. -/
theorem Reaches.invariant {P : σ → Prop} (h : Reaches step allowed start state) (hstart : P start)
    (hkeep : ∀ before action after, P before → allowed before action → step before action = some after → P after) :
    P state := by
  induction h with
  | start => exact hstart
  | step _ action hallowed hstep ih => exact hkeep _ action _ ih hallowed hstep

theorem Reaches.trans {middle : σ} (h : Reaches step allowed start middle) (h' : Reaches step allowed middle stop) :
    Reaches step allowed start stop := by
  induction h' with
  | start => exact h
  | step _ action hallowed hstep ih => exact .step ih action hallowed hstep

theorem Reaches.mono {allowed' : σ → α → Prop} (h : Reaches step allowed start state)
    (hallowed : ∀ state action, allowed state action → allowed' state action) : Reaches step allowed' start state := by
  induction h with
  | start => exact .start
  | step _ action haction hstep ih => exact .step ih action (hallowed _ action haction) hstep

theorem reaches_run [∀ state action, Decidable (allowed state action)] {actions : List α}
    (h : run step allowed actions state = some stop) : Reaches step allowed state stop := by
  induction actions generalizing state with
  | nil =>
    cases h
    exact .start
  | cons action rest ih =>
    rw [run] at h
    split at h
    · next hallowed =>
      obtain ⟨after, hstep, hrest⟩ := Option.bind_eq_some_iff.mp h
      exact (Reaches.start.step action hallowed hstep).trans (ih hrest)
    · cases h

end Runs
