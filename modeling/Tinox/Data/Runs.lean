/-!
# Runs

The states that steps reach from a start.  An invariant of every step holds in each of them.
-/

namespace Runs

variable {σ α : Type}

/-- The states that steps with an action reach. -/
inductive Reached (start : σ → Prop) (step : σ → α → σ → Prop) : σ → Prop where
  | start {s : σ} : start s → Reached start step s
  | step {s s' : σ} {action : α} : Reached start step s → step s action s' → Reached start step s'

variable {start : σ → Prop} {step : σ → α → σ → Prop}

/-- What holds at the start and is kept by each step holds in every state that is reached. -/
theorem Reached.invariant {holds : σ → Prop} (atStart : ∀ s, start s → holds s)
    (isKept : ∀ s action s', holds s → step s action s' → holds s') {s : σ}
    (reached : Reached start step s) : holds s := by
  induction reached with
  | start isStart => exact atStart _ isStart
  | step _ isStep inductionHypothesis => exact isKept _ _ _ inductionHypothesis isStep

end Runs
