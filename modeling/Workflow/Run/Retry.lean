/-
Workflow.Run.Retry — waits between attempts.

The wait before a retry grows by a constant factor with each retry already
made, up to a greatest wait.

* `RetryPolicy.delay` — the wait before the next retry.
-/
import Workflow.Definition.Step

namespace Workflow.RetryPolicy

/-- The greatest power that a factor is raised to. -/
def greatestPower : Nat := Nat.pow 2 31 - 1

/-- The wait before the next retry when `made` have been made. -/
def delay (p : RetryPolicy) (made : Nat) : Duration :=
  let seconds := p.initialDelay.toFloat *
    Number.intPower p.backoffMultiplier.toFloat (min made greatestPower : Nat)
  if !seconds.isFinite || seconds ≥ p.maxDelay.toFloat then p.maxDelay
  else Duration.ofFloat (Number.greater seconds 0.0)

/-- Whether another retry may follow when `made` have been made. -/
def allows (p : RetryPolicy) (made : Nat) : Bool := made < p.maxRetries

end Workflow.RetryPolicy
